import Mathlib.Data.List.ReduceOption
import Mathlib.Data.List.Sort
import Mathlib.Tactic.Lemma

/-!
# Lists

Two kinds of lists come up again and again.

In a list with related neighbours, where every element is in a relation to all later ones,
any two elements are the same or related one way or the other (`eq_or_of_pairwise`).  If the
elements ascend, the list is determined by them (`eq_of_ascending`).

A list may be processed element by element so that the first failure ends the work.  Such a
traversal succeeds exactly when it succeeds for every element; its results are then those of
the elements, in their order.  Its failure is the one of the first element that has any
(`exists_mapM_eq_ok_iff`, `mem_of_mapM`, `mapM_eq_error_iff`).
-/

namespace Delegation.Sequence

/-! ## Lists in order -/

/-- Two elements of a list in order are the same, or one is before the other. -/
theorem eq_or_of_pairwise {α : Type} {R : α → α → Prop} {l : List α} (h : l.Pairwise R) {x y : α}
    (hx : x ∈ l) (hy : y ∈ l) : x = y ∨ R x y ∨ R y x := by
  refine List.Pairwise.forall_of_forall_of_flip
    (R := fun x y => x = y ∨ R x y ∨ R y x) (fun _ _ => .inl rfl) ?_ ?_ hx hy
  · exact h.imp fun hxy => .inr (.inl hxy)
  · exact h.imp fun hyx => .inr (.inr hyx)

/-- Lists of the same elements in ascending order are equal. -/
theorem eq_of_ascending {α : Type} {key : α → Nat} {l l' : List α}
    (h : l.Pairwise fun x y => key x < key y) (h' : l'.Pairwise fun x y => key x < key y)
    (hmem : ∀ x, x ∈ l ↔ x ∈ l') : l = l' := by
  have : Std.Irrefl fun x y => key x < key y := ⟨fun x => Nat.lt_irrefl (key x)⟩
  have : Std.Antisymm fun x y => key x < key y := ⟨fun x y hxy hyx => by omega⟩
  exact List.Pairwise.eq_of_mem_iff h h' hmem

/-- Removing repetitions leaves a list without any. -/
lemma nodup_eraseDups {α : Type} [BEq α] [LawfulBEq α] (l : List α) : l.eraseDups.Nodup := by
  match l with
  | [] => simp
  | a :: rest =>
    rw [List.eraseDups_cons, List.nodup_cons]
    refine ⟨?_, nodup_eraseDups _⟩
    intro hmem
    -- what follows has been freed of the first element
    have hne := (List.mem_filter.mp (List.mem_eraseDups.mp hmem)).2
    simp at hne
termination_by l.length
decreasing_by exact Nat.lt_succ_of_le (List.length_filter_le ..)

/-- The parts of a list by their keys are the whole list in another order. -/
theorem perm_flatMap_filter {α κ : Type} [DecidableEq κ] {key : α → κ} {keys : List κ} {l : List α}
    (hnodup : keys.Nodup) (hkeys : ∀ x ∈ l, key x ∈ keys) :
    (keys.flatMap fun k => l.filter (key · = k)).Perm l := by
  -- by the keys: each of them takes its part away from the list
  induction keys generalizing l with
  | nil => simp [List.eq_nil_iff_forall_not_mem.mpr fun x hx => List.not_mem_nil (hkeys x hx)]
  | cons k keys ih =>
    rw [List.nodup_cons] at hnodup
    have hothers : ∀ x ∈ l.filter (¬ key · = k), key x ∈ keys := by
      intro x hx
      obtain ⟨hx, hne⟩ := List.mem_filter.mp hx
      exact (List.mem_cons.mp (hkeys x hx)).resolve_left (of_decide_eq_true hne)
    have hsame : (keys.flatMap fun j => (l.filter (¬ key · = k)).filter (key · = j)) =
        keys.flatMap fun j => l.filter (key · = j) := by
      refine List.flatMap_congr fun j hj => ?_
      rw [List.filter_filter]
      refine List.filter_congr fun x _ => ?_
      rw [← Bool.decide_and, decide_eq_decide, and_iff_left_iff_imp]
      rintro rfl rfl
      exact hnodup.1 hj
    rw [List.flatMap_cons, ← hsame]
    have hperm := (ih hnodup.2 hothers).append_left (l.filter (key · = k))
    simp only [decide_not] at hperm ⊢
    exact hperm.trans (List.filter_append_perm _ l)

/-- What a relation says of its left sides holds of all elements of a related list. -/
lemma forall_of_forall₂ {α β : Type} {R : α → β → Prop} {p : α → Prop} {l : List α} {l' : List β}
    (h : List.Forall₂ R l l') (hp : ∀ ⦃x y⦄, R x y → p x) : ∀ x ∈ l, p x :=
  ((List.forall₂_and_left l l').mp (h.imp fun _ _ hxy => ⟨hp hxy, hxy⟩)).1

/-- What a relation makes equal on both sides is the same list on both sides of related lists. -/
lemma map_eq_map_of_forall₂ {α β γ : Type} {R : α → β → Prop} {g : α → γ} {k : β → γ} {l : List α}
    {l' : List β} (h : List.Forall₂ R l l') (heq : ∀ x y, R x y → g x = k y) :
    l.map g = l'.map k := by
  rw [← List.forall₂_eq_eq_eq, List.forall₂_map_left_iff, List.forall₂_map_right_iff]
  exact h.imp heq

/-- A relation that gives each element of some kind one value relates lists of them to their
values. -/
lemma forall₂_iff_map_eq {α β : Type} {R : α → β → Prop} {p : α → Prop} {f : α → β}
    (h : ∀ {x y}, R x y ↔ p x ∧ f x = y) {l : List α} {l' : List β} :
    List.Forall₂ R l l' ↔ (∀ x ∈ l, p x) ∧ l.map f = l' := by
  have hR : R = fun x y => p x ∧ f x = y := by
    ext x y
    exact h
  rw [hR, List.forall₂_and_left, ← List.forall₂_eq_eq_eq, List.forall₂_map_left_iff]

/-! ## Traversals that may fail -/

section Traversal

variable {ε α β γ : Type} {f : α → Except ε β} {x : α} {y : β} {l : List α} {l' : List β} {e : ε}

/-! ### One step -/

lemma map_eq_ok_iff {g : β → γ} {m : Except ε β} {z : γ} :
    m.map g = .ok z ↔ ∃ y, m = .ok y ∧ g y = z := by
  cases m <;> simp [Except.map]

lemma map_eq_error_iff {g : β → γ} {m : Except ε β} : m.map g = .error e ↔ m = .error e := by
  cases m <;> simp [Except.map]

lemma bind_eq_ok_iff {g : β → Except ε γ} {m : Except ε β} {z : γ} :
    m >>= g = .ok z ↔ ∃ y, m = .ok y ∧ g y = .ok z := by
  cases m <;> simp [bind, Except.bind]

lemma mapM_cons_of_ok (l : List α) (h : f x = .ok y) :
    (x :: l).mapM f = (l.mapM f).map (y :: ·) := by
  rw [List.mapM_cons, h]
  cases hl : l.mapM f <;> rfl

lemma mapM_cons_of_error (l : List α) (h : f x = .error e) : (x :: l).mapM f = .error e := by
  rw [List.mapM_cons, h]
  rfl

lemma mapM_cons_eq_ok_iff :
    (x :: l).mapM f = .ok l' ↔ ∃ y ys, f x = .ok y ∧ l.mapM f = .ok ys ∧ l' = y :: ys := by
  cases hx : f x with
  | error e =>
    rw [mapM_cons_of_error l hx]
    simp
  | ok y =>
    rw [mapM_cons_of_ok l hx, map_eq_ok_iff]
    constructor
    · rintro ⟨ys, hys, rfl⟩
      exact ⟨y, ys, rfl, hys, rfl⟩
    · rintro ⟨y', ys, hy, hys, rfl⟩
      obtain rfl := Except.ok.inj hy
      exact ⟨ys, hys, rfl⟩

lemma mapM_concat_eq_ok_iff :
    (l ++ [x]).mapM f = .ok l' ↔ ∃ ys y, l.mapM f = .ok ys ∧ f x = .ok y ∧ l' = ys ++ [y] := by
  induction l generalizing l' with
  | nil =>
    rw [List.nil_append, mapM_cons_eq_ok_iff]
    simp [pure, Except.pure]
  | cons z l ih =>
    rw [List.cons_append, mapM_cons_eq_ok_iff]
    constructor
    · rintro ⟨w, zs, hw, hzs, rfl⟩
      obtain ⟨ys, y, hys, hy, rfl⟩ := ih.mp hzs
      exact ⟨w :: ys, y, mapM_cons_eq_ok_iff.mpr ⟨w, ys, hw, hys, rfl⟩, hy, rfl⟩
    · rintro ⟨zs, y, hzs, hy, rfl⟩
      obtain ⟨w, ys, hw, hys, rfl⟩ := mapM_cons_eq_ok_iff.mp hzs
      exact ⟨w, ys ++ [y], hw, ih.mpr ⟨ys, y, hys, hy, rfl⟩, rfl⟩

/-- A fold over one more element at the end goes on from the result of the others. -/
lemma foldlM_concat {m : Type → Type} [Monad m] [LawfulMonad m] (g : β → α → m β) (y : β)
    (l : List α) (x : α) : (l ++ [x]).foldlM g y = l.foldlM g y >>= fun z => g z x := by
  rw [List.foldlM_append]
  congr 1
  funext z
  rw [List.foldlM_cons]
  exact bind_pure (g z x)

/-- A fold fails at the first element that fails where the fold has come to. -/
theorem foldlM_eq_error_iff {g : β → α → Except ε β} :
    l.foldlM g y = .error e ↔
      ∃ before x after z, l = before ++ x :: after ∧ before.foldlM g y = .ok z ∧
        g z x = .error e := by
  induction l generalizing y with
  | nil => simp [pure, Except.pure]
  | cons x l ih =>
    rw [List.foldlM_cons]
    constructor
    · intro h
      cases hx : g y x with
      | error e' =>
        rw [hx] at h
        exact ⟨[], x, l, y, rfl, rfl, hx.trans h⟩
      | ok z =>
        rw [hx] at h
        obtain ⟨before, x', after, w, rfl, hw, he⟩ := ih.mp h
        refine ⟨x :: before, x', after, w, rfl, ?_, he⟩
        rw [List.foldlM_cons, hx]
        exact hw
    · rintro ⟨before, x', after, z, hl, hz, he⟩
      cases before with
      | nil =>
        obtain ⟨rfl, rfl⟩ := List.cons.inj hl
        obtain rfl := Except.ok.inj hz
        rw [he]
        rfl
      | cons _ before =>
        obtain ⟨rfl, rfl⟩ := List.cons.inj hl
        obtain ⟨w, hw, hz⟩ := bind_eq_ok_iff.mp (List.foldlM_cons.symm.trans hz)
        rw [hw]
        exact ih.mpr ⟨before, x', after, z, rfl, hz, he⟩

/-! ### Results -/

/-- The results of a traversal may be changed afterwards. -/
lemma mapM_map_eq (f : α → Except ε β) (g : β → γ) (l : List α) :
    l.mapM (fun x => (f x).map g) = (l.mapM f).map (List.map g) := by
  induction l with
  | nil => rfl
  | cons x l ih =>
    cases hx : f x with
    | error e =>
      rw [mapM_cons_of_error l hx, mapM_cons_of_error l (map_eq_error_iff.mpr hx)]
      rfl
    | ok y =>
      rw [mapM_cons_of_ok l hx, mapM_cons_of_ok l (map_eq_ok_iff.mpr ⟨y, hx, rfl⟩), ih]
      cases l.mapM f <;> rfl

/-- Parts may be traversed one by one instead of the whole. -/
lemma mapM_flatMap_eq (f : α → Except ε β) (g : γ → List α) (l : List γ) :
    (l.flatMap g).mapM f = (l.mapM fun x => (g x).mapM f).map List.flatten := by
  induction l with
  | nil => rfl
  | cons x l ih =>
    rw [List.flatMap_cons, List.mapM_append, ih]
    cases hx : (g x).mapM f with
    | error e =>
      rw [mapM_cons_of_error (f := fun x => (g x).mapM f) l hx]
      rfl
    | ok ys =>
      rw [mapM_cons_of_ok (f := fun x => (g x).mapM f) l hx]
      cases l.mapM fun x => (g x).mapM f <;> rfl

/-- The results of a traversal are those of the elements, one by one. -/
theorem mapM_eq_ok_iff : l.mapM f = .ok l' ↔ List.Forall₂ (fun x y => f x = .ok y) l l' := by
  induction l generalizing l' with
  | nil => simp [pure, Except.pure, eq_comm]
  | cons x l ih =>
    rw [mapM_cons_eq_ok_iff, List.forall₂_cons_left_iff]
    constructor
    · rintro ⟨y, ys, hy, hys, rfl⟩
      exact ⟨y, ys, hy, ih.mp hys, rfl⟩
    · rintro ⟨y, ys, hy, hys, rfl⟩
      exact ⟨y, ys, hy, ih.mpr hys, rfl⟩

/-- A traversal succeeds exactly when it does so for each element. -/
theorem exists_mapM_eq_ok_iff : (∃ l', l.mapM f = .ok l') ↔ ∀ x ∈ l, ∃ y, f x = .ok y := by
  induction l with
  | nil => simp [pure, Except.pure]
  | cons x l ih =>
    rw [List.forall_mem_cons, ← ih]
    constructor
    · rintro ⟨l', h⟩
      obtain ⟨y, ys, hy, hys, -⟩ := mapM_cons_eq_ok_iff.mp h
      exact ⟨⟨y, hy⟩, ys, hys⟩
    · rintro ⟨⟨y, hy⟩, ys, hys⟩
      exact ⟨y :: ys, mapM_cons_eq_ok_iff.mpr ⟨y, ys, hy, hys, rfl⟩⟩

/-- The results of a traversal are those of the elements. -/
theorem mem_of_mapM (h : l.mapM f = .ok l') : y ∈ l' ↔ ∃ x ∈ l, f x = .ok y := by
  induction l generalizing l' with
  | nil =>
    obtain rfl := Except.ok.inj h
    simp
  | cons x l ih =>
    obtain ⟨z, ys, hz, hys, rfl⟩ := mapM_cons_eq_ok_iff.mp h
    simp [ih hys, hz, eq_comm]

/-- Each element has one result. -/
lemma length_of_mapM (h : l.mapM f = .ok l') : l'.length = l.length := by
  induction l generalizing l' with
  | nil =>
    obtain rfl := Except.ok.inj h
    rfl
  | cons x l ih =>
    obtain ⟨z, ys, -, hys, rfl⟩ := mapM_cons_eq_ok_iff.mp h
    rw [List.length_cons, List.length_cons, ih hys]

/-- A traversal that agrees with another one on each element agrees with it on the list. -/
lemma mapM_eq_ok_map {g : α → Except ε γ} {k : β → γ} (h : l.mapM f = .ok l')
    (hgk : ∀ ⦃x y⦄, f x = .ok y → g x = .ok (k y)) : l.mapM g = .ok (l'.map k) := by
  induction l generalizing l' with
  | nil =>
    obtain rfl := Except.ok.inj h
    rfl
  | cons x l ih =>
    obtain ⟨z, ys, hz, hys, rfl⟩ := mapM_cons_eq_ok_iff.mp h
    exact mapM_cons_eq_ok_iff.mpr ⟨k z, ys.map k, hgk hz, ih hys, rfl⟩

/-- What is picked from the results may be picked from the elements. -/
lemma filterMap_of_mapM {g : β → Option γ} {k : α → Option γ} (h : l.mapM f = .ok l')
    (hgk : ∀ ⦃x y⦄, f x = .ok y → g y = k x) : l'.filterMap g = l.filterMap k := by
  induction l generalizing l' with
  | nil =>
    obtain rfl := Except.ok.inj h
    rfl
  | cons x l ih =>
    obtain ⟨z, ys, hz, hys, rfl⟩ := mapM_cons_eq_ok_iff.mp h
    rw [List.filterMap_cons, List.filterMap_cons, hgk hz, ih hys]

/-- Where elements may have no result, the results are those of some elements, in their order. -/
lemma exists_sublist_of_mapM {f : α → Except ε (Option β)} {found : List (Option β)}
    (h : l.mapM f = .ok found) :
    ∃ chosen, chosen.Sublist l ∧
      List.Forall₂ (fun x y => f x = .ok (some y)) chosen found.reduceOption := by
  induction l generalizing found with
  | nil =>
    obtain rfl := Except.ok.inj h
    exact ⟨[], .slnil, .nil⟩
  | cons x l ih =>
    obtain ⟨y?, ys, hy, hys, rfl⟩ := mapM_cons_eq_ok_iff.mp h
    obtain ⟨chosen, hsublist, hsome⟩ := ih hys
    cases y? with
    | none => exact ⟨chosen, hsublist.cons x, hsome⟩
    | some y => exact ⟨x :: chosen, hsublist.cons_cons x, .cons hy hsome⟩

/-- A traversal in which nothing can fail applies a function. -/
lemma mapM_eq_ok_of_forall {k : α → β} (h : ∀ x ∈ l, f x = .ok (k x)) :
    l.mapM f = .ok (l.map k) := by
  induction l with
  | nil => rfl
  | cons x l ih =>
    rw [List.forall_mem_cons] at h
    exact mapM_cons_eq_ok_iff.mpr ⟨k x, l.map k, h.1, ih h.2, rfl⟩

/-- Elements that are in some order have results that are in a corresponding one. -/
lemma pairwise_of_mapM {R : α → α → Prop} {S : β → β → Prop} (h : l.mapM f = .ok l')
    (hl : l.Pairwise R) (hRS : ∀ ⦃x y z w⦄, f x = .ok z → f y = .ok w → R x y → S z w) :
    l'.Pairwise S := by
  induction l generalizing l' with
  | nil =>
    obtain rfl := Except.ok.inj h
    exact .nil
  | cons x l ih =>
    obtain ⟨z, ys, hz, hys, rfl⟩ := mapM_cons_eq_ok_iff.mp h
    rw [List.pairwise_cons]
    refine ⟨?_, ih hys hl.tail⟩
    intro w hw
    obtain ⟨y, hy, hyw⟩ := (mem_of_mapM hys).mp hw
    exact hRS hz hyw (List.rel_of_pairwise_cons hl hy)

/-! ### Failures -/

/-- The failure of a traversal is that of the first element that fails. -/
theorem mapM_eq_error_iff :
    l.mapM f = .error e ↔
      ∃ before x after, l = before ++ x :: after ∧ (∀ y ∈ before, ∃ z, f y = .ok z) ∧
        f x = .error e := by
  induction l with
  | nil => simp [pure, Except.pure]
  | cons x l ih =>
    cases hx : f x with
    | error e' =>
      -- no element is reached behind the first one
      rw [mapM_cons_of_error l hx]
      constructor
      · intro h
        exact ⟨[], x, l, rfl, by simp, hx.trans (by simpa using h)⟩
      · rintro ⟨_ | ⟨z, before⟩, x', after, hl, hbefore, hx'⟩
        · obtain ⟨rfl, rfl⟩ := List.cons.inj hl
          rw [Except.error.inj (hx.symm.trans hx')]
        · obtain ⟨rfl, -⟩ := List.cons.inj hl
          obtain ⟨z, hz⟩ := hbefore x (by simp)
          simp [hx] at hz
    | ok y =>
      -- the failure is one of the elements behind
      rw [mapM_cons_of_ok l hx, map_eq_error_iff, ih]
      constructor
      · rintro ⟨before, x', after, rfl, hbefore, hx'⟩
        refine ⟨x :: before, x', after, rfl, ?_, hx'⟩
        intro z hz
        rcases List.mem_cons.mp hz with rfl | hz
        · exact ⟨y, hx⟩
        · exact hbefore z hz
      · rintro ⟨_ | ⟨z, before⟩, x', after, hl, hbefore, hx'⟩
        · obtain ⟨rfl, -⟩ := List.cons.inj hl
          simp [hx] at hx'
        · obtain ⟨rfl, rfl⟩ := List.cons.inj hl
          exact ⟨before, x', after, rfl, fun w hw => hbefore w (by simp [hw]), hx'⟩

end Traversal

end Delegation.Sequence
