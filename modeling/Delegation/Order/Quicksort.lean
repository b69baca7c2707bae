import Delegation.Order.Wheel

/-!
# Quicksort by a key

`Quicksort.sort key` puts a list in the ascending order of whole-number keys.  A list that is
short, or in order from the start or backwards, is sorted so that elements with the same key
keep their order.  A longer one is sorted in place as an array would be, by splitting it at
an element near the middle, and there elements with the same key may change places.  Which
one comes first is a matter of the whole list, so it is fixed here move by move:

* `middle` chooses the element to split at;
* that element changes places with the first one (`bringForward`);
* `split` passes through the others once and collects the smaller ones on the left, while
  each step turns the larger ones by one place;
* the two sides are sorted in the same way.  An element which is no larger than everything
  on the right of a former split is split off together with its equals, which then need no
  further sorting.

`sort_perm` and `sort_pairwise` say that the result is an ordered list of the same elements.
-/

namespace Delegation.Quicksort

variable {α : Type}

/-! ## The element to split at -/

/-- Of three positions, the one whose value lies in the middle. -/
def median (value : Nat → Nat) (a b c : Nat) : Nat :=
  let belowB : Bool := value a < value b
  let belowC : Bool := value a < value c
  let ordered : Bool := value b < value c
  if belowB != belowC then a
  else if ordered != belowB then c
  else b

/-- A position in the block of `size` positions from `start` on whose value lies about in the
middle: the median of the beginnings of its first, its fifth and its last eighth, or of the
middles of these eighths where they are long themselves. -/
def middle (value : Nat → Nat) (start size : Nat) : Nat :=
  let eighth := size / 8
  let fifth := start + 4 * eighth
  let last := start + 7 * eighth
  if eighth < 8 then median value start fifth last
  else median value (middle value start eighth) (middle value fifth eighth)
    (middle value last eighth)
termination_by size
decreasing_by all_goals omega

/-- The element at a position of a list `head :: tail`, and the other ones after it has
changed places with `head`. -/
def bringForward (head : α) (tail : List α) : Nat → α × List α
  | 0 => (head, tail)
  | i + 1 => (tail.getD i head, tail.set i head)

/-- The element to split a list `head :: tail` at, and the other ones. -/
def choose (key : α → Nat) (head : α) (tail : List α) : α × List α :=
  let keys := ((head :: tail).map key).toArray
  bringForward head tail (middle (fun i => keys[i]?.getD 0) 0 keys.size)

/-! ## Splitting -/

/-- Sorts one more element into one of two sides.  The left one is listed backwards; the right
one is turned by one place before it may receive the element. -/
def place (p : α → Bool) (sides : List α × Wheel α) (x : α) : List α × Wheel α :=
  if p x then (x :: sides.1, sides.2.turn) else (sides.1, sides.2.turn.push x)

/-- A list that is given backwards, with its last element moved to the front. -/
def lastToFront : List α → List α
  | [] => []
  | last :: before => last :: before.reverse

/-- The elements with a property and those without it.  The first element of the list is
looked at after all others. -/
def split (p : α → Bool) : List α → List α × List α
  | [] => ([], [])
  | first :: rest =>
    let sides := (rest ++ [first]).foldl (place p) ([], Wheel.empty)
    (lastToFront sides.1, sides.2.toList)

/-! ## Sorting -/

/-- The greatest length of a list which is not split. -/
def shortLength : Nat := 32

/-- Sorts a list; elements with the same key keep their order. -/
def stable (key : α → Nat) (l : List α) : List α := l.mergeSort fun x y => key x ≤ key y

/-- Sorts a list by at most `limit` splits inside each other.  No key is smaller than `floor`,
which is the key of the split that the list lies on the right of. -/
def splitting (key : α → Nat) : (limit : Nat) → (floor : Option Nat) → List α → List α
  | _, _, [] => []
  | 0, _, l => stable key l
  | limit + 1, floor, head :: tail =>
    if tail.length < shortLength then stable key (head :: tail)
    else
      let (pivot, others) := choose key head tail
      if floor.any (key pivot ≤ ·) then
        let (equals, larger) := split (fun x => key x ≤ key pivot) others
        equals ++ pivot :: splitting key limit none larger
      else
        let (smaller, larger) := split (fun x => key x < key pivot) others
        splitting key limit floor smaller ++
          pivot :: splitting key limit (some (key pivot)) larger

/-- Whether each element of a list stands in a relation to the next one. -/
def isChain (related : α → α → Bool) (l : List α) : Bool :=
  (l.zip l.tail).all fun x => related x.1 x.2

/-- Puts a list in the ascending order of keys. -/
def sort (key : α → Nat) (l : List α) : List α :=
  if isChain (fun x y => key x ≤ key y) l || isChain (fun x y => key y < key x) l then
    stable key l
  else splitting key (2 * l.length.log2) none l

/-! ## The result is a rearrangement -/

theorem bringForward_perm (head : α) (tail : List α) (i : Nat) :
    ((bringForward head tail i).1 :: (bringForward head tail i).2).Perm (head :: tail) := by
  cases i with
  | zero => exact .refl _
  | succ i =>
    induction tail generalizing i with
    | nil => exact .refl _
    | cons x tail ih =>
      cases i with
      | zero => exact .swap ..
      | succ i => exact (List.Perm.swap ..).trans (((ih i).cons x).trans (.swap ..))

theorem choose_perm (key : α → Nat) (head : α) (tail : List α) :
    ((choose key head tail).1 :: (choose key head tail).2).Perm (head :: tail) :=
  bringForward_perm ..

theorem lastToFront_perm (l : List α) : (lastToFront l).Perm l := by
  cases l with
  | nil => exact .refl _
  | cons last before => exact (List.reverse_perm before).cons last

/-- Placing elements gathers those with the property on the left and the others on the
right. -/
theorem foldl_place_perm (p : α → Bool) (l : List α) (sides : List α × Wheel α) :
    (l.foldl (place p) sides).1.Perm (l.filter p ++ sides.1) ∧
      (l.foldl (place p) sides).2.toList.Perm (l.filter (fun x => !p x) ++ sides.2.toList) := by
  induction l generalizing sides with
  | nil => exact ⟨.refl _, .refl _⟩
  | cons x l ih =>
    obtain ⟨left, right⟩ := ih (place p sides x)
    cases h : p x
    · simp only [List.foldl_cons, place, h, Bool.false_eq_true, if_false, Wheel.toList_push,
        Bool.not_false, List.filter_cons, List.cons_append, if_true] at left right ⊢
      exact ⟨left, right.trans (List.perm_middle.trans
        (((Wheel.toList_turn_perm _).append_left _).cons x))⟩
    · simp only [List.foldl_cons, place, h, if_true, List.filter_cons, List.cons_append,
        Bool.not_true, Bool.false_eq_true, if_false] at left right ⊢
      exact ⟨left.trans List.perm_middle, right.trans ((Wheel.toList_turn_perm _).append_left _)⟩

theorem split_fst_perm (p : α → Bool) (l : List α) : (split p l).1.Perm (l.filter p) := by
  cases l with
  | nil => exact .refl _
  | cons first rest =>
    refine (lastToFront_perm _).trans ((foldl_place_perm p _ _).1.trans ?_)
    simpa using (List.perm_append_singleton first rest).filter p

theorem split_snd_perm (p : α → Bool) (l : List α) :
    (split p l).2.Perm (l.filter fun x => !p x) := by
  cases l with
  | nil => exact .refl _
  | cons first rest =>
    refine (foldl_place_perm p _ _).2.trans ?_
    simpa using (List.perm_append_singleton first rest).filter fun x => !p x

theorem split_perm (p : α → Bool) (l : List α) : ((split p l).1 ++ (split p l).2).Perm l :=
  ((split_fst_perm p l).append (split_snd_perm p l)).trans (List.filter_append_perm p l)

theorem stable_perm (key : α → Nat) (l : List α) : (stable key l).Perm l :=
  List.mergeSort_perm ..

/-- Splitting sorts nothing away. -/
theorem splitting_perm (key : α → Nat) (limit : Nat) (floor : Option Nat) (l : List α) :
    (splitting key limit floor l).Perm l := by
  induction limit generalizing floor l with
  | zero => cases l with
    | nil => exact .refl _
    | cons head tail => exact stable_perm ..
  | succ limit ih =>
    cases l with
    | nil => exact .refl _
    | cons head tail =>
      simp only [splitting]
      split
      · exact stable_perm ..
      · refine .trans ?_ (choose_perm key head tail)
        split
        · exact List.perm_middle.trans
            (((List.Perm.append_left _ (ih ..)).trans (split_perm ..)).cons _)
        · exact List.perm_middle.trans
            ((((ih ..).append (ih ..)).trans (split_perm ..)).cons _)

/-- Sorting keeps all elements. -/
theorem sort_perm (key : α → Nat) (l : List α) : (sort key l).Perm l := by
  unfold sort
  split
  · exact stable_perm ..
  · exact splitting_perm ..

/-! ## The result is in order -/

theorem stable_pairwise (key : α → Nat) (l : List α) :
    (stable key l).Pairwise (key · ≤ key ·) := by
  unfold stable
  refine (List.pairwise_mergeSort (fun x y z hxy hyz => ?_) (fun x y => ?_) l).imp
    fun hxy => by simpa using hxy
  · simp only [decide_eq_true_eq] at hxy hyz ⊢
    omega
  · simp only [Bool.or_eq_true, decide_eq_true_eq]
    omega

/-- A list whose keys are at least `floor` comes into order. -/
theorem splitting_pairwise (key : α → Nat) (limit : Nat) (floor : Option Nat) (l : List α)
    (hfloor : ∀ f ∈ floor, ∀ x ∈ l, f ≤ key x) :
    (splitting key limit floor l).Pairwise (key · ≤ key ·) := by
  induction limit generalizing floor l with
  | zero => cases l with
    | nil => exact .nil
    | cons head tail => exact stable_pairwise ..
  | succ limit ih =>
    cases l with
    | nil => exact .nil
    | cons head tail =>
      simp only [splitting]
      split
      · exact stable_pairwise ..
      · have hmem : ∀ f ∈ floor, ∀ x ∈ (choose key head tail).1 :: (choose key head tail).2,
            f ≤ key x := fun f hf x hx => hfloor f hf x ((choose_perm ..).mem_iff.mp hx)
        generalize choose key head tail = chosen at hmem
        obtain ⟨pivot, others⟩ := chosen
        simp only at hmem ⊢
        split
        next hle =>
          have hequal : ∀ x ∈ (split (fun x => key x ≤ key pivot) others).1,
              key x = key pivot := fun x hx => by
            have hx := List.mem_filter.mp ((split_fst_perm ..).mem_iff.mp hx)
            cases floor with
            | none => simp at hle
            | some f =>
              have := hmem f rfl x (List.mem_cons_of_mem _ hx.1)
              simp only [Option.any_some, decide_eq_true_eq] at hx hle
              omega
          have hlarger : ∀ x ∈ splitting key limit none
              (split (fun x => key x ≤ key pivot) others).2, key pivot ≤ key x := fun x hx => by
            have hx := List.mem_filter.mp
              ((split_snd_perm ..).mem_iff.mp ((splitting_perm ..).mem_iff.mp hx))
            have : ¬ key x ≤ key pivot := by simpa using hx.2
            omega
          refine List.pairwise_append.mpr ⟨?_, List.pairwise_cons.mpr ⟨hlarger, ih _ _ (by simp)⟩,
            fun x hx y hy => ?_⟩
          · exact List.pairwise_of_forall_mem_list fun x hx y hy =>
              Nat.le_of_eq ((hequal x hx).trans (hequal y hy).symm)
          · rw [hequal x hx]
            rcases List.mem_cons.mp hy with rfl | hy
            · exact Nat.le_refl _
            · exact hlarger y hy
        next =>
          have hsmaller : ∀ x ∈ (split (fun x => key x < key pivot) others).1,
              x ∈ others ∧ key x < key pivot := fun x hx => by
            simpa using List.mem_filter.mp ((split_fst_perm ..).mem_iff.mp hx)
          have hlarger : ∀ x ∈ (split (fun x => key x < key pivot) others).2,
              key pivot ≤ key x := fun x hx => by
            have hx := List.mem_filter.mp ((split_snd_perm ..).mem_iff.mp hx)
            simpa using hx.2
          refine List.pairwise_append.mpr
            ⟨ih _ _ fun f hf x hx => hmem f hf x (List.mem_cons_of_mem _ (hsmaller x hx).1),
              List.pairwise_cons.mpr
                ⟨fun x hx => hlarger x ((splitting_perm ..).mem_iff.mp hx),
                  ih _ _ fun f hf x hx => by
                    obtain rfl := Option.some.inj hf
                    exact hlarger x hx⟩,
              fun x hx y hy => ?_⟩
          have hx := (hsmaller x ((splitting_perm ..).mem_iff.mp hx)).2
          rcases List.mem_cons.mp hy with rfl | hy
          · omega
          · have := hlarger y ((splitting_perm ..).mem_iff.mp hy)
            omega

/-- Sorting puts the elements in order. -/
theorem sort_pairwise (key : α → Nat) (l : List α) :
    (sort key l).Pairwise (key · ≤ key ·) := by
  unfold sort
  split
  · exact stable_pairwise ..
  · exact splitting_pairwise _ _ _ _ (by simp)

end Delegation.Quicksort
