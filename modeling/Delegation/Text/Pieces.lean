/-!
# Cutting a list at a separator

Address texts, the columns of a statistics line and the lines of a file are all lists cut at
one separating element.  `pieces sep s` are the pieces of `s` between the separators, the
empty ones included, and `joined sep ps` writes pieces back with a separator between
neighbours.

Main results: joining the pieces of `s` gives `s` (`joined_pieces`), no piece holds a
separator (`sep_not_mem_of_mem_pieces`), and both together determine the pieces
(`pieces_joined`).
-/

namespace Delegation.Text

variable {α : Type}

/-- The pieces with one more element at the front of the first of them. -/
def consFirst (a : α) : List (List α) → List (List α)
  | [] => [[a]]
  | p :: ps => (a :: p) :: ps

/-- The pieces of a list between its separators; there is always at least one. -/
def pieces [DecidableEq α] (sep : α) (s : List α) : List (List α) :=
  s.foldr (fun c ps => if c = sep then [] :: ps else consFirst c ps) [[]]

/-- Pieces one after another, with a separator between neighbours. -/
def joined (sep : α) : List (List α) → List α
  | [] => []
  | [p] => p
  | p :: q :: ps => p ++ sep :: joined sep (q :: ps)

theorem consFirst_ne_nil (a : α) (ps : List (List α)) : consFirst a ps ≠ [] := by
  cases ps <;> simp [consFirst]

theorem joined_consFirst (sep a : α) {ps : List (List α)} (h : ps ≠ []) :
    joined sep (consFirst a ps) = a :: joined sep ps := by
  match ps, h with
  | [p], _ => rfl
  | p :: q :: ps, _ => rfl

theorem joined_nil_cons (sep : α) {ps : List (List α)} (h : ps ≠ []) :
    joined sep ([] :: ps) = sep :: joined sep ps := by
  match ps, h with
  | q :: ps, _ => rfl

section Pieces

variable [DecidableEq α] (sep : α)

@[simp] theorem pieces_nil : pieces sep [] = [[]] := rfl

theorem pieces_cons (c : α) (s : List α) :
    pieces sep (c :: s) =
      if c = sep then [] :: pieces sep s else consFirst c (pieces sep s) := rfl

theorem pieces_ne_nil (s : List α) : pieces sep s ≠ [] := by
  cases s with
  | nil => simp
  | cons c s =>
    rw [pieces_cons]
    split
    · simp
    · exact consFirst_ne_nil c _

/-- Nothing is lost by cutting. -/
theorem joined_pieces (s : List α) : joined sep (pieces sep s) = s := by
  induction s with
  | nil => rfl
  | cons c s ih =>
    rw [pieces_cons]
    split
    · next h => rw [joined_nil_cons sep (pieces_ne_nil sep s), ih, h]
    · rw [joined_consFirst sep c (pieces_ne_nil sep s), ih]

/-- A piece holds no separator. -/
theorem sep_not_mem_of_mem_pieces {s p : List α} (h : p ∈ pieces sep s) : sep ∉ p := by
  induction s generalizing p with
  | nil => simp_all
  | cons c s ih =>
    rw [pieces_cons] at h
    split at h
    · rcases List.mem_cons.mp h with rfl | h
      · simp
      · exact ih h
    · next hc =>
      cases hps : pieces sep s with
      | nil => exact absurd hps (pieces_ne_nil sep s)
      | cons q qs =>
        rw [hps] at h ih
        rcases List.mem_cons.mp h with rfl | h
        · simpa [Ne.symm hc] using ih List.mem_cons_self
        · exact ih (List.mem_cons_of_mem q h)

/-- A separator-free text is one piece. -/
theorem pieces_of_not_mem {s : List α} (h : sep ∉ s) : pieces sep s = [s] := by
  induction s with
  | nil => rfl
  | cons c s ih =>
    have hc : c ≠ sep := fun e => h (e ▸ List.mem_cons_self)
    rw [pieces_cons, if_neg hc, ih (fun hm => h (List.mem_cons_of_mem c hm))]
    rfl

/-- A separator-free text before a separator is the first piece. -/
theorem pieces_append_sep {p : List α} (h : sep ∉ p) (s : List α) :
    pieces sep (p ++ sep :: s) = p :: pieces sep s := by
  induction p with
  | nil => simp [pieces_cons]
  | cons c p ih =>
    have hc : c ≠ sep := fun e => h (e ▸ List.mem_cons_self)
    rw [List.cons_append, pieces_cons, if_neg hc,
      ih (fun hm => h (List.mem_cons_of_mem c hm))]
    rfl

/-- Cutting takes joined pieces apart again. -/
theorem pieces_joined {ps : List (List α)} (hne : ps ≠ []) (h : ∀ p ∈ ps, sep ∉ p) :
    pieces sep (joined sep ps) = ps := by
  induction ps with
  | nil => exact absurd rfl hne
  | cons p ps ih =>
    cases ps with
    | nil => exact pieces_of_not_mem sep (h p List.mem_cons_self)
    | cons q ps =>
      rw [joined, pieces_append_sep sep (h p List.mem_cons_self),
        ih (by simp) (fun r hr => h r (List.mem_cons_of_mem p hr))]

end Pieces

end Delegation.Text
