import Delegation.Text.Pieces
import Mathlib.Tactic.Lemma

/-!
# Pieces of longer lists

How cutting a list at a separator, and joining pieces with one, go together with appending
lists: the pieces of a list are those before a separator and those behind it
(`pieces_append`).  Pieces and separators are all that a list is made of
(`eq_or_mem_of_mem_joined`).
-/

namespace Delegation.Text

variable {α : Type} {sep : α}

lemma joined_append {ps qs : List (List α)} (hps : ps ≠ []) (hqs : qs ≠ []) :
    joined sep (ps ++ qs) = joined sep ps ++ sep :: joined sep qs := by
  induction ps with
  | nil => exact absurd rfl hps
  | cons p ps ih =>
    cases ps with
    | nil =>
      obtain ⟨q, qs, rfl⟩ := List.exists_cons_of_ne_nil hqs
      rfl
    | cons p' ps =>
      rw [List.cons_append, List.cons_append, joined, ← List.cons_append,
        ih (List.cons_ne_nil _ _), joined, List.append_assoc, List.cons_append]

lemma intercalate_eq_joined (sep : α) (ps : List (List α)) :
    [sep].intercalate ps = joined sep ps := by
  induction ps with
  | nil => rfl
  | cons p ps ih =>
    cases ps with
    | nil => simp [joined]
    | cons q ps =>
      rw [List.intercalate_cons_cons, ih, joined, List.append_assoc, List.singleton_append]

lemma eq_or_mem_of_mem_joined {a : α} {ps : List (List α)} (h : a ∈ joined sep ps) :
    a = sep ∨ ∃ p ∈ ps, a ∈ p := by
  induction ps with
  | nil => cases h
  | cons p ps ih =>
    cases ps with
    | nil => exact .inr ⟨p, List.mem_singleton_self p, h⟩
    | cons q ps =>
      rcases List.mem_append.mp h with h | h
      · exact .inr ⟨p, List.mem_cons_self, h⟩
      · rcases List.mem_cons.mp h with h | h
        · exact .inl h
        · obtain rfl | ⟨r, hr, ha⟩ := ih h
          · exact .inl rfl
          · exact .inr ⟨r, List.mem_cons_of_mem p hr, ha⟩

/-- There is a separator between any two pieces. -/
lemma sep_mem_joined {ps : List (List α)} (h : 2 ≤ ps.length) : sep ∈ joined sep ps := by
  match ps, h with
  | p :: q :: ps, _ => exact List.mem_append_right p List.mem_cons_self

section Pieces

variable [DecidableEq α]

/-- The pieces before a separator and those behind it are all pieces. -/
theorem pieces_append (s t : List α) :
    pieces sep (s ++ sep :: t) = pieces sep s ++ pieces sep t := by
  have hs := pieces_ne_nil sep s
  have ht := pieces_ne_nil sep t
  have hjoined : s ++ sep :: t = joined sep (pieces sep s ++ pieces sep t) := by
    rw [joined_append hs ht, joined_pieces, joined_pieces]
  rw [hjoined]
  refine pieces_joined sep (List.append_ne_nil_of_left_ne_nil hs _) fun p hp => ?_
  rcases List.mem_append.mp hp with hp | hp
  · exact sep_not_mem_of_mem_pieces sep hp
  · exact sep_not_mem_of_mem_pieces sep hp

/-- Lines that end with a separator each are told apart, and nothing is behind the last one. -/
lemma pieces_flatMap_concat {ps : List (List α)} (h : ∀ p ∈ ps, sep ∉ p) :
    pieces sep (ps.flatMap (· ++ [sep])) = ps ++ [[]] := by
  induction ps with
  | nil => rfl
  | cons p ps ih =>
    rw [List.forall_mem_cons] at h
    rw [List.flatMap_cons, List.append_assoc, List.singleton_append, pieces_append_sep sep h.1,
      ih h.2, List.cons_append]

/-- Putting one piece for another leaves the other pieces as they are. -/
lemma pieces_joined_of_replaced {s p q : List α} {before after : List (List α)}
    (hs : pieces sep s = before ++ p :: after) (hq : sep ∉ q) :
    pieces sep (joined sep (before ++ q :: after)) = before ++ q :: after := by
  have hfree : ∀ r ∈ before ++ p :: after, sep ∉ r := by
    rw [← hs]
    exact fun r hr => sep_not_mem_of_mem_pieces sep hr
  refine pieces_joined sep (by simp) ?_
  rw [List.forall_mem_append, List.forall_mem_cons] at hfree ⊢
  exact ⟨hfree.1, hq, hfree.2.2⟩

lemma eq_or_mem_pieces (sep : α) {a : α} {s : List α} (h : a ∈ s) :
    a = sep ∨ ∃ p ∈ pieces sep s, a ∈ p :=
  eq_or_mem_of_mem_joined (by rwa [joined_pieces])

end Pieces

end Delegation.Text
