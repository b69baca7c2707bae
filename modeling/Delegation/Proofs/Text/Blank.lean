import Delegation.Text.Blank
import Mathlib.Data.List.DropRight
import Mathlib.Tactic.Lemma

/-!
# Blanks around a text

Trimming takes the blanks at the front of a text and those at its end.  So blanks that are put
around a text are taken away again (`trim_padded`), and behind a character that is not blank only
the end of a text is cut off (`trim_append_cons`).
-/

namespace Delegation.Text

variable {s t front back : List Char} {c : Char}

/-- The visible characters of ASCII are no blanks. -/
lemma not_isBlank_of_visible (hc : 0x20 < c.toNat) (hc' : c.toNat < 0x7F) : isBlank c = false := by
  simp only [isBlank, Bool.or_eq_false_iff, Bool.and_eq_false_iff, decide_eq_false_iff_not,
    beq_eq_false_iff_ne]
  omega

/-- The text without the blanks at its end. -/
def trimEnd (s : List Char) : List Char := s.rdropWhile isBlank

lemma trim_eq_trimEnd (s : List Char) : trim s = trimEnd (s.dropWhile isBlank) := rfl

lemma trimEnd_append (hback : ∀ c ∈ back, isBlank c = true) : trimEnd (s ++ back) = trimEnd s := by
  induction back using List.reverseRecOn with
  | nil => rw [List.append_nil]
  | append_singleton back c ih =>
    rw [List.forall_mem_append] at hback
    rw [← List.append_assoc, trimEnd, List.rdropWhile_concat_pos _ _ _ (hback.2 c (by simp))]
    exact ih hback.1

/-- Nothing in front of a character that is not blank is cut off at the end. -/
lemma trimEnd_append_cons (hc : isBlank c = false) (s t : List Char) :
    trimEnd (s ++ c :: t) = s ++ c :: trimEnd t := by
  induction t using List.reverseRecOn with
  | nil => exact List.rdropWhile_concat_neg _ _ _ (by simp [hc])
  | append_singleton t d ih =>
    have hassoc : s ++ c :: (t ++ [d]) = (s ++ c :: t) ++ [d] := by simp
    by_cases hd : isBlank d = true
    · rw [hassoc, trimEnd, trimEnd, List.rdropWhile_concat_pos _ _ _ hd,
        List.rdropWhile_concat_pos _ _ _ hd]
      exact ih
    · rw [trimEnd, trimEnd, hassoc, List.rdropWhile_concat_neg _ _ _ hd,
        List.rdropWhile_concat_neg _ _ _ hd, hassoc]

/-- Blanks around a text are trimmed away. -/
theorem trim_padded (hfront : ∀ c ∈ front, isBlank c = true) (hback : ∀ c ∈ back, isBlank c = true)
    (s : List Char) : trim (front ++ s ++ back) = trim s := by
  rw [trim_eq_trimEnd, trim_eq_trimEnd, List.append_assoc, List.dropWhile_append_of_pos hfront,
    List.dropWhile_append]
  split
  · next hs =>
    -- nothing but blanks
    rw [List.isEmpty_iff.mp hs, List.dropWhile_eq_nil_iff.mpr hback]
  · exact trimEnd_append hback

/-- Behind a character that is not blank only the end is cut off, if no blank is in front. -/
theorem trim_append_cons (hfirst : ∀ a ∈ s.head?, isBlank a = false) (hc : isBlank c = false)
    (t : List Char) : trim (s ++ c :: t) = s ++ c :: trimEnd t := by
  have hdrop : (s ++ c :: t).dropWhile isBlank = s ++ c :: t := by
    cases s with
    | nil => exact List.dropWhile_cons_of_neg (by simp [hc])
    | cons a s => exact List.dropWhile_cons_of_neg (by simp [hfirst a rfl])
  rw [trim_eq_trimEnd, hdrop, trimEnd_append_cons hc]

end Delegation.Text
