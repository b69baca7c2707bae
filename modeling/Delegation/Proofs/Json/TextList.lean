import Delegation.Json.TextList
import Delegation.Proofs.Json.Pretty

/-!
# Reading written lists of texts back

What is written for a list of texts has a token for each bracket, comma and text, and nothing for
the blanks between them.  So the reader finds the texts again, each as it was before it was written.

Main result: `readTexts_pretty`.
-/

namespace Delegation.Json

variable {line last depth level : Nat} {s : List Char}

/-! ## Tokens -/

lemma tokens_blanks (k : Nat) : tokens line (List.replicate k ' ' ++ s) = tokens line s := by
  induction k with
  | zero => rfl
  | succ k ih =>
    rw [List.replicate_succ, List.cons_append, tokens, if_pos (.inl rfl)]
    exact ih

lemma tokens_newline : tokens line (newline depth ++ s) = tokens (line + 1) s := by
  rw [newline, List.cons_append, tokens, if_neg (by decide), if_pos rfl]
  exact tokens_blanks (2 * depth)

lemma tokens_comma : tokens line (',' :: s) = tokens.follow ⟨line, .comma⟩ (tokens line s) := by
  rw [tokens]
  rfl

lemma tokens_openList :
    tokens line ('[' :: s) = tokens.follow ⟨line, .openList⟩ (tokens line s) := by
  rw [tokens]
  rfl

lemma tokens_closeList : tokens line [']'] = ([⟨line, .closeList⟩], line) := by
  rw [tokens, tokens]
  rfl

/-- A quoted text is one token. -/
lemma tokens_quoted (text : List Char) :
    tokens line (quoted text ++ s) = tokens.follow ⟨line, .text text⟩ (tokens line s) := by
  obtain ⟨taken, htaken, htext, hrest⟩ := takesText_escaped line text s
  have hquoted : quoted text ++ s = '"' :: (text.flatMap escape ++ '"' :: s) := by simp [quoted]
  rw [hquoted, tokens]
  simp only [htaken, htext, hrest]
  rfl

/-! ## Lists -/

/-- Behind a text the reader finds the other texts of the list, up to its end. -/
lemma readMore_parts (texts : List String) :
    readMore last (tokens line (parts depth (prettyChars depth) (texts.map .text) ++
      (newline level ++ [']']))).1 = .ok (texts, []) := by
  induction texts generalizing line with
  | nil =>
    rw [List.map_nil, parts, List.flatMap_nil, List.nil_append, tokens_newline, tokens_closeList]
    rfl
  | cons text texts ih =>
    rw [List.map_cons, parts_cons_append, List.cons_append, tokens_comma, tokens_newline,
      show prettyChars depth (.text text) = quoted text.toList from rfl, tokens_quoted]
    simp only [tokens.follow, readMore, readNext, ih, String.ofList_toList]
    rfl

/-- A written list of texts is read as that list. -/
theorem readTexts_pretty (depth : Nat) (texts : List String) :
    readTexts (String.ofList (prettyChars depth (.array (texts.map .text)))) = .ok texts := by
  rw [readTexts, String.toList_ofList]
  cases texts with
  | nil =>
    rw [show prettyChars depth (.array (List.map .text [])) = '[' :: [']'] from rfl,
      tokens_openList, tokens_closeList]
    rfl
  | cons text texts =>
    have htext : prettyChars depth (.array ((text :: texts).map .text)) =
        '[' :: (newline (depth + 1) ++ (quoted text.toList ++
          (parts (depth + 1) (prettyChars (depth + 1)) (texts.map .text) ++
            (newline depth ++ [']'])))) := by
      rw [List.map_cons]
      simp only [prettyChars, prettyItems_eq, List.cons_append, List.append_assoc]
      rfl
    rw [htext, tokens_openList, tokens_newline, tokens_quoted]
    simp only [tokens.follow, readFirst, readMore_parts, String.ofList_toList]
    rfl

end Delegation.Json
