import Delegation.Json.Token
import Delegation.Json.Value
import Delegation.Proofs.Text.Numeral

/-!
# Reading quoted texts back

A quoted text is read back character by character: what is written for a character, with a backslash
or without, is read as that character, and only the closing quote ends the text.

Main result: `takesText_escaped`.
-/

namespace Delegation.Json

open Delegation.Text Sequence

variable {line : Nat} {c e : Char} {input rest text : List Char}

/-- Behind a backslash the input starts with what stands for a character. -/
def TakesEscape (line : Nat) (input : List Char) (c : Char) (rest : List Char) : Prop :=
  ∃ taken : Taken input, takeEscape line input = .ok taken ∧ taken.char = c ∧ taken.rest = rest

/-- Behind a quote the input starts with what stands for a text, up to the closing quote. -/
def TakesText (line : Nat) (input text rest : List Char) : Prop :=
  ∃ taken : TakenText input, takeText line input = .ok taken ∧ taken.text = text ∧
    taken.rest = rest

/-! ## Escapes -/

lemma exists_controlDigits_eq (hc : c.toNat < 0x20) :
    ∃ d₁ d₂ d₃ d₄, controlDigits c = [d₁, d₂, d₃, d₄] ∧ fourDigits? d₁ d₂ d₃ d₄ = some c.toNat := by
  have hnumeral : IsNumeral 16 (controlDigits c) c.toNat :=
    (isNumeral_toDigits (by decide) (by decide) c.toNat).leftpad (by decide) 4
  have hshort : (Nat.toDigits 16 c.toNat).length ≤ 4 :=
    (Nat.length_toDigits_le_iff (by decide) (by decide)).mpr (by omega)
  have hlength : (controlDigits c).length = 4 := by
    rw [controlDigits, List.leftpad, List.length_append, List.length_replicate]
    omega
  match hdigits : controlDigits c, hlength with
  | [d₁, d₂, d₃, d₄], _ =>
    rw [hdigits] at hnumeral
    exact ⟨d₁, d₂, d₃, d₄, rfl, (readHex?_eq_some_iff (List.cons_ne_nil _ _)).mpr hnumeral⟩

lemma takesEscape_simple (h : simpleEscape? e = some c) (rest : List Char) :
    TakesEscape line (e :: rest) c rest := by
  have hu : e ≠ 'u' := by
    rintro rfl
    cases h
  refine ⟨⟨c, rest, by simp⟩, ?_, rfl, rfl⟩
  simp only [takeEscape, if_neg hu, h]

lemma takesEscape_control (hc : c.toNat < 0x20) (rest : List Char) :
    TakesEscape line ('u' :: controlDigits c ++ rest) c rest := by
  obtain ⟨d₁, d₂, d₃, d₄, hdigits, hread⟩ := exists_controlDigits_eq hc
  rw [hdigits]
  -- a control character is no surrogate
  have hlow : ¬ (0xdc00 ≤ c.toNat ∧ c.toNat ≤ 0xdfff) := by omega
  have hhigh : ¬ (0xd800 ≤ c.toNat ∧ c.toNat ≤ 0xdbff) := by omega
  refine ⟨⟨c, rest, by simp; omega⟩, ?_, rfl, rfl⟩
  simp only [List.cons_append, List.nil_append, takeEscape, takeCodePoint, hread, if_neg hlow,
    if_neg hhigh, Char.ofNat_toNat, if_true]

/-! ## Texts -/

lemma takesText_nil : TakesText line ('"' :: rest) [] rest := by
  refine ⟨⟨[], rest, by simp⟩, ?_, rfl, rfl⟩
  rw [takeText, if_pos rfl]

lemma takesText_backslash {behind : List Char} (he : TakesEscape line input c behind)
    (h : TakesText line behind text rest) : TakesText line ('\\' :: input) (c :: text) rest := by
  obtain ⟨taken, htaken, rfl, rfl⟩ := he
  obtain ⟨x, hx, rfl, rfl⟩ := h
  refine ⟨x.cons taken.char ?_, ?_, rfl, rfl⟩
  · have := taken.shorter
    simp only [List.length_cons]
    omega
  · rw [takeText, if_neg (by decide), if_pos rfl]
    simp only [htaken, hx]
    rfl

lemma takesText_plain (hquote : c ≠ '"') (hbackslash : c ≠ '\\') (hc : ¬ c.toNat < 0x20)
    (h : TakesText line input text rest) : TakesText line (c :: input) (c :: text) rest := by
  obtain ⟨x, hx, rfl, rfl⟩ := h
  refine ⟨x.cons c (by simp), ?_, rfl, rfl⟩
  rw [takeText, if_neg hquote, if_neg hbackslash, if_neg hc, hx]
  rfl

/-- What is written for a character is read as that character. -/
lemma takesText_escape (c : Char) (h : TakesText line input text rest) :
    TakesText line (escape c ++ input) (c :: text) rest := by
  rw [escape.eq_def]
  split
  iterate 7 exact takesText_backslash (takesEscape_simple rfl _) h
  · next hquote hbackslash _ _ _ _ _ =>
    split_ifs with hc
    · exact takesText_backslash (takesEscape_control hc _) h
    · exact takesText_plain hquote hbackslash hc h

/-- A quoted text is read back, up to its closing quote. -/
theorem takesText_escaped (line : Nat) (text rest : List Char) :
    TakesText line (text.flatMap escape ++ '"' :: rest) text rest := by
  induction text with
  | nil => exact takesText_nil
  | cons c text ih =>
    rw [List.flatMap_cons, List.append_assoc]
    exact takesText_escape c ih

end Delegation.Json
