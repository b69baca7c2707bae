import Delegation.Proofs.Address.Grammar

/-!
# The characters of address texts

A text that is read as an address of either family is made of hexadecimal digits, points and
colons only (`isAddressChar_of_parse`), and so is a short text that is written
(`isAddressChar_of_mem_shortText`).  So it can stand between separators of other kinds without being
taken for several texts.
-/

namespace Delegation.Address

open Delegation.Text Delegation.Sequence

/-- A hexadecimal digit, a point or a colon. -/
def isAddressChar (c : Char) : Bool := (hexDigit? c).isSome || c = '.' || c = ':'

variable {base n address : Nat} {text : List Char} {c : Char}

lemma isAddressChar_of_isNumeral (h : IsNumeral base text n) (hc : c ∈ text) :
    isAddressChar c = true := by
  cases hdigit : hexDigit? c with
  | none => exact absurd hc (h.not_mem hdigit)
  | some d => simp [isAddressChar, hdigit]

lemma isAddressChar_of_readDecimal? (h : readDecimal? text = some n) (hc : c ∈ text) :
    isAddressChar c = true :=
  isAddressChar_of_isNumeral (readDecimal?_eq_some_iff.mp h) hc

/-- Numerals joined by address characters have no other characters. -/
lemma isAddressChar_of_mem_joined {parts : List (List Char)} {ds : List Nat} {sep : Char}
    (hparts : List.Forall₂ (IsNumeral base) parts ds) (hsep : isAddressChar sep = true)
    (hc : c ∈ joined sep parts) : isAddressChar c = true := by
  rcases eq_or_mem_of_mem_joined hc with rfl | ⟨p, hp, hc⟩
  · exact hsep
  · exact forall_of_forall₂ (p := fun p => ∀ c ∈ p, isAddressChar c = true) hparts
      (fun _ _ hnumeral _ => isAddressChar_of_isNumeral hnumeral) p hp c hc

lemma Dotted.Denotes.isAddressChar (h : Dotted.Denotes text address) (hc : c ∈ text) :
    isAddressChar c = true := by
  obtain ⟨hparts, -⟩ := h
  exact isAddressChar_of_mem_joined (hparts.imp fun _ _ => IsOctet.numeral) rfl hc

namespace Hextets

lemma DenotesHextets.isAddressChar {hextets : List Nat} (h : DenotesHextets text hextets)
    (hc : c ∈ text) : isAddressChar c = true := by
  obtain ⟨parts, hparts, rfl⟩ := h
  exact isAddressChar_of_mem_joined (hparts.imp fun _ _ => IsHextet.numeral) rfl hc

lemma Denotes.isAddressChar (h : Denotes text address) (hc : c ∈ text) :
    isAddressChar c = true := by
  cases h with
  | plain htext => exact htext.isAddressChar hc
  | gap hbefore hafter =>
    rw [List.mem_append, List.mem_cons, List.mem_cons] at hc
    rcases hc with hc | rfl | rfl | hc
    · exact hbefore.isAddressChar hc
    · rfl
    · rfl
    · exact hafter.isAddressChar hc

end Hextets

/-! ## Texts that are read -/

/-- The text of an address of either family has no other characters. -/
theorem isAddressChar_of_parse {f : Family} {text : List Char} {address : Nat}
    (h : f.parse (String.ofList text) = .ok address) {c : Char} (hc : c ∈ text) :
    isAddressChar c = true := by
  rw [Family.parse_eq_ok_iff, String.toList_ofList] at h
  cases f with
  | ipv4 => exact Dotted.Denotes.isAddressChar h hc
  | ipv6 => exact Hextets.Denotes.isAddressChar h hc

/-! ## Texts that are written -/

lemma isAddressChar_of_mem_joined_toDigits {ns : List Nat} {sep : Char}
    (hc : c ∈ joined sep (ns.map (Nat.toDigits base))) (hbase : 1 < base) (hle : base ≤ 16)
    (hsep : isAddressChar sep = true) : isAddressChar c = true := by
  have hnumerals : List.Forall₂ (IsNumeral base) (ns.map (Nat.toDigits base)) ns := by
    rw [List.forall₂_map_left_iff, List.forall₂_same]
    exact fun n _ => isNumeral_toDigits hbase hle n
  exact isAddressChar_of_mem_joined hnumerals hsep hc

lemma isAddressChar_of_mem_dotted (hc : c ∈ Dotted.write address) : isAddressChar c = true :=
  isAddressChar_of_mem_joined_toDigits hc (by decide) (by decide) rfl

lemma isAddressChar_of_mem_writeShort (hc : c ∈ Hextets.writeShort address) :
    isAddressChar c = true := by
  have hmappedTo : "::ffff:".toList.all isAddressChar = true := rfl
  have hhextets : ∀ {hextets}, c ∈ Hextets.writeHextets hextets → isAddressChar c = true :=
    fun h => isAddressChar_of_mem_joined_toDigits h (by decide) (by decide) rfl
  rw [Hextets.writeShort] at hc
  dsimp only at hc
  split_ifs at hc with hmapped hgap
  · rcases List.mem_append.mp hc with hc | hc
    · exact List.all_eq_true.mp hmappedTo c hc
    · exact isAddressChar_of_mem_dotted hc
  · simp only [List.mem_append, List.mem_cons, List.not_mem_nil, or_false] at hc
    rcases hc with (hc | rfl | rfl) | hc
    · exact hhextets hc
    · rfl
    · rfl
    · exact hhextets hc
  · exact hhextets hc

/-- The short text of an address has no other characters. -/
theorem isAddressChar_of_mem_shortText {f : Family} (hc : c ∈ (f.shortText address).toList) :
    isAddressChar c = true := by
  rw [Family.shortText.eq_def, String.toList_ofList] at hc
  cases f with
  | ipv4 => exact isAddressChar_of_mem_dotted hc
  | ipv6 => exact isAddressChar_of_mem_writeShort hc

end Delegation.Address
