import Delegation.Proofs.Address.Grammar

/-!
# How IPv6 addresses are spelled

A spelling of an IPv6 address is eight hextets with single colons between them, or at most seven
with one gap `::`, which stands for those that are missing and may have hextets on either side, on
both or on none (`Hextets.Spelling`).  The digits of a hextet and what they stand for are listed
here once more, without any reader.

Main result: the texts of spellings are all that is read as an IPv6 address, each as the number
whose hextets it spells; any other text is refused as malformed
(`Family.parse_ipv6_accepts_spellings`).  Texts with a colon too many at an end, with three colons in
a row, with two gaps, with more than four digits in a row or with any other character are among
those refused (`Hextets.Misshapen`).
-/

namespace Delegation

open Delegation.Text Delegation.Address Delegation.Sequence

/-! ## Digits -/

namespace Text

/-- The hexadecimal digits in order, and those of upper case behind. -/
def hexDigits : List Char := "0123456789abcdefABCDEF".toList

/-- What a hexadecimal digit of either case stands for. -/
def hexValue (c : Char) : Nat := hexDigits.idxOf c.toLower

variable {c : Char} {d : Nat}

lemma hexDigit?_eq_ite : hexDigit? c = if c ∈ hexDigits then some (hexValue c) else none := by
  have htable : ∀ n < 128, hexDigit? (Char.ofNat n) =
      if Char.ofNat n ∈ hexDigits then some (hexValue (Char.ofNat n)) else none := by decide +kernel
  rcases Nat.lt_or_ge c.toNat 128 with hc | hc
  · simpa using htable c.toNat hc
  · -- no digit is as far behind
    have hmem : c ∉ hexDigits := by
      intro hmem
      have hall : hexDigits.all (·.toNat < 128) = true := rfl
      have hlt := of_decide_eq_true (List.all_eq_true.mp hall c hmem)
      omega
    rw [if_neg hmem, hexDigit?]
    simp only [Char.le_def, UInt32.le_iff_toNat_le, Char.toNat_val, Char.reduceToNat]
    rw [if_neg (by omega), if_neg (by omega), if_neg (by omega)]

lemma isDigit_sixteen_iff_mem : IsDigit 16 c d ↔ c ∈ hexDigits ∧ hexValue c = d := by
  rw [isDigit_sixteen_iff, hexDigit?_eq_ite]
  split_ifs with h <;> simp [h]

lemma forall₂_isDigit_sixteen_iff {s : List Char} {ds : List Nat} :
    List.Forall₂ (IsDigit 16) s ds ↔ (∀ c ∈ s, c ∈ hexDigits) ∧ s.map hexValue = ds :=
  forall₂_iff_map_eq (R := IsDigit 16) isDigit_sixteen_iff_mem

end Text

namespace Address

/-- The groups of a number are its digits, the last one first. -/
lemma ofGroups_eq_ofDigits (base : Nat) (ds : List Nat) :
    ofGroups base ds = Nat.ofDigits base ds.reverse := by
  rw [Nat.ofDigits_eq_foldr, List.foldr_reverse, ofGroups]
  simp only [Nat.cast_id, Nat.add_comm]

namespace Hextets

/-! ## Hextets -/

/-- One to four hexadecimal digits, of either case. -/
structure Hextet where
  digits : List Char
  ne_nil : digits ≠ []
  length_le : digits.length ≤ 4
  mem_hexDigits : ∀ c ∈ digits, c ∈ hexDigits

/-- The number with the digits of the hextet. -/
def Hextet.value (h : Hextet) : Nat := Nat.ofDigits 16 (h.digits.map hexValue).reverse

lemma isHextet_iff {part : List Char} {n : Nat} :
    IsHextet part n ↔ ∃ h : Hextet, h.digits = part ∧ h.value = n := by
  constructor
  · rintro ⟨⟨hne, ds, hds, rfl⟩, hlength⟩
    obtain ⟨hmem, rfl⟩ := forall₂_isDigit_sixteen_iff.mp hds
    exact ⟨⟨part, hne, hlength, hmem⟩, rfl, (ofGroups_eq_ofDigits 16 _).symm⟩
  · rintro ⟨h, rfl, rfl⟩
    have hds := forall₂_isDigit_sixteen_iff.mpr ⟨h.mem_hexDigits, rfl⟩
    exact ⟨⟨h.ne_nil, _, hds, ofGroups_eq_ofDigits 16 _⟩, h.length_le⟩

/-- The text of hextets with single colons between them. -/
def row (hs : List Hextet) : List Char := joined ':' (hs.map Hextet.digits)

lemma forall₂_isHextet_iff {parts : List (List Char)} {ns : List Nat} :
    List.Forall₂ IsHextet parts ns ↔
      ∃ hs : List Hextet, hs.map Hextet.digits = parts ∧ hs.map Hextet.value = ns := by
  constructor
  · intro h
    induction h with
    | nil => exact ⟨[], rfl, rfl⟩
    | cons hpart _ ih =>
      obtain ⟨h, rfl, rfl⟩ := isHextet_iff.mp hpart
      obtain ⟨hs, rfl, rfl⟩ := ih
      exact ⟨h :: hs, rfl, rfl⟩
  · rintro ⟨hs, rfl, rfl⟩
    rw [List.forall₂_map_left_iff, List.forall₂_map_right_iff, List.forall₂_same]
    exact fun h _ => isHextet_iff.mpr ⟨h, rfl, rfl⟩

lemma denotesHextets_iff {text : List Char} {ns : List Nat} :
    DenotesHextets text ns ↔ ∃ hs : List Hextet, row hs = text ∧ hs.map Hextet.value = ns := by
  simp only [DenotesHextets, forall₂_isHextet_iff]
  constructor
  · rintro ⟨_, ⟨hs, rfl, rfl⟩, rfl⟩
    exact ⟨hs, rfl, rfl⟩
  · rintro ⟨hs, rfl, rfl⟩
    exact ⟨_, ⟨hs, rfl, rfl⟩, rfl⟩

/-! ## Spellings -/

/-- A way to spell an address: all of its hextets, or those on both sides of a gap. -/
inductive Spelling where
  | full (hs : List Hextet) (hlength : hs.length = 8)
  | gapped (head tail : List Hextet) (hlength : head.length + tail.length ≤ 7)

namespace Spelling

/-- The text of a spelling. -/
def text : Spelling → List Char
  | full hs _ => row hs
  | gapped head tail _ => row head ++ ':' :: ':' :: row tail

/-- The hextets that are spelled; those in a gap are zero. -/
def hextets : Spelling → List Nat
  | full hs _ => hs.map Hextet.value
  | gapped head tail _ =>
    head.map Hextet.value ++ List.replicate (8 - (head.length + tail.length)) 0 ++
      tail.map Hextet.value

/-- The number whose sixteen-bit digits are the hextets, the first of them the highest. -/
def address (s : Spelling) : Nat := Nat.ofDigits 65536 s.hextets.reverse

lemma length_hextets (s : Spelling) : s.hextets.length = 8 := by
  cases s with
  | full hs hlength => simpa [hextets] using hlength
  | gapped head tail hlength =>
    simp only [hextets, List.length_append, List.length_map, List.length_replicate]
    omega

end Spelling

theorem denotes_iff {text : List Char} {address : Nat} :
    Denotes text address ↔ ∃ s : Spelling, s.text = text ∧ s.address = address := by
  constructor
  · intro h
    cases h with
    | plain htext hlength =>
      obtain ⟨hs, rfl, rfl⟩ := denotesHextets_iff.mp htext
      rw [List.length_map] at hlength
      exact ⟨.full hs hlength, rfl, (ofGroups_eq_ofDigits 65536 _).symm⟩
    | @gap _ _ _ _ n hbefore hafter hn hlength =>
      obtain ⟨head, rfl, rfl⟩ := denotesHextets_iff.mp hbefore
      obtain ⟨tail, rfl, rfl⟩ := denotesHextets_iff.mp hafter
      rw [List.length_map, List.length_map] at hlength
      obtain rfl : n = 8 - (head.length + tail.length) := by omega
      exact ⟨.gapped head tail (by omega), rfl, (ofGroups_eq_ofDigits 65536 _).symm⟩
  · rintro ⟨s, rfl, rfl⟩
    rw [Spelling.address, ← ofGroups_eq_ofDigits]
    cases s with
    | full hs hlength =>
      have hrow := denotesHextets_iff.mpr ⟨hs, rfl, rfl⟩
      exact .plain hrow (Spelling.full hs hlength).length_hextets
    | gapped head tail hlength =>
      have hhead := denotesHextets_iff.mpr ⟨head, rfl, rfl⟩
      have htail := denotesHextets_iff.mpr ⟨tail, rfl, rfl⟩
      exact .gap hhead htail (by omega) (by rw [List.length_map, List.length_map]; omega)

/-! ## Texts without a spelling -/

/-- Texts with a colon too many, with too many digits in a row or with a character that is neither
a colon nor a digit. -/
inductive Misshapen : List Char → Prop where
  | leadingColon {rest : List Char} (hrest : rest.head? ≠ some ':') : Misshapen (':' :: rest)
  | trailingColon {front : List Char} (hfront : front.getLast? ≠ some ':') :
      Misshapen (front ++ [':'])
  | threeColons (before after : List Char) : Misshapen (before ++ ':' :: ':' :: ':' :: after)
  | twoGaps (before between after : List Char) :
      Misshapen (before ++ ':' :: ':' :: (between ++ ':' :: ':' :: after))
  | longGroup {text group : List Char} (hgroup : group ∈ pieces ':' text)
      (hlength : 4 < group.length) : Misshapen text
  | otherCharacter {text : List Char} {c : Char} (hmem : c ∈ text) (hcolon : c ≠ ':')
      (hdigit : c ∉ hexDigits) : Misshapen text

variable {hs : List Hextet} {before after : List Char} {c : Char}

/-! ### Hextets in a row -/

lemma Hextet.colon_not_mem (h : Hextet) : ':' ∉ h.digits := by
  intro hmem
  have hdigit : ':' ∉ hexDigits := by decide +kernel
  exact hdigit (h.mem_hexDigits _ hmem)

/-- The hextets of a row are what is between its colons; there is nothing in an empty row. -/
lemma pieces_row (hne : hs ≠ []) : pieces ':' (row hs) = hs.map Hextet.digits := by
  refine pieces_joined ':' (by simpa using hne) fun p hp => ?_
  obtain ⟨h, -, rfl⟩ := List.mem_map.mp hp
  exact h.colon_not_mem

/-- There is something between any two colons of a row, and at both of its ends. -/
lemma nil_not_mem_pieces_row (hs : List Hextet) (h : row hs ≠ []) : [] ∉ pieces ':' (row hs) := by
  have hne : hs ≠ [] := by
    rintro rfl
    exact h rfl
  rw [pieces_row hne, List.mem_map]
  rintro ⟨h, -, hnil⟩
  exact h.ne_nil hnil

lemma row_ne_append_colon_cons_colon : row hs ≠ before ++ ':' :: ':' :: after := by
  intro h
  refine nil_not_mem_pieces_row hs (by simp [h]) ?_
  simp [h, pieces_append, pieces_cons]

lemma row_ne_colon_cons : row hs ≠ ':' :: after := by
  intro h
  refine nil_not_mem_pieces_row hs (by simp [h]) ?_
  simp [h, pieces_cons]

lemma row_ne_concat_colon : row hs ≠ before ++ [':'] := by
  intro h
  refine nil_not_mem_pieces_row hs (by simp [h]) ?_
  simp [h, pieces_append]

lemma mem_pieces_row {p : List Char} (hp : p ∈ pieces ':' (row hs)) :
    p = [] ∨ ∃ h : Hextet, h.digits = p := by
  rcases eq_or_ne hs [] with rfl | hne
  · exact .inl (List.mem_singleton.mp hp)
  · rw [pieces_row hne] at hp
    obtain ⟨h, -, heq⟩ := List.mem_map.mp hp
    exact .inr ⟨h, heq⟩

/-! ### Whole texts -/

/-- Between rows there is no other gap than the one that separates them. -/
lemma eq_row_of_gap {head tail : List Hextet}
    (h : row head ++ ':' :: ':' :: row tail = before ++ ':' :: ':' :: after) :
    row head = before ∧ row tail = after := by
  rcases List.append_eq_append_iff.mp h with ⟨between, hbefore, hafter⟩ | ⟨between, hhead, hafter⟩
  · -- the other gap starts in the one between the rows, or behind it
    match between with
    | [] => exact ⟨by simpa using hbefore.symm, by simpa using hafter⟩
    | [_] =>
      obtain ⟨-, hafter⟩ := List.cons.inj hafter
      obtain ⟨-, htail⟩ := List.cons.inj hafter
      exact absurd htail row_ne_colon_cons
    | _ :: _ :: _ =>
      obtain ⟨-, hafter⟩ := List.cons.inj hafter
      obtain ⟨-, htail⟩ := List.cons.inj hafter
      exact absurd htail row_ne_append_colon_cons_colon
  · -- the other gap starts there, or in front of it
    match between with
    | [] => exact ⟨by simpa using hhead, by simpa using hafter.symm⟩
    | [_] =>
      obtain ⟨rfl, -⟩ := List.cons.inj hafter
      exact absurd hhead row_ne_concat_colon
    | _ :: _ :: _ =>
      obtain ⟨rfl, hrest⟩ := List.cons.inj hafter
      obtain ⟨rfl, -⟩ := List.cons.inj hrest
      exact absurd hhead row_ne_append_colon_cons_colon

namespace Spelling

/-- What stands between colons is a hextet or nothing. -/
lemma mem_pieces_text {s : Spelling} {p : List Char} (hp : p ∈ pieces ':' s.text) :
    p = [] ∨ ∃ h : Hextet, h.digits = p := by
  cases s with
  | full hs hlength => exact mem_pieces_row hp
  | gapped head tail hlength =>
    rw [text, pieces_append, pieces_cons, if_pos rfl, List.mem_append, List.mem_cons] at hp
    rcases hp with hp | rfl | hp
    · exact mem_pieces_row hp
    · exact .inl rfl
    · exact mem_pieces_row hp

lemma mem_hexDigits_of_mem_text {s : Spelling} (hc : c ∈ s.text) (hcolon : c ≠ ':') :
    c ∈ hexDigits := by
  obtain ⟨p, hp, hc⟩ := (eq_or_mem_pieces ':' hc).resolve_left hcolon
  obtain rfl | ⟨h, rfl⟩ := mem_pieces_text hp
  · cases hc
  · exact h.mem_hexDigits c hc

/-- A colon at the start of the text is the first of a gap. -/
lemma head?_of_text_eq {s : Spelling} (h : s.text = ':' :: after) : after.head? = some ':' := by
  cases s with
  | full hs hlength => exact absurd h row_ne_colon_cons
  | gapped head tail hlength =>
    rw [text] at h
    cases hhead : row head with
    | nil =>
      rw [hhead, List.nil_append] at h
      obtain rfl := (List.cons.inj h).2
      rfl
    | cons c rest =>
      rw [hhead, List.cons_append] at h
      obtain rfl := (List.cons.inj h).1
      exact absurd hhead row_ne_colon_cons

/-- A colon at the end of the text is the second of a gap. -/
lemma getLast?_of_text_eq {s : Spelling} (h : s.text = before ++ [':']) :
    before.getLast? = some ':' := by
  cases s with
  | full hs hlength => exact absurd h row_ne_concat_colon
  | gapped head tail hlength =>
    rw [text] at h
    cases htail : row tail using List.reverseRecOn with
    | nil =>
      rw [htail, List.append_cons] at h
      obtain rfl := List.append_inj_left' h rfl
      simp
    | append_singleton rest c =>
      rw [htail, ← List.cons_append, ← List.cons_append, ← List.append_assoc] at h
      obtain rfl := List.singleton_inj.mp (List.append_inj_right' h rfl)
      exact absurd htail row_ne_concat_colon

lemma dot_not_mem_text (s : Spelling) : '.' ∉ s.text := by
  intro hdot
  have hdigit : '.' ∉ hexDigits := by decide +kernel
  exact hdigit (mem_hexDigits_of_mem_text hdot (by decide))

end Spelling

/-- A misshapen text is not the text of any spelling. -/
theorem Misshapen.text_ne {text : List Char} (h : Misshapen text) (s : Spelling) :
    s.text ≠ text := by
  intro htext
  cases h with
  | leadingColon hrest => exact hrest (Spelling.head?_of_text_eq htext)
  | trailingColon hfront => exact hfront (Spelling.getLast?_of_text_eq htext)
  | threeColons before after =>
    cases s with
    | full hs hlength => exact row_ne_append_colon_cons_colon htext
    | gapped head tail hlength => exact row_ne_colon_cons (eq_row_of_gap htext).2
  | twoGaps before between after =>
    cases s with
    | full hs hlength => exact row_ne_append_colon_cons_colon htext
    | gapped head tail hlength => exact row_ne_append_colon_cons_colon (eq_row_of_gap htext).2
  | longGroup hgroup hlength =>
    subst htext
    obtain rfl | ⟨h, rfl⟩ := Spelling.mem_pieces_text hgroup
    · cases hlength
    · exact Nat.not_lt.mpr h.length_le hlength
  | otherCharacter hmem hcolon hdigit =>
    subst htext
    exact hdigit (Spelling.mem_hexDigits_of_mem_text hmem hcolon)

end Hextets

end Address

/-! ## Reading -/

open Address.Hextets

namespace Family

variable {text : String} {a : Nat}

lemma parse_ipv6_eq_ok_iff :
    ipv6.parse text = .ok a ↔ ∃ s : Spelling, s.text = text.toList ∧ s.address = a := by
  rw [parse_eq_ok_iff]
  exact denotes_iff

/-- A text of which no address is read is refused as malformed, with what is wrong about it. -/
lemma exists_parse_eq_malformedAddress_iff {f : Family} :
    (∃ flaw : AddressFlaw, f.parse text = .error (.malformedAddress f text flaw.text)) ↔
      ∀ a, f.parse text ≠ .ok a := by
  simp only [parse]
  split <;> simp

/-- Exactly the texts of spellings are read, each as the address that it spells, and all other texts
are refused as malformed. -/
theorem parse_ipv6_accepts_spellings (text : String) :
    (∀ a, ipv6.parse text = .ok a ↔
      '.' ∉ text.toList ∧ ∃ s : Spelling, s.text = text.toList ∧ s.address = a) ∧
    ((∃ flaw : AddressFlaw, ipv6.parse text = .error (.malformedAddress .ipv6 text flaw.text)) ↔
      ∀ s : Spelling, s.text ≠ text.toList) ∧
    (Misshapen text.toList →
      ∃ flaw : AddressFlaw, ipv6.parse text = .error (.malformedAddress .ipv6 text flaw.text)) := by
  have hrefused : (∃ flaw : AddressFlaw,
      ipv6.parse text = .error (.malformedAddress .ipv6 text flaw.text)) ↔
        ∀ s : Spelling, s.text ≠ text.toList := by
    rw [exists_parse_eq_malformedAddress_iff]
    simp [parse_ipv6_eq_ok_iff]
  refine ⟨fun a => ?_, hrefused, fun h => hrefused.mpr h.text_ne⟩
  rw [parse_ipv6_eq_ok_iff]
  constructor
  · rintro ⟨s, htext, ha⟩
    exact ⟨htext ▸ s.dot_not_mem_text, s, htext, ha⟩
  · exact And.right

end Family

end Delegation
