import Delegation.Proofs.Address.Spelling
import Delegation.Proofs.Word

/-!
# How IPv4 addresses are spelled

A spelling of an IPv4 address is four octets with points between them (`Dotted.Quad`).  An octet is
one to three decimal digits for a number up to 255, and zeros may come first.  As for IPv6, the
digits and what they stand for are listed here without any reader.

A reader need not keep the octets: it can take them into a word of 32 bits one by one, each shifting
those before it by eight bits.  No bit of the word is ever lost, because no more than three octets
come before the last one, and so the word is the address in the end (`exists_readInWords_eq`).

Main result: `Family.parse_ipv4_accepts_quads`.
-/

namespace Delegation

open Delegation.Text Delegation.Address Delegation.Sequence

/-! ## Digits -/

namespace Text

/-- The decimal digits in order. -/
def decimalDigits : List Char := "0123456789".toList

/-- What a decimal digit stands for. -/
def decimalValue (c : Char) : Nat := decimalDigits.idxOf c

variable {c : Char} {d : Nat}

lemma isDigit_ten_iff_mem : IsDigit 10 c d ↔ c ∈ decimalDigits ∧ decimalValue c = d := by
  have hall : hexDigits.all (fun c => (hexValue c < 10 ↔ c ∈ decimalDigits) ∧
      (c ∈ decimalDigits → decimalValue c = hexValue c)) = true := rfl
  have htable : ∀ c ∈ hexDigits, (hexValue c < 10 ↔ c ∈ decimalDigits) ∧
      (c ∈ decimalDigits → decimalValue c = hexValue c) := by
    intro c hc
    exact of_decide_eq_true (List.all_eq_true.mp hall c hc)
  have hsubset : ∀ c ∈ decimalDigits, c ∈ hexDigits := by
    intro c hc
    rw [show hexDigits = decimalDigits ++ "abcdefABCDEF".toList from rfl]
    exact List.mem_append_left _ hc
  have hhex : IsDigit 10 c d ↔ (c ∈ hexDigits ∧ hexValue c = d) ∧ d < 10 := by
    rw [← isDigit_sixteen_iff_mem, isDigit_sixteen_iff]
    rfl
  rw [hhex]
  constructor
  · rintro ⟨⟨hc, rfl⟩, hd⟩
    obtain ⟨hiff, hvalue⟩ := htable c hc
    exact ⟨hiff.mp hd, hvalue (hiff.mp hd)⟩
  · rintro ⟨hc, rfl⟩
    obtain ⟨hiff, hvalue⟩ := htable c (hsubset c hc)
    rw [hvalue hc]
    exact ⟨⟨hsubset c hc, rfl⟩, hiff.mpr hc⟩

lemma forall₂_isDigit_ten_iff_mem {s : List Char} {ds : List Nat} :
    List.Forall₂ (IsDigit 10) s ds ↔ (∀ c ∈ s, c ∈ decimalDigits) ∧ s.map decimalValue = ds :=
  forall₂_iff_map_eq (R := IsDigit 10) isDigit_ten_iff_mem

end Text

namespace Address.Dotted

/-! ## Octets -/

/-- One to three decimal digits for a number up to 255; zeros may come first. -/
structure Octet where
  digits : List Char
  ne_nil : digits ≠ []
  length_le : digits.length ≤ 3
  mem_decimalDigits : ∀ c ∈ digits, c ∈ decimalDigits
  value_le : Nat.ofDigits 10 (digits.map decimalValue).reverse ≤ 255

/-- The number with the digits of the octet. -/
def Octet.value (o : Octet) : Nat := Nat.ofDigits 10 (o.digits.map decimalValue).reverse

lemma isOctet_iff {part : List Char} {n : Nat} :
    IsOctet part n ↔ ∃ o : Octet, o.digits = part ∧ o.value = n := by
  constructor
  · rintro ⟨⟨hne, ds, hds, rfl⟩, hlength, hle⟩
    obtain ⟨hmem, rfl⟩ := forall₂_isDigit_ten_iff_mem.mp hds
    rw [ofGroups_eq_ofDigits] at hle ⊢
    exact ⟨⟨part, hne, hlength, hmem, hle⟩, rfl, rfl⟩
  · rintro ⟨o, rfl, rfl⟩
    have hds := forall₂_isDigit_ten_iff_mem.mpr ⟨o.mem_decimalDigits, rfl⟩
    exact ⟨⟨o.ne_nil, _, hds, ofGroups_eq_ofDigits 10 _⟩, o.length_le, o.value_le⟩

/-! ## Quads -/

/-- Four octets. -/
structure Quad where
  (first second third fourth : Octet)

namespace Quad

/-- The octets with points between them. -/
def text (q : Quad) : List Char :=
  q.first.digits ++ '.' :: (q.second.digits ++ '.' :: (q.third.digits ++ '.' :: q.fourth.digits))

/-- The number with the octets as its digits, the first of them the highest. -/
def address (q : Quad) : Nat :=
  ((q.first.value * 256 + q.second.value) * 256 + q.third.value) * 256 + q.fourth.value

lemma ofGroups_eq_address (q : Quad) :
    ofGroups 256 [q.first.value, q.second.value, q.third.value, q.fourth.value] = q.address := by
  show 256 * (256 * (256 * (256 * 0 + q.first.value) + q.second.value) + q.third.value) +
    q.fourth.value = q.address
  rw [address]
  omega

end Quad

theorem denotes_iff_quad {text : List Char} {address : Nat} :
    Denotes text address ↔ ∃ q : Quad, q.text = text ∧ q.address = address := by
  constructor
  · intro h
    cases h with
    | @octets parts octets hparts hlength =>
      match octets, hlength with
      | [_, _, _, _], _ =>
        simp only [List.forall₂_cons_right_iff, List.forall₂_nil_right_iff] at hparts
        obtain ⟨_, _, ha, ⟨_, _, hb, ⟨_, _, hc, ⟨_, _, hd, rfl, rfl⟩, rfl⟩, rfl⟩, rfl⟩ := hparts
        obtain ⟨a, rfl, rfl⟩ := isOctet_iff.mp ha
        obtain ⟨b, rfl, rfl⟩ := isOctet_iff.mp hb
        obtain ⟨c, rfl, rfl⟩ := isOctet_iff.mp hc
        obtain ⟨d, rfl, rfl⟩ := isOctet_iff.mp hd
        exact ⟨⟨a, b, c, d⟩, rfl, (Quad.ofGroups_eq_address _).symm⟩
  · rintro ⟨q, rfl, rfl⟩
    have hoctet : ∀ o : Octet, IsOctet o.digits o.value := fun o => isOctet_iff.mpr ⟨o, rfl, rfl⟩
    have hparts := List.Forall₂.cons (hoctet q.first) (.cons (hoctet q.second)
      (.cons (hoctet q.third) (.cons (hoctet q.fourth) .nil)))
    rw [← q.ofGroups_eq_address]
    exact .octets hparts rfl

/-! ## Reading in words -/

/-- Takes one more octet into a word, behind all its bits, unless one of them is lost. -/
def takeIn? (value : BitVec 32) (octet : Nat) : Option (BitVec 32) :=
  if value >>> 24 = 0#32 then some (value <<< 8 ||| BitVec.ofNat 32 octet) else none

/-- Reads parts one by one and takes their octets into a word; the word holds the octets of the
`count` parts before them. -/
def readParts : List (List Char) → Nat → BitVec 32 → Option (Except AddressFlaw (BitVec 32))
  | [], count, value => some (if count ≠ 4 then .error .tooFewOctets else .ok value)
  | part :: parts, count, value =>
    if 4 < count + 1 then some (.error .tooManyOctets)
    else match readOctet part with
      | .error flaw => some (.error flaw)
      | .ok octet => (takeIn? value octet).bind fun value => readParts parts (count + 1) value

/-- Reads an address into a word of 32 bits. -/
def readInWords (text : List Char) : Option (Except AddressFlaw (BitVec 32)) :=
  readParts (pieces '.' text) 0 0

/-- What reading results in if `count` octets, which make up `value`, come before the parts. -/
def readBehind (count value : Nat) (parts : List (List Char)) : Except AddressFlaw Nat :=
  match (parts.take (4 - count)).mapM readOctet with
  | .error flaw => .error flaw
  | .ok octets =>
    if 4 < count + parts.length then .error .tooManyOctets
    else if count + parts.length < 4 then .error .tooFewOctets
    else .ok (octets.foldl (fun n d => 256 * n + d) value)

variable {part : List Char} {parts : List (List Char)} {count octet : Nat} {value : BitVec 32}

lemma lt_of_readOctet (h : readOctet part = .ok octet) : octet < 256 :=
  Nat.lt_succ_of_le (readOctet_eq_ok_iff.mp h).le

/-- A word with eight bits to spare takes in an octet as a number does. -/
lemma exists_takeIn?_eq (hvalue : value.toNat < 2 ^ 24) (hoctet : octet < 256) :
    ∃ next, takeIn? value octet = some next ∧ next.toNat = 256 * value.toNat + octet := by
  have hhigh : value >>> 24 = 0#32 := by
    apply BitVec.eq_of_toNat_eq
    rw [BitVec.toNat_ushiftRight, Nat.shiftRight_eq_div_pow]
    exact Nat.div_eq_of_lt hvalue
  refine ⟨_, if_pos hhigh, ?_⟩
  have hword : (BitVec.ofNat 32 octet).toNat = octet := Nat.mod_eq_of_lt (by omega)
  have hshifted : (value <<< 8).toNat = 2 ^ 8 * value.toNat := by
    rw [BitVec.toNat_shiftLeft, Nat.shiftLeft_eq, Nat.mul_comm]
    exact Nat.mod_eq_of_lt (by omega)
  rw [BitVec.toNat_or, hword, hshifted]
  exact (Nat.two_pow_add_eq_or_of_lt (i := 8) hoctet value.toNat).symm

lemma readBehind_four (part : List Char) (parts : List (List Char)) (value : Nat) :
    readBehind 4 value (part :: parts) = .error .tooManyOctets := by
  have hmany : 4 < 4 + (part :: parts).length := by simp
  simp only [readBehind, Nat.sub_self, List.take_zero]
  exact if_pos hmany

lemma readBehind_cons (hcount : count < 4) (part : List Char) (parts : List (List Char))
    (value : Nat) :
    readBehind count value (part :: parts) =
      match readOctet part with
      | .error flaw => .error flaw
      | .ok octet => readBehind (count + 1) (256 * value + octet) parts := by
  have htake : (part :: parts).take (4 - count) = part :: parts.take (4 - (count + 1)) := by
    rw [show 4 - count = 4 - (count + 1) + 1 by omega, List.take_succ_cons]
  have hlength : count + (part :: parts).length = count + 1 + parts.length := by
    rw [List.length_cons]
    omega
  simp only [readBehind, htake, hlength]
  cases hpart : readOctet part with
  | error flaw => rw [mapM_cons_of_error _ hpart]
  | ok octet =>
    rw [mapM_cons_of_ok _ hpart]
    cases (parts.take (4 - (count + 1))).mapM readOctet <;> rfl

/-- The word is the number that the octets so far make up, and so it has eight bits to spare for
each octet that may still come. -/
lemma exists_readParts_eq (hcount : count ≤ 4) (hvalue : value.toNat < 256 ^ count) :
    ∃ reading, readParts parts count value = some reading ∧
      reading.map BitVec.toNat = readBehind count value.toNat parts := by
  induction parts generalizing count value with
  | nil =>
    refine ⟨_, rfl, ?_⟩
    by_cases hfour : count = 4
    · subst hfour
      rfl
    · have hfew : count < 4 := by omega
      rw [if_pos hfour]
      simp only [readBehind, List.take_nil, List.length_nil, Nat.add_zero]
      show _ = if 4 < count then _ else if count < 4 then _ else _
      rw [if_neg (Nat.not_lt.mpr hcount), if_pos hfew]
      rfl
  | cons part parts ih =>
    rw [readParts]
    rcases Nat.lt_or_eq_of_le hcount with hlt | rfl
    · rw [if_neg (by omega), readBehind_cons hlt]
      cases hpart : readOctet part with
      | error flaw => exact ⟨_, rfl, rfl⟩
      | ok octet =>
        have hoctet := lt_of_readOctet hpart
        have hspare : value.toNat < 2 ^ 24 :=
          Nat.lt_of_lt_of_le hvalue (Nat.pow_le_pow_right (n := 256) (by decide)
            (show count ≤ 3 by omega))
        obtain ⟨next, hnext, hnat⟩ := exists_takeIn?_eq hspare hoctet
        have hbound : next.toNat < 256 ^ (count + 1) := by
          rw [hnat, Nat.pow_succ]
          omega
        obtain ⟨reading, hreading, heq⟩ := ih (by omega) hbound
        refine ⟨reading, ?_, ?_⟩
        · show (takeIn? value octet).bind _ = some reading
          rw [hnext, Option.bind_some, hreading]
        · rw [heq, hnat]
    · rw [if_pos (by decide), readBehind_four]
      exact ⟨_, rfl, rfl⟩

/-- Reading in words loses no bit, and results in the same address or the same flaw. -/
theorem exists_readInWords_eq (text : List Char) :
    ∃ reading, readInWords text = some reading ∧ reading.map BitVec.toNat = read text := by
  obtain ⟨reading, hreading, heq⟩ : ∃ reading,
      readParts (pieces '.' text) 0 0#32 = some reading ∧
        reading.map BitVec.toNat = readBehind 0 (0#32).toNat (pieces '.' text) :=
    exists_readParts_eq (by decide) (by decide)
  refine ⟨reading, hreading, heq.trans ?_⟩
  simp only [readBehind, Nat.zero_add]
  rfl

end Address.Dotted

/-! ## Reading -/

open Address.Dotted

namespace Family

variable {text : String} {a : Nat}

lemma parse_ipv4_eq_ok_iff :
    ipv4.parse text = .ok a ↔ ∃ q : Quad, q.text = text.toList ∧ q.address = a := by
  rw [parse_eq_ok_iff]
  exact denotes_iff_quad

/-- Exactly the texts of quads are read, each as the address that its octets make up, and all other
texts are refused as malformed.  Reading the octets into a word of 32 bits loses no bit and results
in the same address, or in the same flaw. -/
theorem parse_ipv4_accepts_quads (text : String) :
    (∀ a, ipv4.parse text = .ok a ↔ ∃ q : Quad, q.text = text.toList ∧ q.address = a) ∧
    ((∃ flaw : AddressFlaw, ipv4.parse text = .error (.malformedAddress .ipv4 text flaw.text)) ↔
      ∀ q : Quad, q.text ≠ text.toList) ∧
    ∃ reading, readInWords text.toList = some reading ∧
      ipv4.parse text = match reading with
        | .ok value => .ok value.toNat
        | .error flaw => .error (.malformedAddress .ipv4 text flaw.text) := by
  refine ⟨fun a => parse_ipv4_eq_ok_iff, ?_, ?_⟩
  · rw [exists_parse_eq_malformedAddress_iff]
    simp [parse_ipv4_eq_ok_iff]
  · obtain ⟨reading, hreading, heq⟩ := exists_readInWords_eq text.toList
    refine ⟨reading, hreading, ?_⟩
    simp only [parse, ← heq]
    cases reading <;> rfl

/-- Zeros may come first in an octet, but no more than three digits are in it. -/
example : ipv4.parse "010.00.001.9" = .ok 0x0a000109 ∧
    ipv4.parse "0010.0.1.9" = .error (.malformedAddress .ipv4 "0010.0.1.9"
      "octet is not a decimal number") := by decide

end Family

end Delegation
