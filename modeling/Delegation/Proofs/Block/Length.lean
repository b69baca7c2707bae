import Delegation.Proofs.Block.Enclosing
import Delegation.Proofs.Word

/-!
# The length of an enclosing block

The length of the block that encloses a span is the width of the family without the binary digits of
the distance between both bounds.  Those are counted from the zeros at the high end of a word, and
the length is found in words all the way: no difference is below zero, and the length fits in eight
bits (`exists_lengthInWords_eq`).

A block of some length has as many addresses as the length says, at whatever address it is put.  So
its span leads back to that length, and it need not be aligned for that
(`enclosing_of_ofPrefix`).

Main result: `enclosing_outcome`.
-/

namespace Delegation

open Word

variable {f : Family} {s : Span} {first last : BitVec 128} {w k : Nat}

/-! ## Binary digits -/

lemma bitLength_two_pow_sub_one (k : Nat) : bitLength (2 ^ k - 1) = k := by
  have hpos := Nat.two_pow_pos k
  refine Nat.le_antisymm (bitLength_le_iff.mpr (Nat.sub_lt hpos Nat.one_pos)) ?_
  have hlt := lt_two_pow_bitLength (2 ^ k - 1)
  exact (Nat.pow_le_pow_iff_right (by decide : 1 < 2)).mp (by omega)

/-- The binary digits of a word are all but the zeros at its high end. -/
lemma bitLength_add_toNat_clz (a : BitVec w) : bitLength a.toNat + a.clz.toNat = w := by
  by_cases ha : a = 0#w
  · subst ha
    rw [toNat_clz_zero]
    exact Nat.zero_add w
  · have hclz := toNat_clz_lt ha
    have hdigits : bitLength a.toNat ≤ w - a.clz.toNat :=
      bitLength_le_iff.mpr BitVec.toNat_lt_two_pow_sub_clz
    have hmore : ¬ bitLength a.toNat ≤ w - 1 - a.clz.toNat := by
      rw [bitLength_le_iff, Nat.not_lt]
      exact (two_pow_le_toNat_iff ha).mpr (Nat.le_refl _)
    omega

namespace Block

/-! ## The length in words -/

/-- The length of the block that encloses a span, by the zeros at the high end of the distance
between both bounds. -/
def lengthInWords (f : Family) (first last : BitVec 128) : Option (BitVec 8) := do
  let distance ← difference? last first
  let digits ← difference? 128#32 (distance.clz.setWidth 32)
  let length ← difference? (.ofNat 32 f.width) digits
  narrow? 8 length

/-- Finding the length computes no difference below zero, and no bit of it is lost. -/
lemma exists_lengthInWords_eq (hle : first.toNat ≤ last.toNat) (hlast : last.toNat ≤ f.maxAddress) :
    ∃ length, lengthInWords f first last = some length ∧
      length.toNat = f.width - bitLength (last.toNat - first.toNat) := by
  have hwidth := f.width_le
  have hdigits : bitLength (last.toNat - first.toNat) ≤ f.width :=
    bitLength_le_width (s := ⟨first.toNat, last.toNat⟩) hlast
  obtain ⟨distance, hdistance, hdistanceNat⟩ := exists_difference?_eq_some hle
  have hsum := bitLength_add_toNat_clz distance
  rw [hdistanceNat] at hsum
  have hzeros : (distance.clz.setWidth 32).toNat = distance.clz.toNat := by
    rw [BitVec.toNat_setWidth]
    exact Nat.mod_eq_of_lt (by omega)
  have hword : (BitVec.ofNat 32 f.width).toNat = f.width := Nat.mod_eq_of_lt (by omega)
  have hall : (128#32).toNat = 128 := rfl
  obtain ⟨digits, hcount, hcountNat⟩ := exists_difference?_eq_some
    (a := 128#32) (b := distance.clz.setWidth 32) (by omega)
  obtain ⟨length, hlength, hlengthNat⟩ := exists_difference?_eq_some
    (a := BitVec.ofNat 32 f.width) (b := digits) (by omega)
  obtain ⟨narrow, hnarrow, hnarrowNat⟩ := exists_narrow?_eq_some (v := 8) (a := length) (by omega)
  refine ⟨narrow, ?_, by omega⟩
  simp only [lengthInWords, Option.bind_eq_bind, hdistance, hcount, hlength, Option.bind_some,
    hnarrow]

/-! ## What the enclosing block of a span is -/

/-- The span of a block of some length leads back to that length. -/
lemma enclosing_of_ofPrefix {a : Nat} (h : Span.ofPrefix f a k = .ok s) :
    enclosing f s = .ok ⟨f, a, k⟩ := by
  obtain ⟨hlength, hlast, rfl⟩ := Span.ofPrefix_eq_ok_iff.mp h
  have hpos := Nat.two_pow_pos (f.width - k)
  have hdistance : a + 2 ^ (f.width - k) - 1 - a = 2 ^ (f.width - k) - 1 := by omega
  rw [enclosing_eq_ok_iff]
  refine ⟨by simp only; omega, hlast, ?_⟩
  rw [hdistance, bitLength_two_pow_sub_one, Nat.sub_sub_self hlength]

/-- A bound that is no address of the family is refused, and then a span that ends before it starts.
Any other span has an enclosing block, which starts where the span does and has the greatest length
with room for it, and the length can be found without leaving the words.  The span of a block, be it
aligned or not, is enclosed by a block of the same length. -/
theorem enclosing_outcome (f : Family) (s : Span) :
    (f.maxAddress < s.first ∨ f.maxAddress < s.last →
      ∃ a, [s.first, s.last].find? (f.maxAddress < ·) = some a ∧
        enclosing f s = .error (.rangeOverflow f a
          ("value " ++ toString a ++ " exceeds " ++ toString f.width ++ "-bit width"))) ∧
    (s.first ≤ f.maxAddress → s.last < s.first →
      enclosing f s = .error (.invalidRange f s.first s.last)) ∧
    (s.first ≤ s.last → s.last ≤ f.maxAddress →
      ∃ length, enclosing f s = .ok ⟨f, s.first, length⟩ ∧
        IsGreatest {p | p ≤ f.width ∧ s.last - s.first + 1 ≤ 2 ^ (f.width - p)} length ∧
        (lengthInWords f (.ofNat 128 s.first) (.ofNat 128 s.last)).map BitVec.toNat =
          some length) ∧
    ∀ a length, Span.ofPrefix f a length = .ok s → enclosing f s = .ok ⟨f, a, length⟩ := by
  refine ⟨fun hbeyond => ?_, fun hfirst hreversed => ?_, fun hle hlast => ?_,
    fun a length => enclosing_of_ofPrefix⟩
  · obtain ⟨a, ha, hcheck⟩ := Span.exists_check_eq_rangeOverflow hbeyond
    exact ⟨a, ha, by rw [enclosing, hcheck]; rfl⟩
  · rw [enclosing, Span.check_eq_invalidRange hfirst hreversed]
    rfl
  · obtain ⟨length, hok, hgreatest⟩ := exists_enclosing_eq_ok hle hlast
    have hlength : length = f.width - bitLength (s.last - s.first) :=
      congrArg Block.length (enclosing_eq_ok_iff.mp hok).2.2
    have hword : f.maxAddress < 2 ^ 128 := by cases f <;> decide
    have hfirstNat : (BitVec.ofNat 128 s.first).toNat = s.first := Nat.mod_eq_of_lt (by omega)
    have hlastNat : (BitVec.ofNat 128 s.last).toNat = s.last := Nat.mod_eq_of_lt (by omega)
    have hle' : (BitVec.ofNat 128 s.first).toNat ≤ (BitVec.ofNat 128 s.last).toNat := by omega
    have hlast' : (BitVec.ofNat 128 s.last).toNat ≤ f.maxAddress := by omega
    obtain ⟨narrow, hnarrow, hnarrowNat⟩ := exists_lengthInWords_eq hle' hlast'
    refine ⟨length, hok, hgreatest, ?_⟩
    rw [hnarrow, Option.map_some, hnarrowNat, hfirstNat, hlastNat, hlength]

/-- The 256 addresses from 10.0.0.1 on are no aligned block. -/
theorem enclosing_outcome_unaligned :
    Span.ofPrefix .ipv4 0x0a000001 24 = .ok ⟨0x0a000001, 0x0a000100⟩ ∧
      enclosing .ipv4 ⟨0x0a000001, 0x0a000100⟩ = .ok ⟨.ipv4, 0x0a000001, 24⟩ ∧
      ∃ length, enclosing .ipv4 ⟨0x0a000001, 0x0a000100⟩ = .ok ⟨.ipv4, 0x0a000001, length⟩ ∧
        (lengthInWords .ipv4 0x0a000001 0x0a000100).map BitVec.toNat = some length := by
  obtain ⟨-, -, hencloses, hspans⟩ := enclosing_outcome .ipv4 ⟨0x0a000001, 0x0a000100⟩
  have hspan : Span.ofPrefix .ipv4 0x0a000001 24 = .ok ⟨0x0a000001, 0x0a000100⟩ := by decide
  obtain ⟨length, hok, -, hwords⟩ := hencloses (by decide) (by decide)
  exact ⟨hspan, hspans _ _ hspan, length, hok, hwords⟩

/-- The whole IPv6 space has one address more than the greatest word. -/
example : lengthInWords .ipv6 0 (.allOnes 128) = some 0 := by decide

end Block

end Delegation
