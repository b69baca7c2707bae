import Delegation.Block
import Delegation.Proofs.Sequence
import Mathlib.Order.Bounds.Basic
import Mathlib.Tactic.SplitIfs

/-!
# The block that encloses a span

A span within a family always has an enclosing block.  It starts where the span starts and has the
greatest length, hence the least size, with room for the addresses of the span
(`exists_enclosing_eq_ok`).

Only the size counts: the block need not be aligned, and it may even reach beyond the last address.
The span is exactly its enclosing block if it has as many addresses as that, and this is so if
their number is a power of two at all (`exists_isExact_eq_ok`).
-/

namespace Delegation

open Sequence

variable {f : Family} {s : Span} {b : Block} {n k : Nat}

/-! ## Binary digits -/

lemma bitLength_le_iff : bitLength n ≤ k ↔ n < 2 ^ k := by
  rw [bitLength]
  split_ifs with hn
  · subst hn
    exact ⟨fun _ => Nat.two_pow_pos k, fun _ => Nat.zero_le k⟩
  · rw [Nat.succ_le_iff, Nat.log2_lt hn]

lemma lt_two_pow_bitLength (n : Nat) : n < 2 ^ bitLength n :=
  bitLength_le_iff.mp (Nat.le_refl _)

/-- The digits of a number count its successor if that is a power of two. -/
lemma exists_eq_two_pow_iff : (∃ k, n + 1 = 2 ^ k) ↔ n + 1 = 2 ^ bitLength n := by
  constructor
  · rintro ⟨k, hk⟩
    have hle : bitLength n ≤ k := bitLength_le_iff.mpr (by omega)
    have hlt := lt_two_pow_bitLength n
    have hmono : 2 ^ bitLength n ≤ 2 ^ k := Nat.pow_le_pow_right (by decide) hle
    omega
  · exact fun h => ⟨_, h⟩

namespace Block

/-! ## The enclosing block -/

theorem enclosing_eq_ok_iff :
    enclosing f s = .ok b ↔ s.first ≤ s.last ∧ s.last ≤ f.maxAddress ∧
      b = ⟨f, s.first, f.width - bitLength (s.last - s.first)⟩ := by
  rw [enclosing, map_eq_ok_iff]
  simp only [Span.check_eq_ok_iff]
  constructor
  · rintro ⟨_, ⟨hle, hlast, rfl⟩, rfl⟩
    exact ⟨hle, hlast, rfl⟩
  · rintro ⟨hle, hlast, rfl⟩
    exact ⟨s, ⟨hle, hlast, rfl⟩, rfl⟩

lemma bitLength_le_width (hlast : s.last ≤ f.maxAddress) :
    bitLength (s.last - s.first) ≤ f.width := by
  rw [bitLength_le_iff]
  exact Nat.lt_of_le_of_lt (Nat.sub_le _ _) (Family.le_maxAddress_iff.mp hlast)

/-- A span within the family has an enclosing block, and no block of a greater length has room for
its addresses. -/
theorem exists_enclosing_eq_ok (hle : s.first ≤ s.last) (hlast : s.last ≤ f.maxAddress) :
    ∃ p, enclosing f s = .ok ⟨f, s.first, p⟩ ∧
      IsGreatest {p | p ≤ f.width ∧ s.last - s.first + 1 ≤ 2 ^ (f.width - p)} p := by
  have hwidth := bitLength_le_width (s := s) hlast
  refine ⟨_, enclosing_eq_ok_iff.mpr ⟨hle, hlast, rfl⟩, ⟨Nat.sub_le _ _, ?_⟩, ?_⟩
  · rw [Nat.sub_sub_self hwidth]
    exact lt_two_pow_bitLength _
  · rintro p ⟨hp, hroom⟩
    have hdigits : bitLength (s.last - s.first) ≤ f.width - p := bitLength_le_iff.mpr hroom
    omega

/-! ## Exact spans -/

/-- The block of some length at an address of the family reaches beyond the last address, or it has
as many addresses as its length says. -/
lemma span_eq_of_length_le {a p : Nat} (ha : a ≤ f.maxAddress) (hp : p ≤ f.width) :
    (⟨f, a, p⟩ : Block).span =
      if a + 2 ^ (f.width - p) - 1 ≤ f.maxAddress then .ok ⟨a, a + 2 ^ (f.width - p) - 1⟩
      else .error
        (.rangeOverflow f a ("/" ++ toString p ++ " block runs past the last address")) := by
  rw [span, Span.ofPrefix, if_neg (Nat.not_lt.mpr hp), Family.check, if_pos ha]

/-- Whether a span within the family is exact can always be said: it is if the number of its
addresses is a power of two. -/
theorem exists_isExact_eq_ok (hle : s.first ≤ s.last) (hlast : s.last ≤ f.maxAddress) :
    ∃ exact, isExact f s = .ok exact ∧ (exact = true ↔ ∃ k, s.last - s.first + 1 = 2 ^ k) := by
  have hwidth := bitLength_le_width (s := s) hlast
  have hpos := Nat.two_pow_pos (bitLength (s.last - s.first))
  have hspan := span_eq_of_length_le (p := f.width - bitLength (s.last - s.first))
    (Nat.le_trans hle hlast) (Nat.sub_le _ _)
  rw [Nat.sub_sub_self hwidth] at hspan
  rw [isExact, enclosing_eq_ok_iff.mpr ⟨hle, hlast, rfl⟩]
  simp only [hspan, exists_eq_two_pow_iff]
  split_ifs with hfits
  · refine ⟨_, rfl, ?_⟩
    rw [beq_iff_eq, Span.mk.injEq]
    omega
  · -- a span of that size would not end within the family
    refine ⟨false, rfl, ?_⟩
    simp only [Bool.false_eq_true, false_iff]
    omega

end Block

end Delegation
