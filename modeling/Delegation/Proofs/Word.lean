import Mathlib.Tactic.ByContra
import Mathlib.Tactic.Lemma
import Mathlib.Tactic.SplitIfs

/-!
# Words

Addresses fit in words of 128 bits.  A sum or a difference of two words need not be a word;
`Word.sum?` and `Word.difference?` give none then, and `Word.saturatingSum` gives the greatest word
for a sum that is none.  Nor need a word fit in fewer bits (`Word.narrow?`).

The zeros at the low end of a word say by which powers of two it is divisible
(`two_pow_dvd_toNat_iff`), and those at its high end which powers of two it reaches
(`two_pow_le_toNat_iff`).
-/

namespace Delegation.Word

variable {w k : Nat} {a b c : BitVec w}

/-- The sum of two words, if it is a word. -/
def sum? (a b : BitVec w) : Option (BitVec w) := if a.uaddOverflow b then none else some (a + b)

/-- The difference of two words, if it is a word. -/
def difference? (a b : BitVec w) : Option (BitVec w) :=
  if a.usubOverflow b then none else some (a - b)

/-- The sum of two words, or the greatest word if the sum is no word. -/
def saturatingSum (a b : BitVec w) : BitVec w := (sum? a b).getD (BitVec.allOnes w)

/-- The word of another width with the same value, if there is one. -/
def narrow? (v : Nat) (a : BitVec w) : Option (BitVec v) :=
  if a.toNat < 2 ^ v then some (a.setWidth v) else none

lemma toNat_ofNat_of_lt {n : Nat} (h : n < 2 ^ w) : (BitVec.ofNat w n).toNat = n :=
  Nat.mod_eq_of_lt h

theorem sum?_eq_some_iff : sum? a b = some c ↔ a.toNat + b.toNat = c.toNat := by
  rw [sum?]
  split_ifs with hoverflow
  · simp only [BitVec.uaddOverflow, decide_eq_true_eq] at hoverflow
    have := c.isLt
    simp only [false_iff]
    omega
  · rw [← BitVec.toNat_add_of_not_uaddOverflow hoverflow, Option.some.injEq, BitVec.toNat_inj]

theorem difference?_eq_some_iff : difference? a b = some c ↔ c.toNat + b.toNat = a.toNat := by
  rw [difference?]
  split_ifs with hoverflow
  · simp only [BitVec.usubOverflow, decide_eq_true_eq] at hoverflow
    simp only [false_iff]
    omega
  · have hsub := BitVec.toNat_sub_of_not_usubOverflow hoverflow
    simp only [BitVec.usubOverflow, decide_eq_true_eq] at hoverflow
    rw [Option.some.injEq, ← BitVec.toNat_inj, hsub]
    omega

lemma exists_sum?_eq_some (h : a.toNat + b.toNat < 2 ^ w) :
    ∃ c, sum? a b = some c ∧ c.toNat = a.toNat + b.toNat :=
  ⟨.ofNatLT _ h, sum?_eq_some_iff.mpr rfl, rfl⟩

lemma exists_difference?_eq_some (h : b.toNat ≤ a.toNat) :
    ∃ c, difference? a b = some c ∧ c.toNat = a.toNat - b.toNat := by
  have hlt : a.toNat - b.toNat < 2 ^ w := Nat.lt_of_le_of_lt (Nat.sub_le _ _) a.isLt
  refine ⟨.ofNatLT _ hlt, difference?_eq_some_iff.mpr ?_, rfl⟩
  exact Nat.sub_add_cancel h

lemma sum?_eq_none_iff : sum? a b = none ↔ 2 ^ w ≤ a.toNat + b.toNat := by
  rw [sum?]
  simp [BitVec.uaddOverflow]

@[simp] lemma toNat_saturatingSum (a b : BitVec w) :
    (saturatingSum a b).toNat = min (a.toNat + b.toNat) (2 ^ w - 1) := by
  rw [saturatingSum]
  cases hsum : sum? a b with
  | none =>
    rw [sum?_eq_none_iff] at hsum
    rw [Option.getD_none, BitVec.toNat_allOnes]
    omega
  | some c =>
    rw [sum?_eq_some_iff] at hsum
    have := c.isLt
    rw [Option.getD_some]
    omega

lemma exists_narrow?_eq_some {v : Nat} (h : a.toNat < 2 ^ v) :
    ∃ c : BitVec v, narrow? v a = some c ∧ c.toNat = a.toNat :=
  ⟨a.setWidth v, if_pos h, by rw [BitVec.toNat_setWidth, Nat.mod_eq_of_lt h]⟩

/-! ## Zeros at the ends -/

lemma two_pow_dvd_iff_testBit {n : Nat} : 2 ^ k ∣ n ↔ ∀ i < k, n.testBit i = false := by
  rw [Nat.dvd_iff_mod_eq_zero]
  constructor
  · intro h i hi
    have hbit := Nat.testBit_mod_two_pow n k i
    rw [h, Nat.zero_testBit, decide_eq_true hi, Bool.true_and] at hbit
    exact hbit.symm
  · intro h
    refine Nat.eq_of_testBit_eq fun i => ?_
    rw [Nat.testBit_mod_two_pow, Nat.zero_testBit]
    by_cases hi : i < k
    · rw [h i hi, Bool.and_false]
    · rw [decide_eq_false hi, Bool.false_and]

lemma toNat_clz_zero : (0#w).clz.toNat = w := by
  rw [BitVec.clz_eq_iff_eq_zero.mpr rfl]
  exact Nat.mod_eq_of_lt Nat.lt_two_pow_self

lemma toNat_ctz_zero : (0#w).ctz.toNat = w := by
  rw [BitVec.ctz_eq_reverse_clz, BitVec.reverse_eq_zero_iff.mpr rfl, toNat_clz_zero]

/-- A word is divisible by a power of two if it has that many zeros at its low end. -/
theorem two_pow_dvd_toNat_iff (hk : k ≤ w) : 2 ^ k ∣ a.toNat ↔ k ≤ a.ctz.toNat := by
  rw [two_pow_dvd_iff_testBit]
  constructor
  · intro h
    by_contra hlt
    by_cases ha : a = 0#w
    · -- zero has zeros only
      subst ha
      rw [toNat_ctz_zero] at hlt
      exact hlt hk
    · have hbit := BitVec.getLsbD_true_ctz_of_ne_zero ha
      have hzero := h a.ctz.toNat (Nat.lt_of_not_le hlt)
      rw [BitVec.testBit_toNat, hbit] at hzero
      cases hzero
  · intro h i hi
    exact BitVec.getLsbD_false_of_lt_ctz (Nat.lt_of_lt_of_le hi h)

lemma toNat_clz_lt (ha : a ≠ 0#w) : a.clz.toNat < w := by
  have hlt := BitVec.clz_lt_iff_ne_zero.mpr ha
  rw [BitVec.lt_def] at hlt
  simpa [Nat.mod_eq_of_lt Nat.lt_two_pow_self] using hlt

/-- Which powers of two a word reaches is told by the zeros at its high end. -/
theorem two_pow_le_toNat_iff (ha : a ≠ 0#w) : 2 ^ k ≤ a.toNat ↔ k ≤ w - 1 - a.clz.toNat := by
  have hw : 0 < w := by
    rcases Nat.eq_zero_or_pos w with rfl | hw
    · exact absurd (BitVec.eq_of_zero_length rfl) ha
    · exact hw
  have hlow := BitVec.two_pow_sub_clz_le_toNat_of_ne_zero hw ha
  have hhigh := BitVec.toNat_lt_two_pow_sub_clz (x := a)
  have hclz := toNat_clz_lt ha
  constructor
  · intro h
    have := (Nat.pow_lt_pow_iff_right (by decide)).mp (Nat.lt_of_le_of_lt h hhigh)
    omega
  · intro h
    exact Nat.le_trans (Nat.pow_le_pow_right (by decide) h) hlow

end Delegation.Word
