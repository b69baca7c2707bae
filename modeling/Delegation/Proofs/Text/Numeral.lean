import Delegation.Address.Groups
import Delegation.Proofs.Sequence
import Delegation.Text.Numeral
import Mathlib

/-!
# What numerals stand for

A numeral is a nonempty text of digits in some base; each digit is worth the base times as much as
the one behind it (`IsNumeral`).  The readers of decimal and of hexadecimal texts accept exactly
the numerals of their base (`readDecimal?_eq_some_iff`, `readHex?_eq_some_iff`).  The digits of a
number are a numeral of it (`isNumeral_toDigits`), and so they are behind any number of zeros
(`IsNumeral.leadingZeros`).
-/

namespace Delegation.Text

open Delegation.Address Delegation.Sequence

/-- The character is a digit of the base with the given value; letters are digits in either
case. -/
def IsDigit (base : Nat) (c : Char) (d : Nat) : Prop := hexDigit? c = some d ∧ d < base

/-- The text is made of digits in the base, at least one, and stands for the number. -/
def IsNumeral (base : Nat) (s : List Char) (n : Nat) : Prop :=
  s ≠ [] ∧ ∃ ds, List.Forall₂ (IsDigit base) s ds ∧ ofGroups base ds = n

variable {base d n : Nat} {c : Char} {s : List Char} {ds : List Nat}

/-! ## Digits -/

lemma hexDigit?_lt (h : hexDigit? c = some d) : d < 16 := by
  simp only [hexDigit?, Char.le_def, UInt32.le_iff_toNat_le, Char.toNat_val, Char.reduceToNat] at h
  split_ifs at h with hdecimal hlower hupper <;> cases h <;> omega

lemma isDigit_sixteen_iff : IsDigit 16 c d ↔ hexDigit? c = some d :=
  ⟨And.left, fun h => ⟨h, hexDigit?_lt h⟩⟩

lemma isDigit_ten_iff : IsDigit 10 c d ↔ c.isDigit = true ∧ c.toNat - '0'.toNat = d := by
  simp only [IsDigit, hexDigit?, Char.isDigit, Char.le_def, ge_iff_le, UInt32.le_iff_toNat_le,
    Char.toNat_val, Char.reduceToNat, Bool.and_eq_true, decide_eq_true_eq]
  split_ifs with hdecimal hlower hupper <;>
    simp only [Option.some.injEq, false_and, false_iff] <;> omega

lemma isDigit_digitChar (hd : d < base) (hbase : base ≤ 16) : IsDigit base (Nat.digitChar d) d := by
  have hread : ∀ d < 16, hexDigit? (Nat.digitChar d) = some d := by decide
  exact ⟨hread d (Nat.lt_of_lt_of_le hd hbase), hd⟩

/-! ## Readers -/

lemma forall₂_isDigit_ten_iff :
    List.Forall₂ (IsDigit 10) s ds ↔
      s.all Char.isDigit = true ∧ s.map (fun c => c.toNat - '0'.toNat) = ds := by
  rw [List.all_eq_true]
  exact forall₂_iff_map_eq (R := IsDigit 10) isDigit_ten_iff

theorem readDecimal?_eq_some_iff : readDecimal? s = some n ↔ IsNumeral 10 s n := by
  have hvalue : Nat.ofDigitChars 10 s 0 = ofGroups 10 (s.map fun c => c.toNat - '0'.toNat) := by
    rw [ofGroups, List.foldl_map]
    rfl
  rw [readDecimal?, hvalue]
  simp only [IsNumeral, forall₂_isDigit_ten_iff, and_assoc, exists_and_left, exists_eq_left']
  split_ifs with h
  · simp [h]
  · simp only [false_iff]
    exact fun hs => h ⟨hs.1, hs.2.1⟩

lemma foldlM_hexDigit?_eq_some_iff {start : Nat} :
    s.foldlM (fun n c => (hexDigit? c).map (16 * n + ·)) start = some n ↔
      ∃ ds, List.Forall₂ (IsDigit 16) s ds ∧ ds.foldl (fun n d => 16 * n + d) start = n := by
  induction s generalizing start with
  | nil => simp [eq_comm]
  | cons c s ih =>
    simp only [List.foldlM_cons, Option.bind_eq_bind, Option.bind_eq_some_iff,
      Option.map_eq_some_iff, ih, List.forall₂_cons_left_iff, isDigit_sixteen_iff]
    constructor
    · rintro ⟨_, ⟨d, hd, rfl⟩, ds, hds, rfl⟩
      exact ⟨d :: ds, ⟨d, ds, hd, hds, rfl⟩, rfl⟩
    · rintro ⟨_, ⟨d, ds, hd, hds, rfl⟩, rfl⟩
      exact ⟨_, ⟨d, hd, rfl⟩, ds, hds, rfl⟩

/-- Reading hexadecimal digits accepts the numerals, and no digits at all as zero. -/
theorem readHex?_eq_some_iff (hs : s ≠ []) : readHex? s = some n ↔ IsNumeral 16 s n := by
  rw [readHex?, foldlM_hexDigit?_eq_some_iff, IsNumeral, and_iff_right hs]
  rfl

/-! ## Numerals -/

lemma isNumeral_singleton (h : IsDigit base c d) : IsNumeral base [c] d :=
  ⟨List.cons_ne_nil _ _, [d], .cons h .nil, by simp [ofGroups]⟩

namespace IsNumeral

/-- One more digit at the end. -/
lemma concat (h : IsNumeral base s n) (hc : IsDigit base c d) :
    IsNumeral base (s ++ [c]) (base * n + d) := by
  obtain ⟨-, ds, hds, rfl⟩ := h
  exact ⟨by simp, ds ++ [d], List.rel_append hds (.cons hc .nil),
    ofGroups_append_singleton base ds d⟩

lemma leadingZeros (h : IsNumeral base s n) (hbase : 0 < base) (k : Nat) :
    IsNumeral base (List.replicate k '0' ++ s) n := by
  induction k with
  | zero => exact h
  | succ k ih =>
    obtain ⟨-, ds, hds, rfl⟩ := ih
    exact ⟨List.cons_ne_nil _ _, 0 :: ds, .cons ⟨rfl, hbase⟩ hds, by simp [ofGroups]⟩

lemma leftpad (h : IsNumeral base s n) (hbase : 0 < base) (k : Nat) :
    IsNumeral base (s.leftpad k '0') n :=
  h.leadingZeros hbase _

/-- A numeral has no other characters than digits. -/
lemma not_mem (h : IsNumeral base s n) (hc : hexDigit? c = none) : c ∉ s := by
  obtain ⟨-, ds, hds, -⟩ := h
  intro hmem
  have hdigit := forall_of_forall₂ (p := fun c => hexDigit? c ≠ none) hds
    (fun _ _ hd => by simp [hd.1])
  exact hdigit c hmem hc

end IsNumeral

/-- The digits of a number are a numeral of it. -/
theorem isNumeral_toDigits (hbase : 1 < base) (hle : base ≤ 16) (n : Nat) :
    IsNumeral base (Nat.toDigits base n) n := by
  -- by the digits of the number, from its first one on
  induction n using Nat.base_induction base hbase with
  | single d hd =>
    rw [Nat.toDigits_of_lt_base hd]
    exact isNumeral_singleton (isDigit_digitChar hd hle)
  | digit m d hd hm ih =>
    rw [← Nat.toDigits_append_toDigits hbase hm hd, Nat.toDigits_of_lt_base hd]
    exact ih.concat (isDigit_digitChar hd hle)

end Delegation.Text
