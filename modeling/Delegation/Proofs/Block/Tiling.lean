import Delegation.Block.Tiling
import Delegation.Proofs.Sequence

/-!
# Spans made up of blocks

A tiling of a span is a list of aligned blocks of which the first begins where the span begins, each
other one begins right behind the one before it, and the last ends where the span ends (`IsTiling`).
So the blocks ascend, share no address and leave none out.

The tiling that is computed for a span takes the largest block that fits at each place.  A block
that fits never ends behind the span, so the last one of them ends with it.

Main result: `exists_tiling_eq_ok`.
-/

namespace Delegation.Block

open Sequence

/-- The number of addresses of a block. -/
def size (b : Block) : Nat := 2 ^ (b.family.width - b.length)

/-- The last address of a block. -/
def last (b : Block) : Nat := b.address + b.size - 1

/-- The addresses of the block are those of its family that share its first bits. -/
structure IsAligned (f : Family) (b : Block) : Prop where
  family_eq : b.family = f
  length_le : b.length ≤ f.width
  size_dvd : b.size ∣ b.address

/-- The blocks are aligned, follow each other without a gap, and reach from `first` to `last`. -/
inductive IsTiling (f : Family) : Nat → Nat → List Block → Prop where
  | single {b : Block} {first last : Nat} (hb : b.IsAligned f) (hfirst : b.address = first)
      (hlast : b.last = last) : IsTiling f first last [b]
  | cons {b : Block} {bs : List Block} {first last : Nat} (hb : b.IsAligned f)
      (hfirst : b.address = first) (hrest : IsTiling f (b.last + 1) last bs) :
      IsTiling f first last (b :: bs)

variable {f : Family} {s : Span} {b : Block} {bs : List Block} {first last : Nat}

lemma size_pos (b : Block) : 0 < b.size := Nat.two_pow_pos _

lemma address_le_last (b : Block) : b.address ≤ b.last := by
  have := b.size_pos
  rw [Block.last]
  omega

namespace IsTiling

lemma isAligned (h : IsTiling f first last bs) : ∀ b ∈ bs, b.IsAligned f := by
  induction h with
  | single hb => simpa using hb
  | cons hb _ _ ih => simpa using ⟨hb, ih⟩

lemma first_le_last (h : IsTiling f first last bs) : first ≤ last := by
  induction h with
  | @single b _ _ _ hfirst hlast =>
    rw [← hfirst, ← hlast]
    exact b.address_le_last
  | @cons b _ _ _ _ hfirst _ ih =>
    have := b.address_le_last
    omega

/-- No block leaves the span. -/
lemma bounds (h : IsTiling f first last bs) : ∀ b ∈ bs, first ≤ b.address ∧ b.last ≤ last := by
  induction h with
  | single _ hfirst hlast => simp [hfirst, hlast]
  | @cons b _ _ _ _ hfirst hrest ih =>
    have hb := b.address_le_last
    have hle := hrest.first_le_last
    intro c hc
    rcases List.mem_cons.mp hc with rfl | hc
    · omega
    · have := ih c hc
      omega

end IsTiling

/-! ## The tiling that is computed -/

/-- The block of `2 ^ k` addresses. -/
lemma last_eq_of_length {k : Nat} (hk : k ≤ f.width) :
    (⟨f, first, f.width - k⟩ : Block).last = first + 2 ^ k - 1 := by
  rw [Block.last, size, Nat.sub_sub_self hk]

/-- The largest block that fits is aligned. -/
lemma isAligned_of_hostBits (h : first ≤ last) :
    (⟨f, first, f.width - hostBits first last f.width⟩ : Block).IsAligned f where
  family_eq := rfl
  length_le := Nat.sub_le _ _
  size_dvd := by
    rw [size, Nat.sub_sub_self (hostBits_le first last f.width)]
    exact Nat.dvd_of_mod_eq_zero (hostBits_fits h f.width).1

/-- The largest fitting blocks one after the other make up the whole. -/
theorem isTiling_tiles (h : first ≤ last) : IsTiling f first last (tiles f first last) := by
  fun_induction tiles f first last with
  | case1 first h bits ih =>
    have haligned := isAligned_of_hostBits (f := f) h
    have hend : (⟨f, first, f.width - bits⟩ : Block).last = first + 2 ^ bits - 1 :=
      last_eq_of_length (hostBits_le first last f.width)
    have hfits : first + 2 ^ bits - 1 ≤ last := (hostBits_fits h f.width).2
    have hpos : 0 < 2 ^ bits := Nat.two_pow_pos bits
    by_cases hmore : first + 2 ^ bits ≤ last
    · refine .cons haligned rfl ?_
      rw [hend, Nat.sub_add_cancel (by omega)]
      exact ih hmore
    · -- the block ends with the span, so nothing is left
      rw [tiles, if_neg hmore]
      exact .single haligned rfl (by rw [hend]; omega)
  | case2 first hempty => exact absurd h hempty

lemma tiling_eq_ok (hle : s.first ≤ s.last) (hlast : s.last ≤ f.maxAddress) :
    tiling f s = .ok (tiles f s.first s.last) := by
  rw [tiling, Span.check_eq_ok_iff.mpr ⟨hle, hlast, rfl⟩]
  rfl

/-- A span within the family is made up of blocks. -/
theorem exists_tiling_eq_ok (hle : s.first ≤ s.last) (hlast : s.last ≤ f.maxAddress) :
    ∃ blocks, tiling f s = .ok blocks ∧ IsTiling f s.first s.last blocks :=
  ⟨tiles f s.first s.last, tiling_eq_ok hle hlast, isTiling_tiles hle⟩

end Delegation.Block
