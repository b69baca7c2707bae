import Delegation.Proofs.Block.Cover
import Delegation.Proofs.Block.Length
import Delegation.Proofs.Extent

/-!
# Exact spans and single tiles

A span is exact if the block that encloses it has no more addresses than the span.  That depends on
the number of addresses only, which has to be a power of two.  The block is put where the span
starts, be that a place for a block of its size or not, and if it reaches beyond the last address of
the family, then it is larger than the span (`isExact_eq_false`).  The answer is found in words,
where a sum that leaves the family is an answer and no failure (`isExactInWords_eq`).

A tiling has aligned blocks only.  It is a single block if the span is exact and starts at a
multiple of its size (`length_tiles_eq_one_iff`), and the block is then the one that encloses the
span (`IsTiling.enclosing_of_singleton`).

Main result: `exact_and_single_tile`.
-/

namespace Delegation.Block

open Word

variable {f : Family} {s : Span} {b : Block} {first last : BitVec 128}

/-! ## Exact spans -/

/-- Whether a span is exact, found in words. -/
def isExactInWords (f : Family) (first last : BitVec 128) : Option (Except Fault Bool) := do
  let length ← lengthInWords f first last
  let span ← Span.ofPrefixInWords f first length
  return match span with
    | .ok t => .ok (t == ⟨first.toNat, last.toNat⟩)
    | .error (.rangeOverflow ..) => .ok false
    | .error fault => .error fault

/-- In words the same is found as in numbers without a bound. -/
theorem isExactInWords_eq (hle : first.toNat ≤ last.toNat) (hlast : last.toNat ≤ f.maxAddress) :
    isExactInWords f first last = some (isExact f ⟨first.toNat, last.toNat⟩) := by
  obtain ⟨length, hlength, hnat⟩ := exists_lengthInWords_eq hle hlast
  rw [isExactInWords, hlength, isExact, enclosing_eq_ok_iff.mpr ⟨hle, hlast, rfl⟩]
  simp only [Option.bind_eq_bind, Option.bind_some, Span.ofPrefixInWords_eq, span, hnat]
  rfl

/-- A span whose block reaches beyond the last address is smaller than the block. -/
lemma isExact_eq_false (hb : enclosing f s = .ok b) (hbeyond : f.maxAddress < b.last) :
    isExact f s = .ok false := by
  obtain ⟨hle, hlast, rfl⟩ := enclosing_eq_ok_iff.mp hb
  rw [isExact, hb]
  dsimp only
  rw [span_eq_of_length_le (Nat.le_trans hle hlast) (Nat.sub_le _ _), if_neg]
  exact Nat.not_le_of_lt hbeyond

/-! ## Single tiles -/

lemma isTiling_singleton_iff {first last : Nat} :
    IsTiling f first last [b] ↔ b.IsAligned f ∧ b.address = first ∧ b.last = last := by
  constructor
  · intro h
    cases h with
    | single hb hfirst hlast => exact ⟨hb, hfirst, hlast⟩
    | cons _ _ hrest => exact absurd rfl hrest.ne_nil
  · rintro ⟨hb, hfirst, hlast⟩
    exact .single hb hfirst hlast

/-- A block has one address more than lie between its first and its last one. -/
lemma size_eq (b : Block) : b.size = b.last - b.address + 1 := by
  have := b.size_pos
  rw [Block.last]
  omega

/-- The only tile of a span encloses it. -/
lemma IsTiling.enclosing_of_singleton (h : IsTiling f s.first s.last [b])
    (hlast : s.last ≤ f.maxAddress) : enclosing f s = .ok b := by
  obtain ⟨hb, hfirst, hend⟩ := isTiling_singleton_iff.mp h
  have hspan := hb.span_eq (hend ▸ hlast)
  rw [span, hb.family_eq, hfirst, hend] at hspan
  rw [enclosing_of_ofPrefix hspan, ← hfirst, ← hb.family_eq]

/-- A span has one tile if it starts at a multiple of its size, which is a power of two. -/
lemma length_tiles_eq_one_iff (hle : s.first ≤ s.last) (hlast : s.last ≤ f.maxAddress) :
    (tiles f s.first s.last).length = 1 ↔
      (s.last - s.first + 1).isPowerOfTwo ∧ s.last - s.first + 1 ∣ s.first := by
  have htiling := isTiling_tiles (f := f) hle
  constructor
  · intro hone
    obtain ⟨b, hb⟩ := List.length_eq_one_iff.mp hone
    rw [hb, isTiling_singleton_iff] at htiling
    obtain ⟨haligned, hfirst, hend⟩ := htiling
    rw [← hfirst, ← hend, ← b.size_eq]
    exact ⟨⟨_, rfl⟩, haligned.size_dvd⟩
  · rintro ⟨⟨k, hk⟩, hdvd⟩
    rw [hk] at hdvd
    have hwidth : 2 ^ k ≤ 2 ^ f.width := by
      have := Family.le_maxAddress_iff.mp hlast
      omega
    have hk' : k ≤ f.width := (Nat.pow_le_pow_iff_right (by decide)).mp hwidth
    have hfew := length_tiles_block (f := f) hk' hdvd (show s.last = s.first + 2 ^ k - 1 by omega)
    have hsome := List.length_pos_iff.mpr htiling.ne_nil
    omega

/-! ## Spans within the family -/

/-- A span within the family has an enclosing block and a tiling, and whether it is exact can always
be said, also in words: it is if the number of its addresses is a power of two, and it is not if the
enclosing block reaches beyond the last address.  The span has a single tile if it also starts at a
multiple of that number, and the tile is then the enclosing block. -/
theorem exact_and_single_tile (hle : s.first ≤ s.last) (hlast : s.last ≤ f.maxAddress) :
    ∃ b exact blocks, enclosing f s = .ok b ∧ isExact f s = .ok exact ∧ tiling f s = .ok blocks ∧
      (exact = true ↔ (s.last - s.first + 1).isPowerOfTwo) ∧
      (f.maxAddress < b.last → exact = false) ∧
      isExactInWords f (.ofNat 128 s.first) (.ofNat 128 s.last) = some (.ok exact) ∧
      (blocks.length = 1 ↔
        (s.last - s.first + 1).isPowerOfTwo ∧ s.last - s.first + 1 ∣ s.first) ∧
      (blocks.length = 1 → blocks = [b]) := by
  obtain ⟨exact, hexact, hpower⟩ := exists_isExact_eq_ok hle hlast
  have hb := enclosing_eq_ok_iff.mpr ⟨hle, hlast, rfl⟩
  have htiling := isTiling_tiles (f := f) hle
  refine ⟨_, exact, _, hb, hexact, tiling_eq_ok hle hlast, hpower, fun hbeyond => ?_, ?_,
    length_tiles_eq_one_iff hle hlast, fun hone => ?_⟩
  · exact Except.ok.inj (hexact.symm.trans (isExact_eq_false hb hbeyond))
  · have hword := f.maxAddress_lt_two_pow
    have hfirstNat := toNat_ofNat_of_lt (show s.first < 2 ^ 128 by omega)
    have hlastNat := toNat_ofNat_of_lt (show s.last < 2 ^ 128 by omega)
    rw [isExactInWords_eq (by omega) (by omega), hfirstNat, hlastNat, hexact]
  · obtain ⟨tile, htile⟩ := List.length_eq_one_iff.mp hone
    rw [htile] at htiling
    rw [htile, Except.ok.inj (hb.symm.trans (htiling.enclosing_of_singleton hlast))]

/-- As many addresses as a block of length 24 has, but not from a multiple of their number on. -/
theorem exact_and_single_tile_unaligned :
    isExact .ipv4 ⟨0x0a000080, 0x0a00017f⟩ = .ok true ∧
      ∃ blocks, tiling .ipv4 ⟨0x0a000080, 0x0a00017f⟩ = .ok blocks ∧ blocks.length ≠ 1 := by
  obtain ⟨b, exact, blocks, -, hexact, htiling, hpower, -, -, hone, -⟩ :=
    exact_and_single_tile (f := .ipv4) (s := ⟨0x0a000080, 0x0a00017f⟩) (by decide) (by decide)
  refine ⟨?_, blocks, htiling, fun hsingle => ?_⟩
  · rw [hexact, hpower.mpr ⟨8, rfl⟩]
  · exact absurd (hone.mp hsingle).2 (by decide)

/-- The block that encloses the last three addresses reaches beyond the last one. -/
example : isExact .ipv4 ⟨2 ^ 32 - 3, 2 ^ 32 - 1⟩ = .ok false := by decide

end Delegation.Block
