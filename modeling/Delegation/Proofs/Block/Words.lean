import Delegation.Proofs.Block.Tiling
import Delegation.Proofs.Word

/-!
# Tiling in words of 128 bits

The largest tile at an address can be found without a search, from the words for the address and
for the last address of the span: the zeros at the low end of the first say how far it is aligned,
and those at the high end of the number of addresses that are left say how large a block fits.

Only words occur on the way.  The number of addresses that are left is no word if it is `2 ^ 128`,
and so the case is set apart; and the address behind a tile is computed only if the span goes on
there.  So no sum or difference fails, and what is found is the tiling
(`tilesInWords_eq`).

Main result: `tiling_outcome`.
-/

namespace Delegation.Block

open Word

variable {f : Family} {first last next remaining : BitVec 128} {s : Span} {b : Block} {bits : Nat}

/-! ## One tile -/

/-- The greatest number of bits whose block has no more addresses than are left, which are one more
than the given word. -/
def fittingBits? (remaining : BitVec 128) : Option Nat :=
  if remaining = BitVec.allOnes 128 then some 128
  else (sum? remaining 1#128).map fun count => 127 - count.clz.toNat

/-- How far the last address of a block with the given number of host bits is from its first. -/
def lastOffset? (bits : Nat) : Option (BitVec 128) :=
  if 128 ≤ bits then some (BitVec.allOnes 128) else difference? (1#128 <<< bits) 1#128

/-- The first tile of a span, and the address behind it if the span goes on there. -/
def tileInWords (f : Family) (first last : BitVec 128) : Option (Block × Option (BitVec 128)) := do
  let remaining ← difference? last first
  let fitting ← fittingBits? remaining
  let bits := min (min first.ctz.toNat f.width) fitting
  let offset ← lastOffset? bits
  let tileLast ← sum? first offset
  let tile : Block := ⟨f, first.toNat, f.width - bits⟩
  if last ≤ tileLast then some (tile, none)
  else (sum? tileLast 1#128).map fun next => (tile, some next)

lemma exists_fittingBits?_eq (remaining : BitVec 128) :
    ∃ fitting, fittingBits? remaining = some fitting ∧
      ∀ k, 2 ^ k ≤ remaining.toNat + 1 ↔ k ≤ fitting := by
  rw [fittingBits?]
  split_ifs with hall
  · refine ⟨128, rfl, fun k => ?_⟩
    subst hall
    show 2 ^ k ≤ 2 ^ 128 ↔ k ≤ 128
    exact Nat.pow_le_pow_iff_right (by decide)
  · have hlt : remaining.toNat + (1#128).toNat < 2 ^ 128 := by
      have hne : remaining.toNat ≠ 2 ^ 128 - 1 := fun h => hall (BitVec.eq_of_toNat_eq h)
      have := remaining.isLt
      show remaining.toNat + 1 < 2 ^ 128
      omega
    obtain ⟨count, hcount, hnat⟩ := exists_sum?_eq_some hlt
    refine ⟨_, by rw [hcount]; rfl, fun k => ?_⟩
    have hne : count ≠ 0#128 := by
      rintro rfl
      exact Nat.succ_ne_zero _ hnat.symm
    rw [← two_pow_le_toNat_iff hne, hnat]
    rfl

lemma exists_lastOffset?_eq (hbits : bits ≤ 128) :
    ∃ offset, lastOffset? bits = some offset ∧ offset.toNat = 2 ^ bits - 1 := by
  rw [lastOffset?]
  split_ifs with hall
  · obtain rfl : bits = 128 := by omega
    exact ⟨_, rfl, rfl⟩
  · have hpow : (1#128 <<< bits).toNat = 2 ^ bits := by
      rw [BitVec.toNat_shiftLeft]
      show 1 <<< bits % 2 ^ 128 = 2 ^ bits
      rw [Nat.one_shiftLeft]
      exact Nat.mod_eq_of_lt (Nat.pow_lt_pow_right (by decide) (by omega))
    have hpos := Nat.two_pow_pos bits
    obtain ⟨offset, hoffset, hnat⟩ := exists_difference?_eq_some
      (a := 1#128 <<< bits) (b := 1#128) (by rw [hpow]; exact hpos)
    exact ⟨offset, hoffset, by rw [hnat, hpow]; rfl⟩

/-- The block that is found is the largest one that is aligned and fits. -/
lemma min_eq_hostBits {fitting : Nat} (hle : first.toNat ≤ last.toNat)
    (hfitting : ∀ k, 2 ^ k ≤ last.toNat - first.toNat + 1 ↔ k ≤ fitting) :
    min (min first.ctz.toNat f.width) fitting = hostBits first.toNat last.toNat f.width := by
  have hwidth := f.width_le
  apply Nat.le_antisymm
  · refine le_hostBits (by omega) ?_ ?_
    · refine Nat.mod_eq_zero_of_dvd ((two_pow_dvd_toNat_iff ?_).mpr ?_) <;> omega
    · have := (hfitting (min (min first.ctz.toNat f.width) fitting)).mpr (Nat.min_le_right _ _)
      omega
  · obtain ⟨haligned, hfits⟩ := hostBits_fits hle f.width
    have hbits := hostBits_le first.toNat last.toNat f.width
    have hpos := Nat.two_pow_pos (hostBits first.toNat last.toNat f.width)
    refine Nat.le_min_of_le_of_le (Nat.le_min_of_le_of_le ?_ hbits) ?_
    · exact (two_pow_dvd_toNat_iff (by omega)).mp (Nat.dvd_of_mod_eq_zero haligned)
    · exact (hfitting _).mp (by omega)

/-- Finding a tile computes no sum and no difference that is not a word. -/
lemma exists_tileInWords_eq (hle : first.toNat ≤ last.toNat) :
    let bits := hostBits first.toNat last.toNat f.width
    (last.toNat < first.toNat + 2 ^ bits ∧
      tileInWords f first last = some (⟨f, first.toNat, f.width - bits⟩, none)) ∨
    ∃ next : BitVec 128, next.toNat = first.toNat + 2 ^ bits ∧ next.toNat ≤ last.toNat ∧
      tileInWords f first last = some (⟨f, first.toNat, f.width - bits⟩, some next) := by
  intro bits
  have hwidth := f.width_le
  have hbits : bits ≤ f.width := hostBits_le ..
  have hpos := Nat.two_pow_pos bits
  have hfits : first.toNat + 2 ^ bits - 1 ≤ last.toNat := (hostBits_fits hle f.width).2
  have hword := last.isLt
  obtain ⟨remaining, hremaining, hcount⟩ := exists_difference?_eq_some hle
  obtain ⟨fitting, hfitting, hgreatest⟩ := exists_fittingBits?_eq remaining
  rw [hcount] at hgreatest
  obtain ⟨offset, hoffset, hdistance⟩ := exists_lastOffset?_eq (Nat.le_trans hbits hwidth)
  obtain ⟨tileLast, htileLast, hend⟩ := exists_sum?_eq_some (a := first) (b := offset) (by omega)
  have hmin : min (min first.ctz.toNat f.width) fitting = bits := min_eq_hostBits hle hgreatest
  simp only [tileInWords, Option.bind_eq_bind, hremaining, hfitting, Option.bind_some, hmin, hoffset,
    htileLast, BitVec.le_def]
  split_ifs with hdone
  · exact .inl ⟨by omega, rfl⟩
  · obtain ⟨next, hnext, hbehind⟩ := exists_sum?_eq_some (a := tileLast) (b := 1#128)
      (show tileLast.toNat + 1 < 2 ^ 128 by omega)
    have hone : (1#128).toNat = 1 := rfl
    rw [hnext]
    exact .inr ⟨next, by omega, by omega, rfl⟩

/-! ## All tiles -/

lemma lt_of_tileInWords (h : tileInWords f first last = some (b, some next)) :
    first.toNat < next.toNat ∧ next.toNat ≤ last.toNat := by
  simp only [tileInWords, Option.bind_eq_bind, Option.bind_eq_some_iff] at h
  obtain ⟨remaining, -, fitting, -, offset, -, tileLast, hsum, h⟩ := h
  split_ifs at h with hdone
  · cases h
  · obtain ⟨behind, hbehind, h⟩ := Option.map_eq_some_iff.mp h
    obtain rfl : behind = next := Option.some.inj (congrArg Prod.snd h)
    rw [sum?_eq_some_iff] at hsum hbehind
    rw [BitVec.le_def] at hdone
    have hone : (1#128).toNat = 1 := rfl
    omega

/-- The tiles of a span, one after the other. -/
def tilesInWords (f : Family) (first last : BitVec 128) : Option (List Block) :=
  match _ : tileInWords f first last with
  | none => none
  | some (b, none) => some [b]
  | some (b, some next) => (tilesInWords f next last).map (b :: ·)
termination_by last.toNat - first.toNat
decreasing_by
  have := lt_of_tileInWords ‹_›
  omega

lemma tilesInWords_of_end (h : tileInWords f first last = some (b, none)) :
    tilesInWords f first last = some [b] := by
  rw [tilesInWords]
  split <;> simp_all

lemma tilesInWords_of_next (h : tileInWords f first last = some (b, some next)) :
    tilesInWords f first last = (tilesInWords f next last).map (b :: ·) := by
  rw [tilesInWords]
  split <;> simp_all

/-- The tiles that are found in words are those of the tiling. -/
theorem tilesInWords_eq {f : Family} {first last : BitVec 128} (hle : first.toNat ≤ last.toNat) :
    tilesInWords f first last = some (tiles f first.toNat last.toNat) := by
  rw [tiles, if_pos hle]
  dsimp only
  rcases exists_tileInWords_eq hle with ⟨hend, htile⟩ | ⟨next, hnext, hmore, htile⟩
  · -- nothing is left behind the tile
    rw [tilesInWords_of_end htile, tiles, if_neg (Nat.not_le_of_lt hend)]
  · rw [tilesInWords_of_next htile, tilesInWords_eq hmore, hnext]
    rfl
termination_by last.toNat - first.toNat
decreasing_by
  have := Nat.two_pow_pos (hostBits first.toNat last.toNat f.width)
  omega

/-! ## What a tiling results in -/

/-- A block that ends within its family has the addresses up to its last one. -/
lemma IsAligned.span_eq (hb : b.IsAligned f) (hlast : b.last ≤ f.maxAddress) :
    b.span = .ok ⟨b.address, b.last⟩ := by
  obtain ⟨rfl, hlength, -⟩ := hb
  rw [span, Span.ofPrefix_eq_ok_iff]
  exact ⟨hlength, hlast, rfl⟩

lemma IsTiling.ne_nil {first last : Nat} {blocks : List Block} (h : IsTiling f first last blocks) :
    blocks ≠ [] := by
  cases h with
  | single => exact List.cons_ne_nil _ _
  | cons => exact List.cons_ne_nil _ _

/-- A bound that is no address of the family is refused, and then a span that ends before it starts.
Any other span is tiled by aligned blocks, each of which has a span of its own, and the tiles can be
found one by one without leaving the words of 128 bits. -/
theorem tiling_outcome (f : Family) (s : Span) :
    (f.maxAddress < s.first ∨ f.maxAddress < s.last →
      ∃ a, [s.first, s.last].find? (f.maxAddress < ·) = some a ∧
        tiling f s = .error (.rangeOverflow f a
          ("value " ++ toString a ++ " exceeds " ++ toString f.width ++ "-bit width"))) ∧
    (s.first ≤ f.maxAddress → s.last < s.first →
      tiling f s = .error (.invalidRange f s.first s.last)) ∧
    (s.first ≤ s.last → s.last ≤ f.maxAddress →
      ∃ blocks, tiling f s = .ok blocks ∧ blocks ≠ [] ∧ IsTiling f s.first s.last blocks ∧
        (∀ b ∈ blocks, b.span = .ok ⟨b.address, b.last⟩) ∧
        tilesInWords f (.ofNat 128 s.first) (.ofNat 128 s.last) = some blocks) := by
  refine ⟨fun hbeyond => ?_, fun hfirst hreversed => ?_, fun hle hlast => ?_⟩
  · obtain ⟨a, ha, hcheck⟩ := Span.exists_check_eq_rangeOverflow hbeyond
    exact ⟨a, ha, by rw [tiling, hcheck]; rfl⟩
  · rw [tiling, Span.check_eq_invalidRange hfirst hreversed]
    rfl
  · have htiling := isTiling_tiles (f := f) hle
    refine ⟨_, tiling_eq_ok hle hlast, htiling.ne_nil, htiling, fun b hb => ?_, ?_⟩
    · exact (htiling.isAligned b hb).span_eq (Nat.le_trans (htiling.bounds b hb).2 hlast)
    · have hword : f.maxAddress < 2 ^ 128 := by cases f <;> decide
      have hfirstNat : (BitVec.ofNat 128 s.first).toNat = s.first := Nat.mod_eq_of_lt (by omega)
      have hlastNat : (BitVec.ofNat 128 s.last).toNat = s.last := Nat.mod_eq_of_lt (by omega)
      rw [tilesInWords_eq (by omega), hfirstNat, hlastNat]

/-- The whole IPv6 space is one block, and its number of addresses is no word. -/
example : tiling .ipv6 ⟨0, 2 ^ 128 - 1⟩ = .ok [⟨.ipv6, 0, 0⟩] := by cbv

end Delegation.Block
