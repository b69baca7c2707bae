import Delegation.Proofs.Block.Tiling
import Mathlib.Data.Nat.Basic
import Mathlib.Tactic.SplitIfs

/-!
# The fewest blocks for a span

A cover of a span is a list of aligned blocks that have the addresses of the span between them, in
any order and with any overlaps (`IsCover`).  A tiling is a cover, and the one that is computed for
a span has the fewest blocks of all covers (`length_tiles_le`).

Aligned blocks that share an address lie one inside the other.  So each block of a cover that meets
the largest block that fits at the start of the span lies inside it, and all others make up what is
left of the span behind it.

Because no cover is shorter, any cover bounds the number of tiles.  Inside an aligned block of
`2 ^ n` addresses, the blocks from its start on need at most `n` tiles, and so do those up to its
end; a span in the middle is cut where both halves of the block meet (`length_tiles_inside`).

Main result: `tiling_has_fewest_blocks`.
-/

namespace Delegation.Block

open Sequence

/-- The blocks are aligned, and their addresses are those from `first` to `last`. -/
structure IsCover (f : Family) (first last : Nat) (bs : List Block) : Prop where
  isAligned : ∀ b ∈ bs, b.IsAligned f
  exists_mem_iff : ∀ a, (∃ b ∈ bs, b.address ≤ a ∧ a ≤ b.last) ↔ first ≤ a ∧ a ≤ last

variable {f : Family} {s : Span} {b c : Block} {bs cs : List Block} {first mid last k n p : Nat}

lemma last_lt_add_size (b : Block) : b.last < b.address + b.size := by
  have := b.size_pos
  rw [Block.last]
  omega

/-! ## Aligned blocks -/

lemma size_dvd_size (hb : b.IsAligned f) (hc : c.IsAligned f) (hsize : b.size ≤ c.size) :
    b.size ∣ c.size := by
  rw [size, size, hb.family_eq, hc.family_eq] at *
  exact Nat.pow_dvd_pow 2 ((Nat.pow_le_pow_iff_right (by decide)).mp hsize)

/-- Of two aligned blocks that share an address, the larger one encloses the other. -/
theorem IsAligned.encloses (hb : b.IsAligned f) (hc : c.IsAligned f) (hsize : b.size ≤ c.size)
    (hbc : b.address ≤ c.last) (hcb : c.address ≤ b.last) :
    c.address ≤ b.address ∧ b.last ≤ c.last := by
  have hdvd := size_dvd_size hb hc hsize
  have hblast := b.last_lt_add_size
  have hclast := c.last_lt_add_size
  -- both blocks start and end at multiples of the smaller size
  have hstart : c.address ≤ b.address :=
    Nat.le_of_lt_add_of_dvd (by omega) (Nat.dvd_trans hdvd hc.size_dvd) hb.size_dvd
  have hend : b.address + b.size ≤ c.address + c.size :=
    Nat.le_of_lt_add_of_dvd (by omega) (Nat.dvd_add hb.size_dvd (Nat.dvd_refl _))
      (Nat.dvd_add (Nat.dvd_trans hdvd hc.size_dvd) hdvd)
  refine ⟨hstart, ?_⟩
  rw [Block.last, Block.last]
  omega

/-- No aligned block that starts where the span starts and stays inside is larger than the first
tile. -/
lemma IsAligned.size_le_two_pow (hb : b.IsAligned f) (hlast : b.last ≤ last) :
    b.size ≤ 2 ^ hostBits b.address last f.width := by
  have hfits : f.width - b.length ≤ hostBits b.address last f.width := by
    refine le_hostBits (Nat.sub_le _ _) ?_ ?_
    · rw [← hb.family_eq]
      exact Nat.mod_eq_zero_of_dvd hb.size_dvd
    · rw [← hb.family_eq]
      exact hlast
  rw [size, hb.family_eq]
  exact Nat.pow_le_pow_right (by decide) hfits

/-! ## Covers -/

namespace IsCover

lemma nil (h : last < first) : IsCover f first last [] := by
  refine ⟨by simp, ?_⟩
  intro a
  simp only [List.not_mem_nil, false_and, exists_false, false_iff]
  omega

lemma singleton (hb : b.IsAligned f) : IsCover f b.address b.last [b] := by
  refine ⟨by simpa using hb, ?_⟩
  simp

/-- Covers of two spans that follow each other. -/
lemma append (h : IsCover f first mid bs) (h' : IsCover f (mid + 1) last cs)
    (hfirst : first ≤ mid + 1) (hlast : mid ≤ last) : IsCover f first last (bs ++ cs) := by
  constructor
  · intro b hb
    rcases List.mem_append.mp hb with hb | hb
    · exact h.isAligned b hb
    · exact h'.isAligned b hb
  · intro a
    have hleft := h.exists_mem_iff a
    have hright := h'.exists_mem_iff a
    simp only [List.mem_append, or_and_right, exists_or]
    rw [hleft, hright]
    omega

/-- No block leaves the span. -/
lemma bounds (h : IsCover f first last bs) (hb : b ∈ bs) : first ≤ b.address ∧ b.last ≤ last := by
  have hle := b.address_le_last
  have hfirst := (h.exists_mem_iff b.address).mp ⟨b, hb, Nat.le_refl _, hle⟩
  have hlast := (h.exists_mem_iff b.last).mp ⟨b, hb, hle, Nat.le_refl _⟩
  exact ⟨hfirst.1, hlast.2⟩

/-- A block that meets the first tile lies inside it. -/
lemma last_le_of_meets (h : IsCover f first last bs) (hb : b ∈ bs)
    (hmeets : b.address < first + 2 ^ hostBits first last f.width) :
    b.last < first + 2 ^ hostBits first last f.width := by
  have hle := b.address_le_last
  obtain ⟨hfirst, hlast⟩ := h.bounds hb
  have haligned := h.isAligned b hb
  have hpos := Nat.two_pow_pos (hostBits first last f.width)
  obtain ⟨tile, htile, haddress, htileLast⟩ : ∃ tile : Block, tile.IsAligned f ∧
      tile.address = first ∧ tile.last = first + 2 ^ hostBits first last f.width - 1 :=
    ⟨_, isAligned_of_hostBits (by omega), rfl, last_eq_of_length (hostBits_le ..)⟩
  rcases Nat.le_total b.size tile.size with hsize | hsize
  · have := (haligned.encloses htile hsize (by omega) (by omega)).2
    omega
  · -- the block starts with the span, and is no larger than the tile
    have hstart := (htile.encloses haligned hsize (by omega) (by omega)).1
    have heq : b.address = first := by omega
    have hroom := haligned.size_le_two_pow hlast
    have := b.last_lt_add_size
    rw [heq] at hroom this
    omega

/-- The blocks behind the first tile cover what is left of the span. -/
lemma rest (h : IsCover f first last bs) :
    IsCover f (first + 2 ^ hostBits first last f.width) last
      (bs.filter fun b => first + 2 ^ hostBits first last f.width ≤ b.address) := by
  constructor
  · intro b hb
    exact h.isAligned b (List.mem_of_mem_filter hb)
  · intro a
    simp only [List.mem_filter, decide_eq_true_eq]
    constructor
    · rintro ⟨b, ⟨hb, hbehind⟩, hba, hab⟩
      have := (h.bounds hb).2
      omega
    · rintro ⟨hbehind, hlast⟩
      have hpos := Nat.two_pow_pos (hostBits first last f.width)
      obtain ⟨b, hb, hba, hab⟩ := (h.exists_mem_iff a).mpr ⟨by omega, hlast⟩
      refine ⟨b, ⟨hb, ?_⟩, hba, hab⟩
      by_contra hmeets
      have := h.last_le_of_meets hb (Nat.lt_of_not_le hmeets)
      omega

/-- Some block holds the first address. -/
lemma length_rest_lt (h : IsCover f first last bs) (hle : first ≤ last) :
    (bs.filter fun b => first + 2 ^ hostBits first last f.width ≤ b.address).length <
      bs.length := by
  rw [List.length_filter_lt_length_iff_exists]
  obtain ⟨b, hb, hfirst, -⟩ := (h.exists_mem_iff first).mpr ⟨Nat.le_refl _, hle⟩
  have hpos := Nat.two_pow_pos (hostBits first last f.width)
  exact ⟨b, hb, by simp only [decide_eq_true_eq]; omega⟩

end IsCover

lemma IsTiling.isCover (h : IsTiling f first last bs) : IsCover f first last bs := by
  induction h with
  | @single b _ _ hb hfirst hlast =>
    rw [← hfirst, ← hlast]
    exact .singleton hb
  | @cons b _ _ _ hb hfirst hrest ih =>
    have hle := b.address_le_last
    have hrestLe := hrest.first_le_last
    rw [← hfirst]
    exact (IsCover.singleton hb).append ih (by omega) (by omega)

/-! ## The number of tiles -/

/-- What is computed for a span covers it, also if the span is empty. -/
lemma isCover_tiles (f : Family) (first last : Nat) : IsCover f first last (tiles f first last) := by
  rcases Nat.lt_or_ge last first with hempty | hle
  · rw [tiles, if_neg (by omega)]
    exact .nil hempty
  · exact (isTiling_tiles hle).isCover

/-- No cover has fewer blocks than there are tiles. -/
theorem length_tiles_le {f : Family} {first last : Nat} {bs : List Block}
    (h : IsCover f first last bs) : (tiles f first last).length ≤ bs.length := by
  have hpos := Nat.two_pow_pos (hostBits first last f.width)
  rw [tiles]
  split_ifs with hle
  · -- the first tile stands for all blocks that meet it
    have hrest := length_tiles_le h.rest
    have hless := h.length_rest_lt hle
    exact Nat.lt_of_le_of_lt hrest hless
  · exact Nat.zero_le _
termination_by last + 1 - first

/-- A span may be cut before it is covered. -/
lemma length_tiles_le_add (hfirst : first ≤ mid) (hlast : mid ≤ last + 1) :
    (tiles f first last).length ≤
      (tiles f first (mid - 1)).length + (tiles f mid last).length := by
  cases mid with
  | zero =>
    obtain rfl := Nat.le_zero.mp hfirst
    exact Nat.le_add_left _ _
  | succ before =>
    rw [← List.length_append]
    exact length_tiles_le ((isCover_tiles f first before).append
      (isCover_tiles f (before + 1) last) hfirst (Nat.le_of_succ_le_succ hlast))

/-- An aligned block needs one tile. -/
lemma length_tiles_block (hk : k ≤ f.width) (hp : 2 ^ k ∣ p) (hlast : last = p + 2 ^ k - 1) :
    (tiles f p last).length ≤ 1 := by
  have hblock : (⟨f, p, f.width - k⟩ : Block).IsAligned f :=
    ⟨rfl, Nat.sub_le _ _, by rwa [size, Nat.sub_sub_self hk]⟩
  have hcover := IsCover.singleton hblock
  rw [last_eq_of_length hk, ← hlast] at hcover
  exact length_tiles_le hcover

/-- From the start of an aligned block to some place inside it. -/
lemma length_tiles_from_start (hn : n ≤ f.width) (hp : 2 ^ n ∣ p) (hlast : last + 1 < p + 2 ^ n) :
    (tiles f p last).length ≤ n := by
  induction n generalizing p with
  | zero =>
    rw [tiles, if_neg (by omega)]
    exact Nat.zero_le _
  | succ n ih =>
    have hhalf : 2 ^ n ∣ p := Nat.dvd_trans (Nat.pow_dvd_pow 2 (Nat.le_succ n)) hp
    rw [Nat.pow_succ] at hlast
    rcases Nat.lt_or_ge (last + 1) (p + 2 ^ n) with hleft | hright
    · exact Nat.le_succ_of_le (ih (by omega) hhalf hleft)
    · -- the whole left half is one tile
      have hcut := length_tiles_le_add (f := f) (Nat.le_add_right p (2 ^ n)) hright
      have hone : (tiles f p (p + 2 ^ n - 1)).length ≤ 1 :=
        length_tiles_block (Nat.le_of_succ_le hn) hhalf rfl
      have hrest : (tiles f (p + 2 ^ n) last).length ≤ n :=
        ih (by omega) (Nat.dvd_add hhalf (Nat.dvd_refl _)) (by omega)
      omega

/-- From some place inside an aligned block to its end. -/
lemma length_tiles_to_end (hn : n ≤ f.width) (hp : 2 ^ n ∣ p) (hfirst : p < first)
    (hlast : last + 1 = p + 2 ^ n) : (tiles f first last).length ≤ n := by
  induction n generalizing p last with
  | zero =>
    rw [tiles, if_neg (by omega)]
    exact Nat.zero_le _
  | succ n ih =>
    have hhalf : 2 ^ n ∣ p := Nat.dvd_trans (Nat.pow_dvd_pow 2 (Nat.le_succ n)) hp
    have hmiddle : 2 ^ n ∣ p + 2 ^ n := Nat.dvd_add hhalf (Nat.dvd_refl _)
    have hpos := Nat.two_pow_pos n
    rw [Nat.pow_succ] at hlast
    rcases Nat.lt_or_ge (p + 2 ^ n) first with hright | hleft
    · exact Nat.le_succ_of_le (ih (by omega) hmiddle hright (by omega))
    · -- the whole right half is one tile
      have hcut := length_tiles_le_add (f := f) hleft (show p + 2 ^ n ≤ last + 1 by omega)
      have hone : (tiles f (p + 2 ^ n) last).length ≤ 1 :=
        length_tiles_block (Nat.le_of_succ_le hn) hmiddle (by omega)
      have hrest : (tiles f first (p + 2 ^ n - 1)).length ≤ n :=
        ih (by omega) hhalf hfirst (by omega)
      omega

/-- Across the middle of an aligned block. -/
lemma length_tiles_across (hn : n + 1 ≤ f.width) (hp : 2 ^ (n + 1) ∣ p) (hfirst : p ≤ first)
    (hleft : first < p + 2 ^ n) (hright : p + 2 ^ n ≤ last) (hlast : last < p + 2 ^ (n + 1)) :
    (tiles f first last).length ≤ max 1 (2 * n) := by
  have hhalf : 2 ^ n ∣ p := Nat.dvd_trans (Nat.pow_dvd_pow 2 (Nat.le_succ n)) hp
  have hdouble : 2 ^ (n + 1) = 2 ^ n + 2 ^ n := by rw [Nat.pow_succ, Nat.mul_two]
  rcases Nat.eq_or_lt_of_le hfirst with rfl | hinside
  · rcases Nat.lt_or_ge (last + 1) (p + 2 ^ (n + 1)) with hshort | hwhole
    · -- a half of one address cannot be left unfinished
      have htiles := length_tiles_from_start hn hp hshort
      have hne : n ≠ 0 := by
        rintro rfl
        omega
      omega
    · have hone : (tiles f p last).length ≤ 1 := length_tiles_block hn hp (by omega)
      omega
  · rcases Nat.lt_or_ge (last + 1) (p + 2 ^ (n + 1)) with hshort | hwhole
    · have hcut := length_tiles_le_add (f := f) (Nat.le_of_lt hleft) (Nat.le_succ_of_le hright)
      have hbefore : (tiles f first (p + 2 ^ n - 1)).length ≤ n :=
        length_tiles_to_end (by omega) hhalf hinside (by omega)
      have hbehind : (tiles f (p + 2 ^ n) last).length ≤ n :=
        length_tiles_from_start (by omega) (Nat.dvd_add hhalf (Nat.dvd_refl _)) (by omega)
      omega
    · have htiles : (tiles f first last).length ≤ n + 1 :=
        length_tiles_to_end hn hp hinside (by omega)
      have hne : n ≠ 0 := by
        rintro rfl
        omega
      omega

/-- Somewhere inside an aligned block. -/
lemma length_tiles_inside (hn : n ≤ f.width) (hp : 2 ^ n ∣ p) (hfirst : p ≤ first)
    (hlast : last < p + 2 ^ n) : (tiles f first last).length ≤ max 1 (2 * n - 2) := by
  induction n generalizing p with
  | zero =>
    rcases Nat.lt_or_ge last first with hempty | hle
    · rw [tiles, if_neg (by omega)]
      exact Nat.zero_le _
    · exact length_tiles_block (k := 0) (Nat.zero_le _) (Nat.one_dvd _) (by omega)
  | succ n ih =>
    have hhalf : 2 ^ n ∣ p := Nat.dvd_trans (Nat.pow_dvd_pow 2 (Nat.le_succ n)) hp
    rcases Nat.lt_or_ge last (p + 2 ^ n) with hleft | hbeyond
    · have := ih (by omega) hhalf hfirst hleft
      omega
    · rcases Nat.lt_or_ge first (p + 2 ^ n) with hacross | hright
      · exact length_tiles_across hn hp hfirst hacross hbeyond hlast
      · rw [Nat.pow_succ] at hlast
        have := ih (by omega) (Nat.dvd_add hhalf (Nat.dvd_refl _)) hright (by omega)
        omega

/-! ## Tilings of spans within the family -/

/-- A span within the family has a tiling.  No cover of the span has fewer blocks, and there are at
most two for each bit of an address but the last one. -/
theorem tiling_has_fewest_blocks (hle : s.first ≤ s.last) (hlast : s.last ≤ f.maxAddress) :
    ∃ blocks, tiling f s = .ok blocks ∧ IsCover f s.first s.last blocks ∧
      (∀ cover, IsCover f s.first s.last cover → blocks.length ≤ cover.length) ∧
      blocks.length ≤ 2 * f.width - 2 := by
  refine ⟨tiles f s.first s.last, tiling_eq_ok hle hlast, isCover_tiles ..,
    fun cover => length_tiles_le, ?_⟩
  -- all addresses of the family are one aligned block
  have htiles := length_tiles_inside (f := f) (p := 0) (Nat.le_refl _) (Nat.dvd_zero _)
    (Nat.zero_le s.first) (by rw [Nat.zero_add]; exact Family.le_maxAddress_iff.mp hlast)
  cases f with
  | ipv4 => exact htiles
  | ipv6 => exact htiles

/-- All addresses but the first and the last take two blocks of each size. -/
theorem tiling_has_fewest_blocks_inner :
    ∃ blocks, tiling .ipv4 ⟨1, 2 ^ 32 - 2⟩ = .ok blocks ∧ blocks.length = 62 ∧
      ∀ cover, IsCover .ipv4 1 (2 ^ 32 - 2) cover → 62 ≤ cover.length := by
  obtain ⟨blocks, hok, -, hfewest, -⟩ :=
    tiling_has_fewest_blocks (f := .ipv4) (s := ⟨1, 2 ^ 32 - 2⟩) (by decide) (by decide)
  have hlength : (tiling .ipv4 ⟨1, 2 ^ 32 - 2⟩).map List.length = .ok 62 := by cbv
  rw [hok] at hlength
  obtain hlength : blocks.length = 62 := Except.ok.inj hlength
  exact ⟨blocks, hok, hlength, fun cover hcover => hlength ▸ hfewest cover hcover⟩

end Delegation.Block
