import Delegation.Proofs.Block.Words
import Delegation.Record

/-!
# Extents of records

A record states its extent as a number of addresses or as the length of a block.  A number of
addresses is refused if the first address is none of the family, then if the number is zero, and
then if the last address is none of the family (`Span.ofCount_cases`).  A block length is refused if
it is beyond the width of the family, and then if the first or the last address is none of the
family (`Span.ofPrefix_cases`).

Either way the last address is found in words of 128 bits, as the sum of the first one and a
distance.  A sum that is no word is beyond the last address of either family, and a word may still
be beyond the last IPv4 address, so both are refused together (`Span.upToDistance_eq`).  No
difference on the way is below zero, and the distance from the first to the last address of a block
is a word for any length, also where the number of its addresses is none
(`Span.ofCountInWords_eq`, `Span.ofPrefixInWords_eq`).

Main result: `extent_outcome`.
-/

namespace Delegation

open Word

namespace Span

variable {f : Family} {a n p : Nat}

/-! ## Outcomes -/

/-- What a number of addresses leads to. -/
theorem ofCount_cases (f : Family) (a n : Nat) :
    (f.maxAddress < a ∧ ∃ detail, ofCount f a n = .error (.rangeOverflow f a detail)) ∨
    (a ≤ f.maxAddress ∧ n = 0 ∧ ofCount f a n = .error (.invalidRange f a (a - 1))) ∨
    (1 ≤ n ∧ f.maxAddress < a + n - 1 ∧
      ∃ detail, ofCount f a n = .error (.rangeOverflow f a detail)) ∨
    (1 ≤ n ∧ a + n - 1 ≤ f.maxAddress ∧ ofCount f a n = .ok ⟨a, a + n - 1⟩) := by
  rw [ofCount, Family.check]
  by_cases hfirst : a ≤ f.maxAddress
  · rw [if_pos hfirst]
    dsimp only
    split_ifs with hnone hlast
    · exact .inr (.inl ⟨hfirst, hnone, rfl⟩)
    · exact .inr (.inr (.inr ⟨Nat.pos_of_ne_zero hnone, hlast, rfl⟩))
    · exact .inr (.inr (.inl ⟨Nat.pos_of_ne_zero hnone, Nat.lt_of_not_le hlast, _, rfl⟩))
  · rw [if_neg hfirst]
    exact .inl ⟨Nat.lt_of_not_le hfirst, _, rfl⟩

/-- What the length of a block leads to. -/
theorem ofPrefix_cases (f : Family) (a p : Nat) :
    (f.width < p ∧ ofPrefix f a p = .error (.invalidPrefix f p)) ∨
    (p ≤ f.width ∧ f.maxAddress < a + 2 ^ (f.width - p) - 1 ∧
      ∃ detail, ofPrefix f a p = .error (.rangeOverflow f a detail)) ∨
    (p ≤ f.width ∧ a + 2 ^ (f.width - p) - 1 ≤ f.maxAddress ∧
      ofPrefix f a p = .ok ⟨a, a + 2 ^ (f.width - p) - 1⟩) := by
  have hpos := Nat.two_pow_pos (f.width - p)
  rw [ofPrefix, Family.check]
  by_cases hlength : f.width < p
  · exact .inl ⟨hlength, if_pos hlength⟩
  · have hlength' := Nat.le_of_not_lt hlength
    rw [if_neg hlength]
    by_cases hfirst : a ≤ f.maxAddress
    · rw [if_pos hfirst]
      dsimp only
      split_ifs with hlast
      · exact .inr (.inr ⟨hlength', hlast, rfl⟩)
      · exact .inr (.inl ⟨hlength', Nat.lt_of_not_le hlast, _, rfl⟩)
    · rw [if_neg hfirst]
      exact .inr (.inl ⟨hlength', by omega, _, rfl⟩)

lemma ofCount_eq_invalidRange_iff :
    ofCount f a n = .error (.invalidRange f a (a - 1)) ↔ a ≤ f.maxAddress ∧ n = 0 := by
  rcases ofCount_cases f a n with
    ⟨hfirst, _, h⟩ | ⟨hfirst, rfl, h⟩ | ⟨hn, _, _, h⟩ | ⟨hn, _, h⟩
  · simp [h, Nat.not_le_of_lt hfirst]
  · simp [h, hfirst]
  · simp [h, Nat.ne_of_gt hn]
  · simp [h, Nat.ne_of_gt hn]

lemma exists_ofCount_eq_rangeOverflow_iff :
    (∃ detail, ofCount f a n = .error (.rangeOverflow f a detail)) ↔
      f.maxAddress < a ∨ 1 ≤ n ∧ f.maxAddress < a + n - 1 := by
  rcases ofCount_cases f a n with
    ⟨hfirst, _, h⟩ | ⟨hfirst, rfl, h⟩ | ⟨hn, hlast, _, h⟩ | ⟨hn, hlast, h⟩
  · simp [h, hfirst]
  · simp [h, hfirst]
  · simp [h, hn, hlast]
  · simp only [h, reduceCtorEq, exists_false, false_iff]
    omega

lemma ofPrefix_eq_invalidPrefix_iff :
    ofPrefix f a p = .error (.invalidPrefix f p) ↔ f.width < p := by
  rcases ofPrefix_cases f a p with ⟨hlength, h⟩ | ⟨hlength, _, _, h⟩ | ⟨hlength, _, h⟩
  · simp [h, hlength]
  · simp [h, hlength]
  · simp [h, hlength]

lemma exists_ofPrefix_eq_rangeOverflow_iff :
    (∃ detail, ofPrefix f a p = .error (.rangeOverflow f a detail)) ↔
      p ≤ f.width ∧ f.maxAddress < a + 2 ^ (f.width - p) - 1 := by
  rcases ofPrefix_cases f a p with
    ⟨hlength, h⟩ | ⟨hlength, hlast, _, h⟩ | ⟨hlength, hlast, h⟩
  · simp [h, Nat.not_le_of_lt hlength]
  · simp [h, hlength, hlast]
  · simp [h, Nat.not_lt_of_le hlast]

/-! ## Words -/

/-- The address at a distance behind the first one, if it is a word and lies in the family. -/
def behind? (f : Family) (first distance : BitVec 128) : Option (BitVec 128) :=
  (sum? first distance).filter fun last => last.toNat ≤ f.maxAddress

/-- The span up to the address at a distance, or the fault for a span that leaves the family. -/
def upToDistance (f : Family) (first distance : BitVec 128) (detail : String) :
    Except Fault Span :=
  match behind? f first distance with
  | some last => .ok ⟨first.toNat, last.toNat⟩
  | none => .error (.rangeOverflow f first.toNat detail)

/-- The span of a number of addresses, found in words. -/
def ofCountInWords (f : Family) (first count : BitVec 128) : Option (Except Fault Span) :=
  match f.check first.toNat with
  | .error fault => some (.error fault)
  | .ok _ =>
    if count = 0#128 then some (.error (.invalidRange f first.toNat (first.toNat - 1)))
    else (difference? count 1#128).map fun distance =>
      upToDistance f first distance
        ("count " ++ toString count.toNat ++ " runs past the last address")

/-- The span of a block length, found in words. -/
def ofPrefixInWords (f : Family) (first : BitVec 128) (length : BitVec 8) :
    Option (Except Fault Span) :=
  if f.width < length.toNat then some (.error (.invalidPrefix f length.toNat))
  else match f.check first.toNat with
    | .error fault => some (.error fault)
    | .ok _ => (Block.lastOffset? (f.width - length.toNat)).map fun distance =>
      upToDistance f first distance
        ("/" ++ toString length.toNat ++ " block runs past the last address")

/-- A sum that is no word and a word that is no address of the family are refused together. -/
theorem upToDistance_eq (f : Family) (first distance : BitVec 128) (detail : String) :
    upToDistance f first distance detail =
      if first.toNat + distance.toNat ≤ f.maxAddress then
        .ok ⟨first.toNat, first.toNat + distance.toNat⟩
      else .error (.rangeOverflow f first.toNat detail) := by
  have hword := f.maxAddress_lt_two_pow
  rw [upToDistance, behind?]
  cases hsum : sum? first distance with
  | none =>
    rw [sum?_eq_none_iff] at hsum
    rw [Option.filter_none, if_neg (by omega)]
  | some last =>
    rw [sum?_eq_some_iff] at hsum
    rw [Option.filter_some, hsum]
    by_cases hlast : last.toNat ≤ f.maxAddress
    · rw [if_pos (decide_eq_true hlast), if_pos hlast]
    · rw [if_neg (by simpa using hlast), if_neg hlast]

/-- A span is found for every number of addresses as it is without a bound on numbers. -/
theorem ofCountInWords_eq (f : Family) (first count : BitVec 128) :
    ofCountInWords f first count = some (ofCount f first.toNat count.toNat) := by
  rw [ofCountInWords, ofCount]
  cases f.check first.toNat with
  | error fault => rfl
  | ok _ =>
    dsimp only
    by_cases hzero : count = 0#128
    · subst hzero
      rfl
    · have hcount : count.toNat ≠ 0 := fun h => hzero (BitVec.eq_of_toNat_eq h)
      obtain ⟨distance, hdistance, hnat⟩ := exists_difference?_eq_some
        (a := count) (b := 1#128) (Nat.pos_of_ne_zero hcount)
      have hone : (1#128).toNat = 1 := rfl
      have hlast : first.toNat + distance.toNat = first.toNat + count.toNat - 1 := by omega
      rw [if_neg hzero, if_neg hcount, hdistance, Option.map_some, upToDistance_eq, hlast]

/-- A span is found for every block length as it is without a bound on numbers. -/
theorem ofPrefixInWords_eq (f : Family) (first : BitVec 128) (length : BitVec 8) :
    ofPrefixInWords f first length = some (ofPrefix f first.toNat length.toNat) := by
  have hbits : f.width - length.toNat ≤ 128 := Nat.le_trans (Nat.sub_le _ _) f.width_le
  rw [ofPrefixInWords, ofPrefix]
  split_ifs with hlength
  · rfl
  · cases f.check first.toNat with
    | error fault => rfl
    | ok _ =>
      have hpos := Nat.two_pow_pos (f.width - length.toNat)
      obtain ⟨distance, hdistance, hnat⟩ := Block.exists_lastOffset?_eq hbits
      have hlast : first.toNat + distance.toNat =
          first.toNat + 2 ^ (f.width - length.toNat) - 1 := by omega
      dsimp only
      rw [hdistance, Option.map_some, upToDistance_eq, hlast]

/-! ## Two ways to state an extent -/

/-- As many addresses as a block has make up its span, or both leave the family. -/
theorem ofPrefix_agrees_ofCount (hp : p ≤ f.width) (a : Nat) :
    (∃ s, ofPrefix f a p = .ok s ∧ ofCount f a (2 ^ (f.width - p)) = .ok s) ∨
    ∃ detail detail', ofPrefix f a p = .error (.rangeOverflow f a detail) ∧
      ofCount f a (2 ^ (f.width - p)) = .error (.rangeOverflow f a detail') := by
  have hpos : 1 ≤ 2 ^ (f.width - p) := Nat.two_pow_pos _
  rcases Nat.lt_or_ge f.maxAddress (a + 2 ^ (f.width - p) - 1) with hlast | hlast
  · obtain ⟨detail, hlength⟩ := exists_ofPrefix_eq_rangeOverflow_iff.mpr ⟨hp, hlast⟩
    obtain ⟨detail', hcount⟩ := exists_ofCount_eq_rangeOverflow_iff.mpr (.inr ⟨hpos, hlast⟩)
    exact .inr ⟨detail, detail', hlength, hcount⟩
  · exact .inl ⟨_, ofPrefix_eq_ok_iff.mpr ⟨hp, hlast, rfl⟩,
      ofCount_eq_ok_iff.mpr ⟨hpos, hlast, rfl⟩⟩

end Span

/-- The holding of a record with another extent is that of its span. -/
lemma Record.holding_withExtent (x : Record) (extent : Extent) :
    ({ x with extent } : Record).holding =
      (match extent with
        | .count n => Span.ofCount x.family x.first n
        | .length p => Span.ofPrefix x.family x.first p).map fun s => ⟨s, x.country, x.status⟩ := by
  cases extent <;> rfl

/-- What a number of addresses `n` and a block length `p` lead to from an address `a` on, in numbers
without a bound.  In words of 128 bits, and of 8 bits for the length, the same is found.  A record
has the same holding with a block length as with as many addresses as the block has, or with both
extents it leaves the family. -/
theorem extent_outcome (f : Family) :
    (∀ a n,
      (∀ s, Span.ofCount f a n = .ok s ↔
        a ≤ f.maxAddress ∧ 1 ≤ n ∧ a + n - 1 ≤ f.maxAddress ∧ s = ⟨a, a + n - 1⟩) ∧
      (Span.ofCount f a n = .error (.invalidRange f a (a - 1)) ↔ a ≤ f.maxAddress ∧ n = 0) ∧
      ((∃ detail, Span.ofCount f a n = .error (.rangeOverflow f a detail)) ↔
        f.maxAddress < a ∨ 1 ≤ n ∧ f.maxAddress < a + n - 1)) ∧
    (∀ a p,
      (Span.ofPrefix f a p = .error (.invalidPrefix f p) ↔ f.width < p) ∧
      (∀ s, Span.ofPrefix f a p = .ok s ↔
        p ≤ f.width ∧ a + 2 ^ (f.width - p) - 1 ≤ f.maxAddress ∧
          s = ⟨a, a + 2 ^ (f.width - p) - 1⟩) ∧
      ((∃ detail, Span.ofPrefix f a p = .error (.rangeOverflow f a detail)) ↔
        p ≤ f.width ∧ f.maxAddress < a + 2 ^ (f.width - p) - 1)) ∧
    (∀ (first count : BitVec 128) (length : BitVec 8),
      Span.ofCountInWords f first count = some (Span.ofCount f first.toNat count.toNat) ∧
      Span.ofPrefixInWords f first length = some (Span.ofPrefix f first.toNat length.toNat)) ∧
    ∀ (x : Record) (p : Nat), x.family = f → p ≤ f.width →
      (∃ h, ({ x with extent := .length p } : Record).holding = .ok h ∧
        ({ x with extent := .count (2 ^ (f.width - p)) } : Record).holding = .ok h) ∨
      ∃ detail detail',
        ({ x with extent := .length p } : Record).holding =
          .error (.rangeOverflow f x.first detail) ∧
        ({ x with extent := .count (2 ^ (f.width - p)) } : Record).holding =
          .error (.rangeOverflow f x.first detail') := by
  refine ⟨fun a n => ⟨fun s => ?_, Span.ofCount_eq_invalidRange_iff,
      Span.exists_ofCount_eq_rangeOverflow_iff⟩,
    fun a p => ⟨Span.ofPrefix_eq_invalidPrefix_iff, fun s => Span.ofPrefix_eq_ok_iff,
      Span.exists_ofPrefix_eq_rangeOverflow_iff⟩,
    fun first count length => ⟨Span.ofCountInWords_eq f first count,
      Span.ofPrefixInWords_eq f first length⟩, ?_⟩
  · rw [Span.ofCount_eq_ok_iff]
    constructor
    · rintro ⟨hn, hlast, rfl⟩
      exact ⟨by omega, hn, hlast, rfl⟩
    · exact fun ⟨_, h⟩ => h
  · rintro x p rfl hp
    simp only [Record.holding_withExtent]
    rcases Span.ofPrefix_agrees_ofCount hp x.first with
      ⟨s, hlength, hcount⟩ | ⟨detail, detail', hlength, hcount⟩
    · rw [hlength, hcount]
      exact .inl ⟨_, rfl, rfl⟩
    · rw [hlength, hcount]
      exact .inr ⟨detail, detail', rfl, rfl⟩

/-- A record of a block at an address that is no place for a block of its length. -/
def unalignedRecord : Record := ⟨.apnic, .unknown, .ipv4, 0x0a000001, .length 24, .allocated⟩

theorem extent_outcome_unaligned :
    ∃ h : Holding, unalignedRecord.holding = .ok h ∧
      ({ unalignedRecord with extent := .count 256 } : Record).holding = .ok h ∧
      h.toSpan = ⟨0x0a000001, 0x0a000100⟩ := by
  obtain ⟨-, -, -, hagrees⟩ := extent_outcome .ipv4
  have hholding : unalignedRecord.holding =
      .ok ⟨⟨0x0a000001, 0x0a000100⟩, .unknown, .allocated⟩ := by cbv
  rcases hagrees unalignedRecord 24 rfl (by decide) with
    ⟨h, hlength, hcount⟩ | ⟨detail, -, hlength, -⟩
  · obtain rfl := Except.ok.inj (hholding.symm.trans hlength)
    exact ⟨_, hlength, hcount, rfl⟩
  · cases hholding.symm.trans hlength

/-- The sum for two addresses from the last IPv6 address on is no word. -/
example : Span.ofCountInWords .ipv6 (.allOnes 128) 2 =
    some (.error (.rangeOverflow .ipv6 (2 ^ 128 - 1) "count 2 runs past the last address")) := by
  decide

end Delegation
