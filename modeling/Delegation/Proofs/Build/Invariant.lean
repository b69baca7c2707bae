import Delegation.Proofs.Build.Canonical
import Delegation.Proofs.Build.Lookup

/-!
# The entries of an index

Everything that reads an index relies on the state in which a build leaves it (`IsIndexOf`).
Its entries are not empty, lie in the family, and are in ascending order without common
addresses.  Entries that touch have different keys, because touching runs of one group would
have been joined and the codes of groups are distinct.  Both codes of an entry come from one
record: the first one of its group that starts where the entry starts.

The addresses of an IPv4 index have 32 bits, so its rows can be narrowed.

Main result: `build_invariant`.
-/

namespace Delegation

open Sequence

/-- The state in which a build leaves the index of a realm. -/
structure IsIndexOf (table : CountryTable) (r : Realm) (records : List Record) (x : RangeIndex) :
    Prop where
  realm_eq : x.realm = r
  bounds : ∀ e ∈ x.entries.toList, e.first ≤ e.last ∧ e.last ≤ r.family.maxAddress
  ordered : x.entries.toList.Pairwise fun d e => d.last < e.first
  /-- Entries that touch have different keys. -/
  maximal : x.entries.toList.Pairwise fun d e =>
    d.last + 1 = e.first → d.groupCode r.registry ≠ e.groupCode r.registry
  /-- The key of an entry is that of some group, and both codes are those of the first record of
  this group which starts where the entry does. -/
  source : ∀ e ∈ x.entries.toList, ∃ g y,
    records.find? (fun y => y.InGroup r g && y.first = e.first) = some y ∧
      g.codeIn table = .ok (e.groupCode r.registry) ∧
      table.codeOf y.country = .ok e.countryCode ∧ y.status.code = e.statusCode

namespace Build

variable {table : CountryTable} {r : Realm} {records : List Record} {x : RangeIndex}
  {runs : List Holding} {h k j : Holding} {d e : Entry} {g : Group} {a : Nat}

/-! ## Where a run comes from -/

/-- If all records of a group have holdings, the first holding with some start is that of the
first record with it. -/
lemma exists_find?_of_groupHoldings
    (hread : ∀ y ∈ records, y.InGroup r g → ∃ h, y.holding = .ok h)
    (hfind : (groupHoldings r records g).find? (·.first = a) = some h) :
    ∃ y, records.find? (fun y => y.InGroup r g && y.first = a) = some y ∧ y.holding = .ok h := by
  have hsame : ∀ y ∈ records,
      ((if y.InGroup r g then y.holding.toOption else none).any fun h => h.first = a) =
        (decide (y.InGroup r g) && decide (y.first = a)) := by
    intro y hy
    by_cases hg : y.InGroup r g
    · obtain ⟨h, hh⟩ := hread y hy hg
      simp [hg, hh, Except.toOption, ← Record.first_of_holding hh]
    · simp [hg]
  rw [groupHoldings, List.find?_filterMap, List.find?_congr hsame, Option.bind_eq_some_iff] at hfind
  obtain ⟨y, hy, hholding⟩ := hfind
  refine ⟨y, hy, ?_⟩
  have hg : y.InGroup r g := by
    have := List.find?_some hy
    simp only [Bool.and_eq_true, decide_eq_true_eq] at this
    exact this.1
  obtain ⟨h', hh'⟩ := hread y (List.mem_of_find?_eq_some hy) hg
  simpa [hg, hh', Except.toOption] using hholding

/-- A run has the country and status of the first record of its group with its start. -/
lemma IsRunOf.exists_find? (hk : IsRunOf r records g k)
    (hread : ∀ y ∈ records, y.InGroup r g → ∃ h, y.holding = .ok h) :
    ∃ y, records.find? (fun y => y.InGroup r g && y.first = k.first) = some y ∧
      k.country = y.country ∧ k.status = y.status := by
  obtain ⟨runs, hruns, hk⟩ := hk
  obtain ⟨h, hfind, hkh⟩ := (isRuns_of_coalesce_groupHoldings hruns).starts k hk
  obtain ⟨y, hy, hh⟩ := exists_find?_of_groupHoldings hread hfind
  obtain ⟨s, -, rfl⟩ := Record.holding_eq_ok_iff.mp hh
  exact ⟨y, hy, by rw [hkh]; rfl, by rw [hkh]; rfl⟩

/-! ## Codes of groups -/

/-- Runs whose entries have one key are of one group. -/
lemma groupIn_eq_of_groupCode_eq {f : Family} {registry : Registry}
    (hd : encode table f k = .ok d) (he : encode table f j = .ok e)
    (hcode : d.groupCode registry = e.groupCode registry) :
    k.groupIn registry = j.groupIn registry := by
  have hk := codeIn_groupIn registry hd
  have hj := codeIn_groupIn registry he
  rw [hcode] at hk
  cases registry with
  | iana =>
    have hstatus : k.status.code = j.status.code := Except.ok.inj (hk.trans hj.symm)
    exact congrArg Group.status (Status.code_injective hstatus)
  | _ => exact congrArg Group.country (CountryTable.codeOf_injective hk hj)

/-! ## The invariant -/

namespace Built

/-- Runs that touch are of different groups. -/
lemma pairwise_groupIn_ne (hb : Built table r records x runs) :
    runs.Pairwise fun k j => k.last + 1 = j.first → k.groupIn r.registry ≠ j.groupIn r.registry :=
  List.pairwise_map.mp hb.normal_tenures.maximal

lemma pairwise_groupCode_ne (hb : Built table r records x runs) :
    x.entries.toList.Pairwise fun d e =>
      d.last + 1 = e.first → d.groupCode r.registry ≠ e.groupCode r.registry := by
  refine pairwise_of_mapM hb.encoded hb.pairwise_groupIn_ne ?_
  intro k j d e hd he hne htouch hcode
  rw [toSpan_eq hd, toSpan_eq he] at htouch
  exact hne htouch (groupIn_eq_of_groupCode_eq hd he hcode)

/-- The codes of an entry are those of the first record of its group with its start. -/
lemma exists_source (hb : Built table r records x runs) (he : e ∈ x.entries.toList) :
    ∃ g y, records.find? (fun y => y.InGroup r g && y.first = e.first) = some y ∧
      g.codeIn table = .ok (e.groupCode r.registry) ∧
      table.codeOf y.country = .ok e.countryCode ∧ y.status.code = e.statusCode := by
  obtain ⟨k, hk, hke⟩ := hb.mem_entries.mp he
  obtain ⟨g, hg⟩ := (hb.allRuns.mem_iff k).mp hk
  obtain ⟨y, hy, hcountry, hstatus⟩ := hg.exists_find? fun y hy => hb.exists_holding y hy g
  have hcode := codeIn_groupIn r.registry hke
  rw [hg.groupIn_eq] at hcode
  obtain ⟨-, code, hcodeOf, rfl⟩ := encode_eq_ok_iff.mp hke
  refine ⟨g, y, hy, hcode, ?_, ?_⟩
  · rw [← hcountry]
    exact hcodeOf
  · rw [← hstatus]

theorem isIndexOf (hb : Built table r records x runs) : IsIndexOf table r records x := by
  refine ⟨hb.realm_eq, ?_, hb.ordered_entries.last_lt_first, hb.pairwise_groupCode_ne,
    fun e he => hb.exists_source he⟩
  intro e he
  obtain ⟨k, -, hke⟩ := hb.mem_entries.mp he
  refine ⟨hb.ordered_entries.first_le_last e he, ?_⟩
  rw [toSpan_eq hke]
  exact (encode_eq_ok_iff.mp hke).1

end Built

/-- An index that is built satisfies the invariant. -/
theorem isIndexOf_of_build (hx : build table r records = .ok x) : IsIndexOf table r records x := by
  obtain ⟨runs, hb⟩ := built_of_build hx
  exact hb.isIndexOf

end Build

/-! ## Narrow rows -/

namespace RangeIndex

variable {x : RangeIndex} {e : Entry}

lemma narrowRow_eq_ok (hfirst : e.first < 2 ^ 32) (hlast : e.last < 2 ^ 32) :
    narrowRow e = .ok ⟨e.first, e.last, e.countryCode, e.statusCode⟩ := by
  rw [narrowRow, narrow, if_pos hfirst, narrow, if_pos hlast]
  rfl

/-- The rows of an IPv4 index can be narrowed if its entries lie in the family. -/
lemma narrowRows_eq_ok (hfamily : x.realm.family = .ipv4)
    (hbounds : ∀ e ∈ x.entries.toList, e.first < 2 ^ 32 ∧ e.last < 2 ^ 32) :
    x.narrowRows = .ok x.rows := by
  rw [narrowRows, if_pos hfamily]
  exact mapM_eq_ok_of_forall fun e he => narrowRow_eq_ok (hbounds e he).1 (hbounds e he).2

end RangeIndex

/-- A build leaves an index in the state of `IsIndexOf`.  The rows of an IPv4 index are therefore
narrowed without a failure and without a change. -/
theorem build_invariant {table : CountryTable} {r : Realm} {records : List Record} {x : RangeIndex}
    (hx : build table r records = .ok x) :
    IsIndexOf table r records x ∧
      (r.family = .ipv4 → x.narrowRows = .ok x.rows ∧
        ∀ row ∈ x.rows, row.first < 2 ^ 32 ∧ row.last < 2 ^ 32) := by
  have hindex := Build.isIndexOf_of_build hx
  refine ⟨hindex, ?_⟩
  intro hfamily
  have hbounds : ∀ e ∈ x.entries.toList, e.first < 2 ^ 32 ∧ e.last < 2 ^ 32 := by
    intro e he
    obtain ⟨hle, hlast⟩ := hindex.bounds e he
    rw [hfamily, Family.le_maxAddress_iff] at hlast
    exact ⟨Nat.lt_of_le_of_lt hle hlast, hlast⟩
  refine ⟨RangeIndex.narrowRows_eq_ok (by rw [hindex.realm_eq, hfamily]) hbounds, ?_⟩
  rw [RangeIndex.rows, List.forall_mem_map]
  exact hbounds

/-- Records of two countries side by side, one of them in two statuses. -/
def touchingRecords : List Record :=
  [⟨.ripencc, germany, .ipv4, 256, .count 256, .allocated⟩,
    ⟨.ripencc, germany, .ipv4, 0, .count 256, .assigned⟩,
    ⟨.ripencc, france, .ipv4, 512, .count 256, .allocated⟩,
    ⟨.ripencc, germany, .ipv4, 0, .count 256, .allocated⟩]

/-- The index of `touchingRecords`. -/
def touchingIndex : RangeIndex :=
  ⟨⟨.ripencc, .ipv4⟩, #[⟨⟨0, 511⟩, 0, 4⟩, ⟨⟨512, 767⟩, 1, 1⟩]⟩

theorem build_invariant_touching :
    build germanyFrance ⟨.ripencc, .ipv4⟩ touchingRecords = .ok touchingIndex ∧
      IsIndexOf germanyFrance ⟨.ripencc, .ipv4⟩ touchingRecords touchingIndex ∧
      touchingIndex.narrowRows = .ok [⟨0, 511, 0, 4⟩, ⟨512, 767, 1, 1⟩] := by
  have hok : build germanyFrance ⟨.ripencc, .ipv4⟩ touchingRecords = .ok touchingIndex := by cbv
  obtain ⟨hindex, hnarrow⟩ := build_invariant hok
  exact ⟨hok, hindex, (hnarrow rfl).1⟩

end Delegation
