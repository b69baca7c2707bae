import Delegation.Proofs.Build.Groups
import Delegation.Proofs.Coalesce.Runs
import Delegation.Proofs.Index.Search

/-!
# The stages of a build

A build reads the holdings of the records of its realm, coalesces them group by group, sorts
the runs of all groups together and encodes them.  `IsRunOf` says which runs a group has, and
`AllRuns` what is known of the runs of all groups in any order: runs of one group have gaps
between them.  An index that is built is `Built` from runs that share no address.

How runs with the same start are sorted does not matter for any of this, so everything is said
of `buildSorting`, which leaves the sorting open.

Main results: `built_of_buildSorting`, and `built_of_build` for the sorting that is used.
-/

namespace Delegation.Build

open Coalesce Sequence
open Holding (Covers)

variable {r : Realm} {records : List Record} {table : CountryTable} {g g' : Group}
  {x : Record} {h k j : Holding} {a : Nat}

/-! ## The runs of a group -/

/-- Some record of the realm and the group delegates the address. -/
def OwnedBy (r : Realm) (records : List Record) (g : Group) (a : Nat) : Prop :=
  ∃ x ∈ records, x.InGroup r g ∧ ∃ h, x.holding = .ok h ∧ h.contains a

/-- The holding is a run of the holdings of the group. -/
def IsRunOf (r : Realm) (records : List Record) (g : Group) (k : Holding) : Prop :=
  ∃ runs, coalesce r (groupHoldings r records g) = .ok runs ∧ k ∈ runs

lemma covers_groupHoldings : Covers (groupHoldings r records g) a ↔ OwnedBy r records g a := by
  simp only [Covers, OwnedBy, mem_groupHoldings]
  constructor
  · rintro ⟨h, ⟨x, hx, hg, hh⟩, ha⟩
    exact ⟨x, hx, hg, h, hh, ha⟩
  · rintro ⟨x, hx, hg, h, hh, ha⟩
    exact ⟨h, ⟨x, hx, hg, hh⟩, ha⟩

lemma bounds_of_mem_groupHoldings (hh : h ∈ groupHoldings r records g) :
    h.first ≤ h.last ∧ h.last ≤ r.family.maxAddress := by
  obtain ⟨x, -, hg, hx⟩ := mem_groupHoldings.mp hh
  rw [← hg.2.1]
  exact Record.bounds_of_holding hx

lemma isRuns_of_coalesce_groupHoldings {runs : List Holding}
    (h : coalesce r (groupHoldings r records g) = .ok runs) :
    IsRuns (groupHoldings r records g) runs :=
  isRuns_of_coalesce (fun _ hh => (bounds_of_mem_groupHoldings hh).1) h

namespace IsRunOf

/-- A run is of the group whose run it is. -/
lemma groupIn_eq (hk : IsRunOf r records g k) : k.groupIn r.registry = g := by
  obtain ⟨runs, hruns, hk⟩ := hk
  obtain ⟨h, hh, -, hcountry, hstatus⟩ :=
    (isRuns_of_coalesce_groupHoldings hruns).exists_mem_of_mem hk
  obtain ⟨x, -, hg, hx⟩ := mem_groupHoldings.mp hh
  rw [← Record.groupIn_of_inGroup hg hx]
  simp only [Holding.groupIn, hcountry, hstatus]

lemma first_le_last (hk : IsRunOf r records g k) : k.first ≤ k.last := by
  obtain ⟨runs, hruns, hk⟩ := hk
  exact (isRuns_of_coalesce_groupHoldings hruns).first_le_last k hk

lemma ownedBy (hk : IsRunOf r records g k) (ha : k.contains a) : OwnedBy r records g a := by
  obtain ⟨runs, hruns, hk⟩ := hk
  rw [← covers_groupHoldings, ← (isRuns_of_coalesce_groupHoldings hruns).covers_iff]
  exact ⟨k, hk, ha⟩

lemma last_le (hk : IsRunOf r records g k) : k.last ≤ r.family.maxAddress := by
  have hle := hk.first_le_last
  -- the last address of a run is one of a record
  obtain ⟨x, hx, hg, h, hh, ha⟩ := hk.ownedBy (Span.contains_iff.mpr ⟨hle, Nat.le_refl _⟩)
  have hbounds := Record.bounds_of_holding hh
  rw [Span.contains_iff] at ha
  rw [hg.2.1] at hbounds
  omega

end IsRunOf

/-- Each record lies inside a run of its group. -/
lemma exists_isRunOf_encloses (hruns : ∃ runs, coalesce r (groupHoldings r records g) = .ok runs)
    (hx : x ∈ records) (hg : x.InGroup r g) (hh : x.holding = .ok h) :
    ∃ k, IsRunOf r records g k ∧ k.first ≤ h.first ∧ h.last ≤ k.last := by
  obtain ⟨runs, hruns⟩ := hruns
  obtain ⟨k, hk, hfirst, hlast⟩ := (isRuns_of_coalesce_groupHoldings hruns).exists_encloses
    (mem_groupHoldings.mpr ⟨x, hx, hg, hh⟩) (Record.bounds_of_holding hh).1
  exact ⟨k, ⟨runs, hruns, hk⟩, hfirst, hlast⟩

/-! ## The runs of all groups -/

/-- The runs of all groups, in some order. -/
structure AllRuns (r : Realm) (records : List Record) (runs : List Holding) : Prop where
  mem_iff : ∀ k, k ∈ runs ↔ ∃ g, IsRunOf r records g k
  apart : runs.Pairwise fun h k =>
    h.groupIn r.registry = k.groupIn r.registry → h.last + 1 < k.first ∨ k.last + 1 < h.first

lemma AllRuns.perm {runs runs' : List Holding} (hr : AllRuns r records runs)
    (hp : runs'.Perm runs) : AllRuns r records runs' :=
  ⟨fun k => hp.mem_iff.trans (hr.mem_iff k),
    hr.apart.perm hp.symm fun hapart heq => (hapart heq.symm).symm⟩

lemma AllRuns.first_le_last {runs : List Holding} (hr : AllRuns r records runs) :
    ∀ k ∈ runs, k.first ≤ k.last := by
  intro k hk
  obtain ⟨g, hg⟩ := (hr.mem_iff k).mp hk
  exact hg.first_le_last

/-- The runs of the groups one after the other are the runs of all groups. -/
lemma allRuns_flatten {hs : List (Group × Holding)} {parts : List (List Holding)}
    (hhs : holdings r records = .ok hs) (hparts : (partitions hs).mapM (coalesce r) = .ok parts) :
    AllRuns r records parts.flatten := by
  rw [partitions, List.mapM_map] at hparts
  have hcoalesce : ∀ {g part}, (coalesce r ∘ members hs) g = .ok part →
      coalesce r (groupHoldings r records g) = .ok part := by
    intro g part hpart
    rw [← members_eq_groupHoldings hhs]
    exact hpart
  refine ⟨?_, List.pairwise_flatten.mpr ⟨?_, ?_⟩⟩
  · intro k
    rw [List.mem_flatten]
    constructor
    · rintro ⟨part, hpart, hk⟩
      obtain ⟨g, -, hg⟩ := (mem_of_mapM hparts).mp hpart
      exact ⟨g, part, hcoalesce hg, hk⟩
    · rintro ⟨g, runs, hruns, hk⟩
      rw [← members_eq_groupHoldings hhs] at hruns
      refine ⟨runs, (mem_of_mapM hparts).mpr ⟨g, ?_, hruns⟩, hk⟩
      -- a group that does not occur has no runs
      by_contra hg
      rw [members_eq_nil hg] at hruns
      obtain ⟨h, hh, -⟩ := (isRuns_of_coalesce (by simp) hruns).exists_mem_of_mem hk
      cases hh
  · intro part hpart
    obtain ⟨g, -, hg⟩ := (mem_of_mapM hparts).mp hpart
    exact (isRuns_of_coalesce_groupHoldings (hcoalesce hg)).separated.imp fun hlt _ => .inl hlt
  · -- runs of different groups are under no condition
    refine pairwise_of_mapM hparts nodup_groupsOf ?_
    intro g g' part part' hg hg' hne k hk j hj heq
    rw [IsRunOf.groupIn_eq ⟨part, hcoalesce hg, hk⟩,
      IsRunOf.groupIn_eq ⟨part', hcoalesce hg', hj⟩] at heq
    exact absurd heq hne

/-! ## Runs that share addresses -/

lemma firstOverlap_eq_some {runs : List Holding} (h : firstOverlap runs = some (k, j)) :
    [k, j].Sublist runs ∧ j.first ≤ k.last := by
  fun_induction firstOverlap runs with
  | case1 k' j' rest hle =>
    obtain ⟨rfl, rfl⟩ := Prod.mk.inj (Option.some.inj h)
    exact ⟨by simp, hle⟩
  | case2 k' j' rest hle ih => exact ⟨(ih h).1.cons k', (ih h).2⟩
  | case3 => cases h

/-- If neighbours share no address, no two runs do. -/
lemma ordered_of_firstOverlap {runs : List Holding} (hle : ∀ k ∈ runs, k.first ≤ k.last)
    (h : firstOverlap runs = none) : runs.Pairwise fun k j => k.last < j.first := by
  fun_induction firstOverlap runs with
  | case1 => cases h
  | case2 k j rest hgap ih =>
    have hrest := ih (fun i hi => hle i (by simp [hi])) h
    rw [List.pairwise_cons]
    refine ⟨?_, hrest⟩
    intro i hi
    have hj := hle j (by simp)
    rcases List.mem_cons.mp hi with rfl | hi
    · omega
    · have hji := List.rel_of_pairwise_cons hrest hi
      omega
  | case3 runs hshort =>
    match runs, hshort with
    | [], _ => exact .nil
    | [k], _ => simp
    | k :: j :: rest, hshort => exact absurd rfl (hshort k j rest)

/-! ## Building -/

/-- The runs are put in the order of their first addresses. -/
structure IsSorting (sort : List Holding → List Holding) : Prop where
  perm : ∀ runs, (sort runs).Perm runs
  ordered : ∀ runs, (sort runs).Pairwise fun k j => k.first ≤ j.first

/-- The entries of runs that have been sorted. -/
def sortedEntries (table : CountryTable) (r : Realm) (runs : List Holding) :
    Except Fault (List Entry) :=
  match firstOverlap runs with
  | some (k, j) => .error (.overlappingRanges r.registry r.family k.first k.last j.first)
  | none => runs.mapM (encode table r.family)

/-- The index of a realm, if runs are sorted in a given way. -/
def buildSorting (sort : List Holding → List Holding) (table : CountryTable) (r : Realm)
    (records : List Record) : Except Fault RangeIndex := do
  let hs ← holdings r records
  let parts ← (partitions hs).mapM (coalesce r)
  let es ← sortedEntries table r (sort parts.flatten)
  return ⟨r, es.toArray⟩

lemma isSorting_quicksort : IsSorting (Quicksort.sort fun k => k.first) :=
  ⟨Quicksort.sort_perm _, Quicksort.sort_pairwise _⟩

/-- A build sorts its runs by quicksort. -/
theorem build_eq_buildSorting :
    build table r records = buildSorting (Quicksort.sort fun k => k.first) table r records := by
  have hcoalesce : ∀ parts : List (List Holding), parts.mapM (coalesce r) =
      (parts.mapM (coalesceTallied r)).map (List.map (·.1)) :=
    mapM_map_eq (coalesceTallied r) (·.1)
  rw [build, buildTallied, buildSorting]
  cases holdings r records with
  | error f => rfl
  | ok hs =>
    simp only [bind, Except.bind, hcoalesce]
    cases (partitions hs).mapM (coalesceTallied r) with
    | error f => rfl
    | ok coalesced =>
      have hentries : entries table r (coalesced.flatMap (·.1)) = sortedEntries table r
          (Quicksort.sort (fun k => k.first) (coalesced.map (·.1)).flatten) := rfl
      simp only [Except.map, hentries]
      cases sortedEntries table r _ <;> rfl

/-- What an index is built from. -/
structure Built (table : CountryTable) (r : Realm) (records : List Record) (x : RangeIndex)
    (runs : List Holding) : Prop where
  realm_eq : x.realm = r
  exists_holding : ∀ y ∈ records, ∀ g, y.InGroup r g → ∃ h, y.holding = .ok h
  exists_coalesce : ∀ g, ∃ part, coalesce r (groupHoldings r records g) = .ok part
  allRuns : AllRuns r records runs
  ordered : runs.Pairwise fun k j => k.last < j.first
  encoded : runs.mapM (encode table r.family) = .ok x.entries.toList

/-- All records of groups have holdings if the holdings have been read. -/
lemma exists_holding_of_holdings {hs : List (Group × Holding)} (hhs : holdings r records = .ok hs)
    (hx : x ∈ records) (hg : x.InGroup r g) : ∃ h, x.holding = .ok h := by
  obtain ⟨h, hh⟩ := exists_mapM_eq_ok_iff.mp ⟨hs, hhs⟩ (g, x) (mem_grouped.mpr ⟨hx, hg⟩)
  exact exists_groupedHolding_iff.mp ⟨h, hh⟩

/-- All groups are coalesced if those that occur are. -/
lemma exists_coalesce_of_mapM {hs : List (Group × Holding)} {parts : List (List Holding)}
    (hhs : holdings r records = .ok hs) (hparts : (partitions hs).mapM (coalesce r) = .ok parts) :
    ∃ part, coalesce r (groupHoldings r records g) = .ok part := by
  rw [partitions, List.mapM_map] at hparts
  rw [← members_eq_groupHoldings hhs]
  by_cases hg : g ∈ groupsOf hs
  · exact exists_mapM_eq_ok_iff.mp ⟨parts, hparts⟩ g hg
  · -- there is nothing to coalesce
    rw [members_eq_nil hg]
    exact exists_coalesce_eq_ok_iff.mpr (by simp [Clashing])

/-- An index that is built is built from runs that share no address. -/
theorem built_of_buildSorting {sort : List Holding → List Holding} (hsort : IsSorting sort)
    {y : RangeIndex} (h : buildSorting sort table r records = .ok y) :
    ∃ runs, Built table r records y runs := by
  rw [buildSorting] at h
  obtain ⟨hs, hhs, h⟩ := bind_eq_ok_iff.mp h
  obtain ⟨parts, hparts, h⟩ := bind_eq_ok_iff.mp h
  obtain ⟨es, hes, h⟩ := bind_eq_ok_iff.mp h
  obtain rfl := Except.ok.inj h
  have hall := (allRuns_flatten hhs hparts).perm (hsort.perm parts.flatten)
  rw [sortedEntries] at hes
  cases hf : firstOverlap (sort parts.flatten) with
  | some p => simp [hf] at hes
  | none =>
    rw [hf] at hes
    refine ⟨sort parts.flatten, rfl, ?_, ?_, hall, ?_, hes⟩
    · intro x hx g hg
      exact exists_holding_of_holdings hhs hx hg
    · intro g
      exact exists_coalesce_of_mapM hhs hparts
    · exact ordered_of_firstOverlap hall.first_le_last hf

/-- The index of a realm is built from runs that share no address. -/
theorem built_of_build {y : RangeIndex} (h : build table r records = .ok y) :
    ∃ runs, Built table r records y runs := by
  rw [build_eq_buildSorting] at h
  exact built_of_buildSorting isSorting_quicksort h

/-! ## Entries -/

lemma encode_eq_ok_iff {f : Family} {e : Entry} :
    encode table f k = .ok e ↔ k.last ≤ f.maxAddress ∧ ∃ code,
      table.codeOf k.country = .ok code ∧ (⟨k.toSpan, code, k.status.code⟩ : Entry) = e := by
  rw [encode]
  by_cases hlast : f.maxAddress < k.last
  · rw [if_pos hlast]
    simp [Nat.not_le.mpr hlast]
  · rw [if_neg hlast, map_eq_ok_iff]
    simp [Nat.le_of_not_lt hlast]

namespace Built

variable {y : RangeIndex} {runs : List Holding} {e : Entry}

lemma mem_entries (hb : Built table r records y runs) :
    e ∈ y.entries.toList ↔ ∃ k ∈ runs, encode table r.family k = .ok e :=
  mem_of_mapM hb.encoded

lemma toSpan_eq (hk : encode table r.family k = .ok e) : e.toSpan = k.toSpan := by
  obtain ⟨-, code, -, rfl⟩ := encode_eq_ok_iff.mp hk
  rfl

/-- The entries are in ascending order and share no address. -/
theorem ordered_entries (hb : Built table r records y runs) : y.Ordered := by
  refine ⟨?_, pairwise_of_mapM hb.encoded hb.ordered ?_⟩
  · intro e he
    obtain ⟨k, hk, hke⟩ := hb.mem_entries.mp he
    rw [toSpan_eq hke]
    exact hb.allRuns.first_le_last k hk
  · intro k j d e hd he hlt
    rw [toSpan_eq hd, toSpan_eq he]
    exact hlt

/-- Each run has an entry. -/
lemma exists_entry (hb : Built table r records y runs) (hk : k ∈ runs) :
    ∃ e ∈ y.entries.toList, encode table r.family k = .ok e := by
  obtain ⟨e, he⟩ := exists_mapM_eq_ok_iff.mp ⟨_, hb.encoded⟩ k hk
  exact ⟨e, hb.mem_entries.mpr ⟨k, hk, he⟩, he⟩

/-- An address lies in a run of a group exactly if a record of the group delegates it. -/
theorem exists_run_iff (hb : Built table r records y runs) :
    (∃ k ∈ runs, k.groupIn r.registry = g ∧ k.contains a) ↔ OwnedBy r records g a := by
  constructor
  · rintro ⟨k, hk, rfl, ha⟩
    obtain ⟨g, hg⟩ := (hb.allRuns.mem_iff k).mp hk
    rw [hg.groupIn_eq]
    exact hg.ownedBy ha
  · rintro ⟨x, hx, hg, h, hh, ha⟩
    obtain ⟨k, hk, hfirst, hlast⟩ := exists_isRunOf_encloses (hb.exists_coalesce g) hx hg hh
    rw [Span.contains_iff] at ha
    exact ⟨k, (hb.allRuns.mem_iff k).mpr ⟨g, hk⟩, hk.groupIn_eq,
      Span.contains_iff.mpr ⟨by omega, by omega⟩⟩

/-- An address lies in an entry exactly if some group has it. -/
lemma exists_entry_iff (hb : Built table r records y runs) :
    (∃ e ∈ y.entries.toList, e.contains a) ↔ ∃ g, OwnedBy r records g a := by
  constructor
  · rintro ⟨e, he, ha⟩
    obtain ⟨k, hk, hke⟩ := hb.mem_entries.mp he
    rw [toSpan_eq hke] at ha
    exact ⟨_, hb.exists_run_iff.mp ⟨k, hk, rfl, ha⟩⟩
  · rintro ⟨g, hg⟩
    obtain ⟨k, hk, -, ha⟩ := hb.exists_run_iff.mpr hg
    obtain ⟨e, he, hke⟩ := hb.exists_entry hk
    exact ⟨e, he, by rwa [toSpan_eq hke]⟩

end Built

end Delegation.Build
