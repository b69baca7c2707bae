import Delegation.Proofs.Build.Canonical
import Delegation.Proofs.Build.Lookup
import Delegation.Proofs.Build.Outcome

/-!
# Building by selections

A build looks at each record once and puts its holding with those of the same group.  The same
index comes out of a longer way, which takes one group after another: all records are asked
whether they belong to the selection of the group, the holdings of those that do are coalesced,
and the runs of all groups are accepted if no two of them share an address, neighbours or not
(`assemble`).

The way through the selections meets the same holdings, because a record belongs to one
selection at most (`Selection.eq_of_selects`), and it accepts the same runs, because runs in the
order of their starts share an address only if two neighbours do
(`firstOverlap_eq_none_iff_disjoint`).

Main result: `build_eq_ok_iff_assemble`.
-/

namespace Delegation

open Coalesce Sequence

/-! ## Spans without a common address -/

namespace Span

/-- No address lies in both spans. -/
def Disjoint (s t : Span) : Prop := ∀ a, ¬ (s.contains a ∧ t.contains a)

variable {s t : Span}

lemma disjoint_iff : Disjoint s t ↔ min s.last t.last < max s.first t.first := by
  simp only [Disjoint, contains_iff]
  constructor
  · intro h
    by_contra hle
    exact h (max s.first t.first) (by omega)
  · intro hlt a ha
    omega

instance : Decidable (Disjoint s t) := decidable_of_iff' _ disjoint_iff

end Span

/-! ## Selections -/

namespace Selection

/-- The realm that a selection is made in. -/
def realm (s : Selection) : Realm := ⟨s.registry, s.family⟩

/-- The holdings of the records that belong to a selection, in the order of the records. -/
def holdings (s : Selection) (records : List Record) : Except Fault (List Holding) :=
  (records.mapM s.holding?).map List.reduceOption

/-- The runs of the records that belong to a selection. -/
def runs (s : Selection) (records : List Record) : Except Fault (List Holding) :=
  s.holdings records >>= coalesce s.realm

variable {s s' : Selection} {x : Record} {records : List Record}

lemma selects_iff : s.selects x ↔ x.InGroup s.realm s.group := by
  simp [selects, realm, Record.InGroup, and_assoc]

/-- A record belongs to one selection at most. -/
theorem eq_of_selects (h : s.selects x) (h' : s'.selects x) : s = s' := by
  obtain ⟨hregistry, hfamily, hgroup⟩ := selects_iff.mp h
  obtain ⟨hregistry', hfamily', hgroup'⟩ := selects_iff.mp h'
  cases s
  cases s'
  simp only [realm] at *
  rw [← hregistry, ← hregistry', ← hfamily, ← hfamily', Option.some.inj (hgroup.symm.trans hgroup')]

lemma exists_holding?_eq_ok_iff :
    (∃ found, s.holding? x = .ok found) ↔ (s.selects x → ∃ h, x.holding = .ok h) := by
  rw [holding?]
  split
  · next hx => simp [hx, map_eq_ok_iff]
  · next hx => simp [hx]

end Selection

/-- The selection of a group in a realm. -/
def Realm.selection (r : Realm) (g : Group) : Selection := ⟨r.registry, r.family, g⟩

lemma Realm.selects_selection {r : Realm} {g : Group} {x : Record} :
    (r.selection g).selects x ↔ x.InGroup r g :=
  Selection.selects_iff

namespace Build

variable {table : CountryTable} {r : Realm} {records : List Record} {g : Group}
  {hs : List (Group × Holding)} {found runs : List Holding} {x : RangeIndex}
  {sort : List Holding → List Holding}

/-- The groups of the records of a realm, each once, in their order. -/
def groupsIn (r : Realm) (records : List Record) : List Group :=
  Group.sorted ((ofRealm r records).filterMap Record.group?).eraseDups

/-- The index of a realm from the runs of its selections, if the steps on the way succeed and no
two runs share an address. -/
def assemble (sort : List Holding → List Holding) (table : CountryTable) (r : Realm)
    (records : List Record) : Option RangeIndex :=
  match (groupsIn r records).mapM fun g => (r.selection g).runs records with
  | .error _ => none
  | .ok parts =>
    let runs := sort parts.flatten
    if runs.Pairwise fun k j => k.Disjoint j.toSpan then
      (runs.mapM (encode table r.family)).toOption.map fun es => ⟨r, es.toArray⟩
    else none

/-! ## The holdings of a selection -/

/-- The holdings of a selection can be read if its records delegate spans, and they are those of
the group. -/
lemma holdings_selection_eq_ok_iff :
    (r.selection g).holdings records = .ok found ↔
      (∀ x ∈ records, x.InGroup r g → ∃ h, x.holding = .ok h) ∧
        groupHoldings r records g = found := by
  have hread : (∀ x ∈ records, x.InGroup r g → ∃ h, x.holding = .ok h) →
      (r.selection g).holdings records = .ok (groupHoldings r records g) := by
    intro hall
    have hmap : records.mapM (r.selection g).holding? =
        .ok (records.map fun x => if x.InGroup r g then x.holding.toOption else none) := by
      refine mapM_eq_ok_of_forall fun x hx => ?_
      rw [Selection.holding?]
      by_cases hg : x.InGroup r g
      · obtain ⟨h, hh⟩ := hall x hx hg
        rw [if_pos (Realm.selects_selection.mpr hg), if_pos hg, hh]
        rfl
      · rw [if_neg (Realm.selects_selection.not.mpr hg), if_neg hg]
    rw [Selection.holdings, hmap, groupHoldings]
    simp [Except.map, List.reduceOption, List.filterMap_map]
  constructor
  · intro h
    obtain ⟨picked, hpicked, -⟩ := map_eq_ok_iff.mp h
    have hall : ∀ x ∈ records, x.InGroup r g → ∃ h, x.holding = .ok h := by
      intro x hx hg
      exact Selection.exists_holding?_eq_ok_iff.mp
        (exists_mapM_eq_ok_iff.mp ⟨picked, hpicked⟩ x hx) (Realm.selects_selection.mpr hg)
    exact ⟨hall, Except.ok.inj ((hread hall).symm.trans h)⟩
  · rintro ⟨hall, rfl⟩
    exact hread hall

lemma groupsOf_eq_groupsIn (hhs : holdings r records = .ok hs) :
    groupsOf hs = groupsIn r records := by
  have hgroup : ∀ ⦃p q⦄, groupedHolding p = .ok q → some q.1 = some p.1 := by
    intro p q h
    rw [(groupedHolding_eq_ok_iff.mp h).1]
  have hmap : hs.map (·.1) = (ofRealm r records).filterMap Record.group? :=
    calc hs.map (·.1) = hs.filterMap fun q => some q.1 :=
          (congrFun List.filterMap_eq_map' hs).symm
      _ = (grouped (ofRealm r records)).filterMap fun p => some p.1 :=
        filterMap_of_mapM hhs hgroup
      _ = (ofRealm r records).filterMap Record.group? := by
        rw [grouped, List.filterMap_filterMap]
        refine List.filterMap_congr fun x _ => ?_
        cases x.group? <;> rfl
  rw [groupsOf, groupsIn, hmap]

lemma mem_groupsIn {y : Record} (hy : y ∈ records) (hg : y.InGroup r g) :
    g ∈ groupsIn r records := by
  simp only [groupsIn, Group.sorted, List.mem_mergeSort, List.mem_eraseDups, List.mem_filterMap]
  exact ⟨y, by simp [ofRealm, hy, hg.1, hg.2.1], hg.2.2⟩

/-- If the holdings have been read, coalescing the selections is coalescing the groups. -/
lemma mapM_runs_eq (hhs : holdings r records = .ok hs) :
    ((groupsIn r records).mapM fun g => (r.selection g).runs records) =
      (partitions hs).mapM (coalesce r) := by
  rw [partitions, List.mapM_map, groupsOf_eq_groupsIn hhs]
  congr 1
  funext g
  have hread : (r.selection g).holdings records = .ok (members hs g) :=
    holdings_selection_eq_ok_iff.mpr ⟨fun x hx hg => exists_holding_of_holdings hhs hx hg,
      (members_eq_groupHoldings hhs).symm⟩
  rw [Selection.runs, hread]
  rfl

/-- The selections have runs only if every record of a group delegates a span. -/
lemma sound_of_mapM_runs {parts : List (List Holding)}
    (h : ((groupsIn r records).mapM fun g => (r.selection g).runs records) = .ok parts) :
    Sound r records := by
  intro y hy
  obtain ⟨hy, g, hg⟩ := mem_eligible.mp hy
  obtain ⟨part, hpart⟩ := exists_mapM_eq_ok_iff.mp ⟨parts, h⟩ g (mem_groupsIn hy hg)
  obtain ⟨found, hfound, -⟩ := bind_eq_ok_iff.mp hpart
  exact (holdings_selection_eq_ok_iff.mp hfound).1 y hy hg

/-! ## Neighbours and all pairs -/

/-- In the order of their starts no two runs share an address exactly if no neighbours do. -/
lemma firstOverlap_eq_none_iff_disjoint (hle : ∀ k ∈ runs, k.first ≤ k.last)
    (hordered : runs.Pairwise fun k j => k.first ≤ j.first) :
    firstOverlap runs = none ↔ runs.Pairwise fun k j => k.Disjoint j.toSpan := by
  constructor
  · intro hnone
    refine (ordered_of_firstOverlap hle hnone).imp fun hlt => ?_
    exact Span.disjoint_iff.mpr (by omega)
  · intro hdisjoint
    cases hf : firstOverlap runs with
    | none => rfl
    | some p =>
      obtain ⟨hsub, hmeet⟩ := firstOverlap_eq_some hf
      have hkj := hordered.forall_sublist hsub
      have hj := hle p.2 (hsub.mem (by simp))
      have hlt := Span.disjoint_iff.mp (hdisjoint.forall_sublist hsub)
      omega

/-- Either way of looking for shared addresses gives the same entries. -/
lemma sortedEntries_eq_ok_iff {es : List Entry} (hle : ∀ k ∈ runs, k.first ≤ k.last)
    (hordered : runs.Pairwise fun k j => k.first ≤ j.first) :
    sortedEntries table r runs = .ok es ↔
      (runs.Pairwise fun k j => k.Disjoint j.toSpan) ∧
        runs.mapM (encode table r.family) = .ok es := by
  rw [← firstOverlap_eq_none_iff_disjoint hle hordered, sortedEntries]
  cases firstOverlap runs <;> simp

/-! ## Both ways give the same index -/

/-- An index is assembled if the runs of the selections, sorted, are without shared addresses and
can be encoded. -/
lemma assemble_eq_some_iff :
    assemble sort table r records = some x ↔
      ∃ parts, ((groupsIn r records).mapM fun g => (r.selection g).runs records) = .ok parts ∧
        ((sort parts.flatten).Pairwise fun k j => k.Disjoint j.toSpan) ∧
        ∃ es, (sort parts.flatten).mapM (encode table r.family) = .ok es ∧
          (⟨r, es.toArray⟩ : RangeIndex) = x := by
  rw [assemble]
  split
  · next hparts => simp [hparts]
  · next parts hparts =>
    dsimp only
    split
    · next hdisjoint =>
      cases hes : (sort parts.flatten).mapM (encode table r.family) <;>
        simp [hparts, hdisjoint, hes, Except.toOption]
    · next hdisjoint => simp [hparts, hdisjoint]

theorem buildSorting_eq_ok_iff_assemble (hsort : IsSorting sort) :
    buildSorting sort table r records = .ok x ↔ assemble sort table r records = some x := by
  rw [assemble_eq_some_iff]
  cases hhs : holdings r records with
  | error f =>
    -- the same record is at fault in its selection
    have hnot : ¬ Sound r records := by
      rw [← exists_holdings_iff, hhs]
      simp
    have hparts : ∀ parts,
        ((groupsIn r records).mapM fun g => (r.selection g).runs records) ≠ .ok parts :=
      fun _ h => hnot (sound_of_mapM_runs h)
    rw [buildSorting, hhs]
    simp [hparts, bind, Except.bind]
  | ok hs =>
    rw [buildSorting, hhs, mapM_runs_eq hhs]
    simp only [bind_eq_ok_iff, Except.ok.injEq, exists_eq_left', pure, Except.pure]
    refine exists_congr fun parts => and_congr_right fun hparts => ?_
    have hle := (allRuns_flatten hhs hparts).perm (hsort.perm parts.flatten) |>.first_le_last
    simp only [sortedEntries_eq_ok_iff hle (hsort.ordered parts.flatten), and_assoc,
      exists_and_left]

end Build

open Build

/-- A build yields an index exactly if the way through the selections does, and the same one;
how runs are sorted by their starts does not matter.  Each record belongs to one selection at
most. -/
theorem build_eq_ok_iff_assemble (table : CountryTable) (r : Realm) (records : List Record)
    {sort : List Holding → List Holding} (hsort : IsSorting sort) :
    (∀ x, build table r records = .ok x ↔ assemble sort table r records = some x) ∧
      ∀ (y : Record) (s s' : Selection), s.selects y → s'.selects y → s = s' := by
  refine ⟨fun x => ?_, fun y s s' => Selection.eq_of_selects⟩
  rw [← buildSorting_eq_ok_iff_assemble hsort, build_eq_buildSorting]
  exact ⟨buildSorting_eq_ok_of isSorting_quicksort hsort,
    buildSorting_eq_ok_of hsort isSorting_quicksort⟩

/-- Blocks of one status that leave a gap, and a block of another status across all of them. -/
def straddledBlocks : List Record :=
  [rootBlock 0 16 .apnic, rootBlock 64 16 .apnic, rootBlock 8 64 .arin]

theorem build_eq_ok_iff_assemble_mixed :
    IsSorting sortByFirst ∧
      assemble sortByFirst germanyFrance ⟨.ripencc, .ipv4⟩ mixedRecords = some mixedIndex ∧
      assemble sortByFirst unknownOnly ⟨.iana, .ipv4⟩ straddledBlocks = none := by
  have hsort : IsSorting sortByFirst := ⟨sortByFirst_perm, sortByFirst_pairwise⟩
  have hmixed : build germanyFrance ⟨.ripencc, .ipv4⟩ mixedRecords = .ok mixedIndex := by cbv
  have hstraddled : build unknownOnly ⟨.iana, .ipv4⟩ straddledBlocks =
      .error (.overlappingRanges .iana .ipv4 0 15 8) := by cbv
  refine ⟨hsort, ?_, Option.eq_none_iff_forall_ne_some.mpr fun x hx => ?_⟩
  · exact ((build_eq_ok_iff_assemble _ _ _ hsort).1 _).mp hmixed
  · rw [← (build_eq_ok_iff_assemble _ _ _ hsort).1, hstraddled] at hx
    cases hx

end Delegation
