import Delegation.Proofs.Build.Stages

/-!
# What a build ends with

A build stops at the first of four causes that it meets: a record that delegates no span, two
holdings of one group that clash, two groups that share an address, and a run whose country
has no code.  Without any of them it yields an index.

The groups are coalesced in their order, so the clash that is reported is one of the first
group that has any.  Only neighbouring runs are compared; this finds a shared address whenever
there is one, because runs in which no neighbours meet are in order
(`firstOverlap_eq_none_iff`).

An index comes out only if the starts of all runs differ.  Then there is one order for the
runs, and the way of sorting them has no effect (`buildSorting_eq_ok_of`).

Main result: `build_outcome`.
-/

namespace Delegation

open Sequence Coalesce

/-! ## Countries without a code -/

namespace CountryTable

variable {table : CountryTable} {c : Country} {f : Fault}

lemma exists_codeOf_iff : (∃ code, table.codeOf c = .ok code) ↔ c ∈ table.countries := by
  simp only [codeOf_eq_ok_iff, ← Option.isSome_iff_exists, List.isSome_idxOf?]

lemma codeOf_eq_error_iff :
    table.codeOf c = .error f ↔ c ∉ table.countries ∧ .unknownName .country c.name = f := by
  rw [← exists_codeOf_iff]
  rw [codeOf]
  cases table.countries.idxOf? c <;> simp

end CountryTable

namespace Build

variable {table : CountryTable} {r : Realm} {records : List Record} {g : Group} {f : Fault}
  {hs : List (Group × Holding)} {parts : List (List Holding)} {runs : List Holding}
  {k j : Holding} {sort : List Holding → List Holding} {x : RangeIndex}

/-! ## The causes -/

/-- Every record of the realm and a group delegates a span. -/
def Sound (r : Realm) (records : List Record) : Prop :=
  ∀ x ∈ eligible r records, ∃ h, x.holding = .ok h

/-- The holdings of some group clash. -/
def Conflicted (r : Realm) (records : List Record) : Prop :=
  ∃ g, Clashing (groupHoldings r records g)

/-- Two groups share an address. -/
def Disputed (r : Realm) (records : List Record) : Prop :=
  ∃ g g' a, g ≠ g' ∧ OwnedBy r records g a ∧ OwnedBy r records g' a

/-- The holding is a run of some group, and its country has no code. -/
def Unlisted (table : CountryTable) (r : Realm) (records : List Record) (k : Holding) : Prop :=
  (∃ g, IsRunOf r records g k) ∧ k.country ∉ table.countries

/-! ## Reading the holdings -/

lemma exists_holdings_iff : (∃ hs, holdings r records = .ok hs) ↔ Sound r records := by
  rw [holdings, exists_mapM_eq_ok_iff, Sound, ← map_snd_grouped, List.forall_mem_map]
  exact forall₂_congr fun p _ => exists_groupedHolding_iff

lemma buildSorting_of_firstFault (hf : FirstFault r records f) :
    buildSorting sort table r records = .error f := by
  rw [buildSorting, holdings_eq_error_iff.mpr hf]
  rfl

/-! ## Coalescing the groups -/

/-- The clash that is reported is one of the first group with any. -/
lemma exists_of_mapM_coalesce_eq_error (hhs : holdings r records = .ok hs)
    (hparts : (partitions hs).mapM (coalesce r) = .error f) :
    ∃ g, (∀ g', Clashing (groupHoldings r records g') → Group.le g g') ∧
      ∃ h ∈ groupHoldings r records g, ∃ k ∈ groupHoldings r records g,
        h.first = k.first ∧ h.last ≠ k.last ∧
        f = .conflictingRanges r.registry r.family h.first h.last k.last := by
  rw [partitions, List.mapM_map, mapM_eq_error_iff] at hparts
  obtain ⟨before, g, after, hgroups, hbefore, hg⟩ := hparts
  rw [Function.comp_apply, members_eq_groupHoldings hhs] at hg
  obtain ⟨c, hc, rfl⟩ := coalesce_eq_error_iff.mp hg
  have hclash := firstClash_of_distinct hc
  refine ⟨g, ?_, c.existing, hclash.mem.1, c.incoming, hclash.mem.2,
    hclash.first_eq.symm, hclash.last_ne.symm, by rw [← hclash.first_eq]; rfl⟩
  intro g' hg'
  -- a group that clashes occurs, and not before the one that is reported
  have hmem : g' ∈ groupsOf hs := by
    obtain ⟨h, hh, -⟩ := hg'
    rw [← members_eq_groupHoldings hhs] at hh
    exact mem_groupsOf.mpr ⟨h, mem_members.mp hh⟩
  have hsorted := groupsOf_pairwise hs
  rw [hgroups] at hmem hsorted
  rcases List.mem_append.mp hmem with hmem | hmem
  · have hok := hbefore g' hmem
    rw [Function.comp_apply, members_eq_groupHoldings hhs] at hok
    exact absurd hg' (exists_coalesce_eq_ok_iff.mp hok)
  · rcases List.mem_cons.mp hmem with rfl | hmem
    · exact Group.le_iff.mpr (Nat.le_refl _)
    · exact List.rel_of_pairwise_cons (List.pairwise_append.mp hsorted).2.1 hmem

lemma exists_mapM_coalesce_iff (hhs : holdings r records = .ok hs) :
    (∃ parts, (partitions hs).mapM (coalesce r) = .ok parts) ↔ ¬ Conflicted r records := by
  constructor
  · rintro ⟨parts, hparts⟩ ⟨g, hg⟩
    exact exists_coalesce_eq_ok_iff.mp (exists_coalesce_of_mapM hhs hparts) hg
  · intro hno
    cases hparts : (partitions hs).mapM (coalesce r) with
    | ok parts => exact ⟨parts, rfl⟩
    | error f =>
      obtain ⟨g, -, h, hh, k, hk, hfirst, hlast, -⟩ := exists_of_mapM_coalesce_eq_error hhs hparts
      exact absurd ⟨g, h, hh, k, hk, hfirst, hlast⟩ hno

lemma buildSorting_of_conflicted (hsound : Sound r records) (hclash : Conflicted r records) :
    ∃ g, (∀ g', Clashing (groupHoldings r records g') → Group.le g g') ∧
      ∃ h ∈ groupHoldings r records g, ∃ k ∈ groupHoldings r records g,
        h.first = k.first ∧ h.last ≠ k.last ∧
        buildSorting sort table r records =
          .error (.conflictingRanges r.registry r.family h.first h.last k.last) := by
  obtain ⟨hs, hhs⟩ := exists_holdings_iff.mpr hsound
  cases hparts : (partitions hs).mapM (coalesce r) with
  | ok parts => exact absurd hclash ((exists_mapM_coalesce_iff hhs).mp ⟨parts, hparts⟩)
  | error f =>
    obtain ⟨g, hleast, h, hh, k, hk, hfirst, hlast, rfl⟩ :=
      exists_of_mapM_coalesce_eq_error hhs hparts
    refine ⟨g, hleast, h, hh, k, hk, hfirst, hlast, ?_⟩
    rw [buildSorting, hhs]
    simp only [bind, Except.bind, hparts]

/-- Beyond the first two causes, the outcome is decided by the sorted runs. -/
lemma buildSorting_of_not_conflicted (table : CountryTable) (hsort : IsSorting sort)
    (hsound : Sound r records) (hclash : ¬ Conflicted r records) :
    ∃ runs, AllRuns r records runs ∧ (runs.Pairwise fun k j => k.first ≤ j.first) ∧
      buildSorting sort table r records =
        (sortedEntries table r runs).map fun es => ⟨r, es.toArray⟩ := by
  obtain ⟨hs, hhs⟩ := exists_holdings_iff.mpr hsound
  obtain ⟨parts, hparts⟩ := (exists_mapM_coalesce_iff hhs).mpr hclash
  refine ⟨sort parts.flatten, (allRuns_flatten hhs hparts).perm (hsort.perm _),
    hsort.ordered _, ?_⟩
  rw [buildSorting, hhs]
  simp only [bind, Except.bind, hparts]
  cases sortedEntries table r (sort parts.flatten) <;> rfl

/-! ## Shared addresses -/

namespace AllRuns

/-- Neighbours that meet are of different groups. -/
lemma of_firstOverlap_eq_some (hr : AllRuns r records runs)
    (hordered : runs.Pairwise fun k j => k.first ≤ j.first) (h : firstOverlap runs = some (k, j)) :
    ∃ g g', g ≠ g' ∧ IsRunOf r records g k ∧ IsRunOf r records g' j ∧ k.contains j.first := by
  obtain ⟨hsub, hmeet⟩ := firstOverlap_eq_some h
  have hkj : k.first ≤ j.first := hordered.forall_sublist hsub
  have hapart := hr.apart.forall_sublist hsub
  have hjle := hr.first_le_last j (hsub.mem (by simp))
  obtain ⟨g, hk⟩ := (hr.mem_iff k).mp (hsub.mem (by simp))
  obtain ⟨g', hj⟩ := (hr.mem_iff j).mp (hsub.mem (by simp))
  refine ⟨g, g', ?_, hk, hj, Span.contains_iff.mpr ⟨hkj, hmeet⟩⟩
  intro heq
  have hgap := hapart (by rw [hk.groupIn_eq, hj.groupIn_eq, heq])
  omega

/-- No neighbours meet exactly if no two groups share an address. -/
lemma firstOverlap_eq_none_iff (hr : AllRuns r records runs)
    (hordered : runs.Pairwise fun k j => k.first ≤ j.first)
    (hclash : ¬ Conflicted r records) :
    firstOverlap runs = none ↔ ¬ Disputed r records := by
  constructor
  · rintro hnone ⟨g, g', a, hne, ⟨x, hx, hg, h, hh, ha⟩, x', hx', hg', h', hh', ha'⟩
    -- the address lies in a run of either group, and these runs would be apart
    have hcoalesce : ∀ g, ∃ part, coalesce r (groupHoldings r records g) = .ok part :=
      fun g => exists_coalesce_eq_ok_iff.mpr fun hc => hclash ⟨g, hc⟩
    obtain ⟨k, hk, hkfirst, hklast⟩ := exists_isRunOf_encloses (hcoalesce g) hx hg hh
    obtain ⟨j, hj, hjfirst, hjlast⟩ := exists_isRunOf_encloses (hcoalesce g') hx' hg' hh'
    rw [Span.contains_iff] at ha ha'
    have hkmem := (hr.mem_iff k).mpr ⟨g, hk⟩
    have hjmem := (hr.mem_iff j).mpr ⟨g', hj⟩
    have hapart := ordered_of_firstOverlap hr.first_le_last hnone
    rcases eq_or_of_pairwise hapart hkmem hjmem with rfl | hlt | hlt
    · exact hne (hk.groupIn_eq.symm.trans hj.groupIn_eq)
    · omega
    · omega
  · intro hno
    cases hf : firstOverlap runs with
    | none => rfl
    | some p =>
      obtain ⟨g, g', hne, hk, hj, ha⟩ := hr.of_firstOverlap_eq_some hordered hf
      refine absurd ⟨g, g', p.2.first, hne, hk.ownedBy ha, hj.ownedBy ?_⟩ hno
      exact Span.contains_iff.mpr ⟨Nat.le_refl _, hj.first_le_last⟩

end AllRuns

/-! ## Encoding the runs -/

lemma encode_eq_error_iff (hk : k.last ≤ r.family.maxAddress) :
    encode table r.family k = .error f ↔
      k.country ∉ table.countries ∧ .unknownName .country k.country.name = f := by
  rw [encode, if_neg (Nat.not_lt.mpr hk), map_eq_error_iff, CountryTable.codeOf_eq_error_iff]

/-- The run that is reported is the lowest one whose country has no code. -/
lemma AllRuns.exists_of_mapM_encode_eq_error (hr : AllRuns r records runs)
    (hordered : runs.Pairwise fun k j => k.first ≤ j.first)
    (h : runs.mapM (encode table r.family) = .error f) :
    ∃ k, Unlisted table r records k ∧
      (∀ j, Unlisted table r records j → k.first ≤ j.first) ∧
      f = .unknownName .country k.country.name := by
  rw [mapM_eq_error_iff] at h
  obtain ⟨before, k, after, hruns, hbefore, hk⟩ := h
  obtain ⟨g, hg⟩ := (hr.mem_iff k).mp (by simp [hruns])
  obtain ⟨hcountry, rfl⟩ := (encode_eq_error_iff hg.last_le).mp hk
  refine ⟨k, ⟨⟨g, hg⟩, hcountry⟩, ?_, rfl⟩
  intro j hj
  have hmem := (hr.mem_iff j).mpr hj.1
  rw [hruns] at hmem hordered
  rcases List.mem_append.mp hmem with hmem | hmem
  · -- all runs before the reported one have codes
    obtain ⟨e, he⟩ := hbefore j hmem
    obtain ⟨-, code, hcode, -⟩ := encode_eq_ok_iff.mp he
    exact absurd (CountryTable.exists_codeOf_iff.mp ⟨code, hcode⟩) hj.2
  · rcases List.mem_cons.mp hmem with rfl | hmem
    · exact Nat.le_refl _
    · exact List.rel_of_pairwise_cons (List.pairwise_append.mp hordered).2.1 hmem

lemma AllRuns.exists_mapM_encode_iff (hr : AllRuns r records runs) :
    (∃ es, runs.mapM (encode table r.family) = .ok es) ↔
      ¬ ∃ k, Unlisted table r records k := by
  rw [exists_mapM_eq_ok_iff]
  constructor
  · rintro hok ⟨k, hk, hcountry⟩
    obtain ⟨e, he⟩ := hok k ((hr.mem_iff k).mpr hk)
    obtain ⟨-, code, hcode, -⟩ := encode_eq_ok_iff.mp he
    exact hcountry (CountryTable.exists_codeOf_iff.mp ⟨code, hcode⟩)
  · intro hno k hk
    obtain ⟨g, hg⟩ := (hr.mem_iff k).mp hk
    cases hencode : encode table r.family k with
    | ok e => exact ⟨e, rfl⟩
    | error f => exact absurd ⟨k, ⟨g, hg⟩, ((encode_eq_error_iff hg.last_le).mp hencode).1⟩ hno

/-- Away from the root registry the countries of the runs are those of the records. -/
lemma exists_unlisted_iff (hroot : r.registry ≠ .iana) (hsound : Sound r records)
    (hclash : ¬ Conflicted r records) :
    (∃ k, Unlisted table r records k) ↔
      ∃ x ∈ eligible r records, x.country ∉ table.countries := by
  constructor
  · rintro ⟨k, ⟨g, hk⟩, hcountry⟩
    obtain ⟨x, hx, hg, h, hh, -⟩ :=
      hk.ownedBy (Span.contains_iff.mpr ⟨Nat.le_refl _, hk.first_le_last⟩)
    have hgroup : k.groupIn r.registry = h.groupIn r.registry := by
      rw [hk.groupIn_eq, Record.groupIn_of_inGroup hg hh]
    obtain ⟨s, -, rfl⟩ := Record.holding_eq_ok_iff.mp hh
    have heq : k.country = x.country := Holding.country_eq_of_groupIn_eq hroot hgroup
    exact ⟨x, mem_eligible.mpr ⟨hx, g, hg⟩, heq ▸ hcountry⟩
  · rintro ⟨x, hx, hcountry⟩
    obtain ⟨h, hh⟩ := hsound x hx
    obtain ⟨hx, g, hg⟩ := mem_eligible.mp hx
    obtain ⟨k, hk, -⟩ := exists_isRunOf_encloses
      (exists_coalesce_eq_ok_iff.mpr fun hc => hclash ⟨g, hc⟩) hx hg hh
    have hgroup : k.groupIn r.registry = h.groupIn r.registry := by
      rw [hk.groupIn_eq, Record.groupIn_of_inGroup hg hh]
    obtain ⟨s, -, rfl⟩ := Record.holding_eq_ok_iff.mp hh
    have heq : k.country = x.country := Holding.country_eq_of_groupIn_eq hroot hgroup
    exact ⟨k, ⟨g, hk⟩, by rwa [heq]⟩

/-! ## The outcome -/

lemma buildSorting_of_disputed (hsort : IsSorting sort) (hsound : Sound r records)
    (hclash : ¬ Conflicted r records) (hdisputed : Disputed r records) :
    ∃ g g' k j, g ≠ g' ∧ IsRunOf r records g k ∧ IsRunOf r records g' j ∧ k.contains j.first ∧
      buildSorting sort table r records =
        .error (.overlappingRanges r.registry r.family k.first k.last j.first) := by
  obtain ⟨runs, hr, hordered, heq⟩ :=
    buildSorting_of_not_conflicted table hsort hsound hclash
  cases hf : firstOverlap runs with
  | none => exact absurd hdisputed ((hr.firstOverlap_eq_none_iff hordered hclash).mp hf)
  | some p =>
    obtain ⟨g, g', hne, hk, hj, ha⟩ := hr.of_firstOverlap_eq_some hordered hf
    refine ⟨g, g', p.1, p.2, hne, hk, hj, ha, ?_⟩
    rw [heq, sortedEntries, hf]
    rfl

/-- Beyond the first three causes, the outcome is decided by the codes. -/
lemma buildSorting_of_not_disputed (table : CountryTable) (hsort : IsSorting sort)
    (hsound : Sound r records) (hclash : ¬ Conflicted r records)
    (hdisputed : ¬ Disputed r records) :
    ∃ runs, AllRuns r records runs ∧ (runs.Pairwise fun k j => k.first ≤ j.first) ∧
      buildSorting sort table r records =
        (runs.mapM (encode table r.family)).map fun es => ⟨r, es.toArray⟩ := by
  obtain ⟨runs, hr, hordered, heq⟩ :=
    buildSorting_of_not_conflicted table hsort hsound hclash
  refine ⟨runs, hr, hordered, ?_⟩
  rw [heq, sortedEntries, (hr.firstOverlap_eq_none_iff hordered hclash).mpr hdisputed]

lemma buildSorting_of_unlisted (hsort : IsSorting sort) (hsound : Sound r records)
    (hclash : ¬ Conflicted r records) (hdisputed : ¬ Disputed r records)
    (hunlisted : ∃ k, Unlisted table r records k) :
    ∃ k, Unlisted table r records k ∧
      (∀ j, Unlisted table r records j → k.first ≤ j.first) ∧
      buildSorting sort table r records = .error (.unknownName .country k.country.name) := by
  obtain ⟨runs, hr, hordered, heq⟩ :=
    buildSorting_of_not_disputed table hsort hsound hclash hdisputed
  cases hes : runs.mapM (encode table r.family) with
  | ok es => exact absurd hunlisted (hr.exists_mapM_encode_iff.mp ⟨es, hes⟩)
  | error f =>
    obtain ⟨k, hk, hleast, rfl⟩ := hr.exists_of_mapM_encode_eq_error hordered hes
    refine ⟨k, hk, hleast, ?_⟩
    rw [heq, hes]
    rfl

lemma exists_buildSorting (hsort : IsSorting sort) (hsound : Sound r records)
    (hclash : ¬ Conflicted r records) (hdisputed : ¬ Disputed r records)
    (hlisted : ¬ ∃ k, Unlisted table r records k) :
    ∃ x, buildSorting sort table r records = .ok x := by
  obtain ⟨runs, hr, hordered, heq⟩ :=
    buildSorting_of_not_disputed table hsort hsound hclash hdisputed
  obtain ⟨es, hes⟩ := hr.exists_mapM_encode_iff.mpr hlisted
  exact ⟨_, by rw [heq, hes]; rfl⟩

/-! ## Other ways of sorting -/

/-- Runs whose starts differ have one order. -/
lemma IsSorting.eq_of_ordered {sort' : List Holding → List Holding} (hsort : IsSorting sort)
    (hsort' : IsSorting sort') (hle : ∀ k ∈ runs, k.first ≤ k.last)
    (hordered : (sort runs).Pairwise fun k j => k.last < j.first) : sort runs = sort' runs := by
  refine List.Perm.eq_of_pairwise ?_ (hsort.ordered runs) (hsort'.ordered runs)
    ((hsort.perm runs).trans (hsort'.perm runs).symm)
  intro k j hk hj hkj hjk
  rw [(hsort'.perm runs).mem_iff, ← (hsort.perm runs).mem_iff] at hj
  have hkle := hle k ((hsort.perm runs).mem_iff.mp hk)
  have hjle := hle j ((hsort.perm runs).mem_iff.mp hj)
  -- runs that share no address have different starts
  rcases eq_or_of_pairwise hordered hk hj with heq | hlt | hlt
  · exact heq
  · omega
  · omega

/-- An index that is built with one way of sorting is built with any other. -/
theorem buildSorting_eq_ok_of {sort' : List Holding → List Holding} (hsort : IsSorting sort)
    (hsort' : IsSorting sort') (h : buildSorting sort table r records = .ok x) :
    buildSorting sort' table r records = .ok x := by
  simp only [buildSorting] at h ⊢
  obtain ⟨hs, hhs, h⟩ := bind_eq_ok_iff.mp h
  obtain ⟨parts, hparts, h⟩ := bind_eq_ok_iff.mp h
  refine bind_eq_ok_iff.mpr ⟨hs, hhs, bind_eq_ok_iff.mpr ⟨parts, hparts, ?_⟩⟩
  -- both ways go the same up to here
  have hle := (allRuns_flatten hhs hparts).first_le_last
  cases hf : firstOverlap (sort parts.flatten) with
  | some p => simp [sortedEntries, hf, bind, Except.bind] at h
  | none =>
    have hordered := ordered_of_firstOverlap
      (fun k hk => hle k ((hsort.perm _).mem_iff.mp hk)) hf
    rwa [← hsort.eq_of_ordered hsort' hle hordered]

end Build

open Build

/-- A build ends with the first of its causes that holds, and with an index if none does:

* a record delegates no span, and the first such record is reported;
* holdings of a group clash, and the first such group is reported;
* groups share an address, and the reported start lies in the reported run;
* a run has no code for its country, and the lowest such run is reported; away from the root
  registry there is one exactly if the country of a record has no code.

The index is the same for every way of sorting the runs by their starts. -/
theorem build_outcome (table : CountryTable) (r : Realm) (records : List Record) :
    (¬ Sound r records → ∃ f, FirstFault r records f ∧ build table r records = .error f) ∧
    (Sound r records → Conflicted r records →
      ∃ g, (∀ g', Clashing (groupHoldings r records g') → Group.le g g') ∧
        ∃ h ∈ groupHoldings r records g, ∃ k ∈ groupHoldings r records g,
          h.first = k.first ∧ h.last ≠ k.last ∧
          build table r records =
            .error (.conflictingRanges r.registry r.family h.first h.last k.last)) ∧
    (Sound r records → ¬ Conflicted r records → Disputed r records →
      ∃ g g' k j, g ≠ g' ∧ IsRunOf r records g k ∧ IsRunOf r records g' j ∧
        k.contains j.first ∧
        build table r records =
          .error (.overlappingRanges r.registry r.family k.first k.last j.first)) ∧
    (Sound r records → ¬ Conflicted r records → ¬ Disputed r records →
      ((∃ k, Unlisted table r records k) → ∃ k, Unlisted table r records k ∧
        (∀ j, Unlisted table r records j → k.first ≤ j.first) ∧
        build table r records = .error (.unknownName .country k.country.name)) ∧
      ((¬ ∃ k, Unlisted table r records k) → ∃ x, build table r records = .ok x)) ∧
    (r.registry ≠ .iana → Sound r records → ¬ Conflicted r records →
      ((∃ k, Unlisted table r records k) ↔
        ∃ x ∈ eligible r records, x.country ∉ table.countries)) ∧
    ∀ sort, IsSorting sort → ∀ x,
      buildSorting sort table r records = .ok x ↔ build table r records = .ok x := by
  rw [build_eq_buildSorting]
  refine ⟨?_, buildSorting_of_conflicted, buildSorting_of_disputed isSorting_quicksort, ?_,
    exists_unlisted_iff, ?_⟩
  · intro hsound
    cases hhs : holdings r records with
    | ok hs => exact absurd (exists_holdings_iff.mp ⟨hs, hhs⟩) hsound
    | error f =>
      have hf := holdings_eq_error_iff.mp hhs
      exact ⟨f, hf, buildSorting_of_firstFault hf⟩
  · intro hsound hclash hdisputed
    exact ⟨buildSorting_of_unlisted isSorting_quicksort hsound hclash hdisputed,
      exists_buildSorting isSorting_quicksort hsound hclash hdisputed⟩
  · intro sort hsort x
    constructor
    · exact buildSorting_eq_ok_of hsort isSorting_quicksort
    · exact buildSorting_eq_ok_of isSorting_quicksort hsort

/-- Overlapping blocks are reported before the countries, none of which is in this table. -/
example : build .empty ⟨.iana, .ipv4⟩ [⟨.iana, .unknown, .ipv4, 0, .count 10, .apnic⟩,
    ⟨.iana, .unknown, .ipv4, 5, .count 10, .arin⟩] =
      .error (.overlappingRanges .iana .ipv4 0 9 5) := by cbv

end Delegation
