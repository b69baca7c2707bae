import Delegation.Proofs.Build.Stages

/-!
# Looking up an address

A lookup in an index that has been built answers for the records that it was built from: it
finds an entry exactly if one of them delegates the address, and the entry encloses all
records that do and has the code of their common group.
-/

namespace Delegation

open Build Sequence

variable {table : CountryTable} {r : Realm} {records : List Record} {x : RangeIndex}

/-- A lookup finds an entry exactly if a record of the realm and some group delegates the
address.  The entry encloses every such record and has its country code, or its status code at
the root registry. -/
theorem lookup_of_build (hx : build table r records = .ok x) (a : Nat) :
    ((x.lookup a).isSome ↔
        ∃ y ∈ records, ∃ g, y.InGroup r g ∧ ∃ h, y.holding = .ok h ∧ h.contains a) ∧
      ∀ e, x.lookup a = some e → ∀ y ∈ records, ∀ g h, y.InGroup r g → y.holding = .ok h →
        h.contains a →
          e.first ≤ h.first ∧ h.last ≤ e.last ∧
          (r.registry ≠ .iana → table.codeOf y.country = .ok e.countryCode) ∧
          (r.registry = .iana → e.statusCode = y.status.code) := by
  rw [build_eq_buildSorting] at hx
  obtain ⟨runs, hb⟩ := built_of_buildSorting isSorting_quicksort hx
  constructor
  · rw [RangeIndex.isSome_lookup_iff hb.ordered_entries]
    constructor
    · rintro ⟨e, he, ha⟩
      obtain ⟨k, hk, hke⟩ := hb.mem_entries.mp he
      rw [Built.toSpan_eq hke] at ha
      obtain ⟨y, hy, hg, h, hh, ha⟩ := hb.exists_run_iff.mp ⟨k, hk, rfl, ha⟩
      exact ⟨y, hy, _, hg, h, hh, ha⟩
    · rintro ⟨y, hy, g, hg, h, hh, ha⟩
      obtain ⟨k, hk, -, ha⟩ := hb.exists_run_iff.mpr ⟨y, hy, hg, h, hh, ha⟩
      obtain ⟨e, he, hke⟩ := hb.exists_entry hk
      exact ⟨e, he, by rwa [Built.toSpan_eq hke]⟩
  · intro e he y hy g h hg hh ha
    obtain ⟨he, hea⟩ := (RangeIndex.lookup_eq_some_iff hb.ordered_entries).mp he
    -- the run around the record has an entry, which contains the address as well
    obtain ⟨k, hk, hfirst, hlast⟩ := exists_isRunOf_encloses (hb.exists_coalesce g) hy hg hh
    obtain ⟨d, hd, hkd⟩ := hb.exists_entry ((hb.allRuns.mem_iff k).mpr ⟨g, hk⟩)
    have hspan := Built.toSpan_eq hkd
    have hda : d.contains a := by
      rw [hspan, Span.contains_iff]
      rw [Span.contains_iff] at ha
      omega
    obtain rfl := hb.ordered_entries.eq_of_contains hd he hda hea
    obtain ⟨-, code, hcode, rfl⟩ := encode_eq_ok_iff.mp hkd
    have hgroup : k.groupIn r.registry = h.groupIn r.registry := by
      rw [hk.groupIn_eq, Record.groupIn_of_inGroup hg hh]
    obtain ⟨s, -, rfl⟩ := Record.holding_eq_ok_iff.mp hh
    refine ⟨hfirst, hlast, ?_, ?_⟩
    · intro hroot
      have hcountry : k.country = y.country := Holding.country_eq_of_groupIn_eq hroot hgroup
      rw [← hcountry]
      exact hcode
    · intro hroot
      have hstatus : k.status = y.status := Holding.status_eq_of_groupIn_eq hroot hgroup
      show k.status.code = y.status.code
      rw [hstatus]

/-- Germany. -/
def germany : Country := ⟨'D', 'E', rfl, rfl⟩

/-- France. -/
def france : Country := ⟨'F', 'R', rfl, rfl⟩

/-- A table of two countries. -/
def germanyFrance : CountryTable := ⟨[germany, france], by decide, by decide⟩

/-- Records out of order that overlap, touch and repeat each other, and one of another
realm. -/
def mixedRecords : List Record :=
  [⟨.ripencc, france, .ipv4, 512, .count 256, .allocated⟩,
    ⟨.ripencc, germany, .ipv4, 256, .count 128, .assigned⟩,
    ⟨.apnic, france, .ipv4, 0, .count 1024, .allocated⟩,
    ⟨.ripencc, germany, .ipv4, 0, .count 256, .allocated⟩,
    ⟨.ripencc, germany, .ipv4, 200, .count 100, .allocated⟩,
    ⟨.ripencc, france, .ipv4, 512, .count 256, .assigned⟩]

/-- The index of `mixedRecords`. -/
def mixedIndex : RangeIndex :=
  ⟨⟨.ripencc, .ipv4⟩, #[⟨⟨0, 383⟩, 0, 1⟩, ⟨⟨512, 767⟩, 1, 1⟩]⟩

theorem lookup_of_build_mixed :
    build germanyFrance ⟨.ripencc, .ipv4⟩ mixedRecords = .ok mixedIndex ∧
      ∃ e, mixedIndex.lookup 250 = some e ∧ e.first ≤ 200 ∧ 299 ≤ e.last ∧
        germanyFrance.codeOf germany = .ok e.countryCode := by
  have hok : build germanyFrance ⟨.ripencc, .ipv4⟩ mixedRecords = .ok mixedIndex := by cbv
  obtain ⟨hsome, hencloses⟩ := lookup_of_build hok 250
  have hmem : (⟨.ripencc, germany, .ipv4, 200, .count 100, .allocated⟩ : Record) ∈
      mixedRecords := by decide
  have hholding : (⟨.ripencc, germany, .ipv4, 200, .count 100, .allocated⟩ : Record).holding =
      .ok ⟨⟨200, 299⟩, germany, .allocated⟩ := by cbv
  have hgroup : (⟨.ripencc, germany, .ipv4, 200, .count 100, .allocated⟩ : Record).InGroup
      ⟨.ripencc, .ipv4⟩ (.country germany) := by decide
  obtain ⟨e, he⟩ := Option.isSome_iff_exists.mp
    (hsome.mpr ⟨_, hmem, _, hgroup, _, hholding, by decide⟩)
  obtain ⟨hfirst, hlast, hcode, -⟩ := hencloses e he _ hmem _ _ hgroup hholding (by decide)
  exact ⟨hok, e, he, hfirst, hlast, hcode (by decide)⟩

end Delegation
