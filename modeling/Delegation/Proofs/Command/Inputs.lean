import Delegation.Command.Run
import Delegation.Proofs.Build.Canonical
import Delegation.Proofs.Statistics.Loading

/-!
# What a command works with

A build and a lookup begin in the same way: the country table is read, then all statistics files,
and all indexes are built from their records.  If one of these steps fails, the command ends with
the complaint about it; otherwise it goes on with what the steps have led to (`Loads`).
-/

namespace Delegation.Command

open Delegation.Statistics Sequence

variable {inputs : Inputs} {paths : List String} {countries : Option String}
  {table : CountryTable} {records : List Record} {c : Catalog} {tally : BuildTally}

/-- The country table is read, so are all statistics files, and the indexes of their records are
built. -/
structure Loads (inputs : Inputs) (paths : List String) (countries : Option String)
    (table : CountryTable) (records : List Record) (c : Catalog) : Prop where
  table_read : loadCountries inputs countries = .ok table
  records_read : ∃ files, List.Forall₂ (fun o file => Opened.read o = .ok file)
    (inputs.source.opened paths) files ∧ files.flatMap (·.records) = records
  built : buildAll table records = .ok c

lemma failing_eq_ok_iff {α : Type} {context : String} {result : Except Fault α} {a : α} :
    failing context result = .ok a ↔ result = .ok a := by
  cases result <;> simp [failing]

lemma loadRecords_eq_ok_iff :
    loadRecords inputs paths = .ok records ↔
      ∃ files, List.Forall₂ (fun o file => Opened.read o = .ok file)
        (inputs.source.opened paths) files ∧ files.flatMap (·.records) = records := by
  simp only [loadRecords, failing_eq_ok_iff, loadAll, map_eq_ok_iff, mapM_eq_ok_iff]

/-- Inputs lead to one table, one list of records and one catalog. -/
lemma Loads.unique {table' : CountryTable} {records' : List Record} {c' : Catalog}
    (h : Loads inputs paths countries table records c)
    (h' : Loads inputs paths countries table' records' c') :
    table = table' ∧ records = records' ∧ c = c' := by
  obtain rfl := Except.ok.inj (h.table_read.symm.trans h'.table_read)
  obtain rfl := Except.ok.inj ((loadRecords_eq_ok_iff.mpr h.records_read).symm.trans
    (loadRecords_eq_ok_iff.mpr h'.records_read))
  exact ⟨rfl, rfl, Except.ok.inj (h.built.symm.trans h'.built)⟩

lemma buildAll_eq_ok_iff :
    buildAll table records = .ok c ↔ ∃ tally, buildAllTallied table records = .ok (c, tally) := by
  rw [buildAll, map_eq_ok_iff]
  constructor
  · rintro ⟨⟨_, tally⟩, h, rfl⟩
    exact ⟨tally, h⟩
  · rintro ⟨tally, h⟩
    exact ⟨(c, tally), h, rfl⟩

/-- A command goes on exactly with what its inputs lead to. -/
theorem exists_loadCatalog_eq_ok_iff :
    (∃ tally, loadCatalog inputs paths countries = .ok (table, c, tally)) ↔
      ∃ records, Loads inputs paths countries table records c := by
  simp only [loadCatalog, bind_eq_ok_iff, failing_eq_ok_iff, loadRecords_eq_ok_iff]
  constructor
  · rintro ⟨tally, table, htable, records, hrecords, ⟨c, tally⟩, hbuilt, heq⟩
    obtain ⟨rfl, rfl, rfl⟩ : _ ∧ _ ∧ _ := by simpa [pure, Except.pure] using heq
    exact ⟨records, htable, hrecords, buildAll_eq_ok_iff.mpr ⟨tally, hbuilt⟩⟩
  · rintro ⟨records, htable, hrecords, hbuilt⟩
    obtain ⟨tally, hbuilt⟩ := buildAll_eq_ok_iff.mp hbuilt
    exact ⟨tally, table, htable, records, hrecords, (c, tally), hbuilt, rfl⟩

/-! ## A small tree -/

/-- A tree with a statistics file of one record and a country table of one country. -/
def northTree : FileTree :=
  ⟨[(["north".toList], utf8 (Text.joined '\n'
      ["2|apnic|1|1|1|1|+1000".toList, "apnic||ipv4|1.0.16.0|4096||available".toList] ++ ['\n'])),
    (["codes".toList], utf8 "[\"ZZ\"]".toList)]⟩

/-- The catalog of `northTree`. -/
def northCatalog : Catalog :=
  ⟨Realm.all.map fun r =>
    if r = ⟨.apnic, .ipv4⟩ then ⟨r, #[⟨⟨0x01001000, 0x01001fff⟩, 0, 5⟩]⟩ else RangeIndex.empty r⟩

lemma loads_northTree :
    Loads (Inputs.ofTree northTree []) ["north"] (some "codes") unknownOnly [northRecord]
      northCatalog where
  table_read := by
    have htext : readWhole (Inputs.ofTree northTree []) "codes" = .ok "[\"ZZ\"]" := by
      show (Feed.ofBytes (utf8 "[\"ZZ\"]".toList)).text = _
      simp only [Feed.text, Feed.ofBytes, decodeUtf8?_eq_some_iff.mpr rfl, String.ofList_toList]
    have htable : CountryTable.ofDocument "[\"ZZ\"]" = .ok unknownOnly := by cbv
    simp only [loadCountries, htext, htable, failing]
  records_read := by
    have hnorth : load shelf "north" =
        .ok ⟨⟨"2", .apnic, "1", 1, "1", "1", "+1000"⟩, [], [northRecord], 0⟩ :=
      load_shelf rfl (by decide) (by cbv) (by cbv) rfl
    exact ⟨_, .cons hnorth .nil, rfl⟩
  built := by cbv

end Delegation.Command
