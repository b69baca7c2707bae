import Delegation.Proofs.Command.Inputs
import Delegation.Proofs.Report.Rows
import Delegation.Proofs.Storage.Tree

/-!
# Building a report

The output file of a build is made before the report is computed, so a report that cannot be
computed would cost the file that was there.  This does not happen: the indexes have been built with
the table that their entries are decoded with, so there is a report of them in either format
(`reportText_of_report`), and a build either ends before it makes the file or plans to write a whole
report (`buildPlan_cases`).

Main result: `failed_run_changes_nothing`.
-/

namespace Delegation.Command

open Sequence Statistics

variable {inputs : Inputs} {paths : List String} {countries : Option String}
  {table : CountryTable} {records : List Record} {c : Catalog} {rows : List ReportRow}

/-- Rows as a report. -/
def ReportFormat.render (table : CountryTable) (rows : List ReportRow) : ReportFormat → String
  | .json => (reportJson table rows).pretty ++ "\n"
  | .csv => Csv.write rows

lemma reportText_of_report (h : c.report table = .ok rows) (format : ReportFormat)
    (output : String) :
    reportText format table c output = .ok (format.render table rows) := by
  cases format <;> rw [reportText]
  · have hdocument : c.document table = .ok (reportJson table rows).pretty :=
      map_eq_ok_iff.mpr ⟨rows, h, rfl⟩
    rw [hdocument]
    rfl
  · rw [h]
    rfl

lemma buildPlan_of_loads (h : Loads inputs paths countries table records c)
    (hrows : c.report table = .ok rows) (output : String) (format : ReportFormat) :
    ∃ tally, buildPlan inputs paths output format countries =
      .save output (format.render table rows) ⟨0, "", builtText tally output⟩ := by
  obtain ⟨tally, hload⟩ := exists_loadCatalog_eq_ok_iff.mpr ⟨records, h⟩
  refine ⟨tally, ?_⟩
  simp only [buildPlan, hload, reportText_of_report hrows]

/-- A build ends with a complaint about its inputs, or it has a whole report to write. -/
lemma buildPlan_cases (inputs : Inputs) (paths : List String) (output : String)
    (format : ReportFormat) (countries : Option String) :
    (∃ complaint : Complaint,
        buildPlan inputs paths output format countries = .finish complaint.outcome) ∨
      ∃ table records c rows tally, Loads inputs paths countries table records c ∧
        c.report table = .ok rows ∧
        buildPlan inputs paths output format countries =
          .save output (format.render table rows) ⟨0, "", builtText tally output⟩ := by
  cases hload : loadCatalog inputs paths countries with
  | error complaint =>
    refine .inl ⟨complaint, ?_⟩
    rw [buildPlan, hload]
  | ok result =>
    obtain ⟨table, c, tally⟩ := result
    obtain ⟨records, hloads⟩ := exists_loadCatalog_eq_ok_iff.mp ⟨tally, hload⟩
    obtain ⟨rows, hrows, -⟩ := exists_report_of_buildAll hloads.built
    obtain ⟨tally, hplan⟩ := buildPlan_of_loads hloads hrows output format
    exact .inr ⟨table, records, c, rows, tally, hloads, hrows, hplan⟩

/-- A run that fails leaves all files as they are.  For the output file of a build this is because a
file is only made for a whole report: there is one, in either format, whenever the inputs are in
order. -/
theorem failed_run_changes_nothing (t : FileTree) (input : List UInt8) (arguments : List String) :
    ((runInTree t input arguments).1.code ≠ 0 → (runInTree t input arguments).2 = t) ∧
      (∀ inputs paths countries table records c, Loads inputs paths countries table records c →
        ∀ format output, ∃ text, reportText format table c output = .ok text) ∧
      ∀ inputs paths output format countries sequential path text o,
        (Request.build paths output format countries sequential).plan inputs = .save path text o →
          path = output ∧ o.code = 0 ∧ ∃ table records c,
            Loads inputs paths countries table records c ∧
              reportText format table c output = .ok text := by
  refine ⟨?_, ?_, ?_⟩
  · rw [runInTree]
    cases Request.read arguments with
    | error stop => exact fun _ => rfl
    | ok request =>
      cases request with
      | lookup | cidr => exact fun _ => rfl
      | build paths output format countries sequential =>
        dsimp only [Request.plan]
        rcases buildPlan_cases (Inputs.ofTree t input) paths output format countries with
          ⟨complaint, hplan⟩ | ⟨table, records, c, rows, tally, -, -, hplan⟩
        · rw [hplan]
          exact fun _ => rfl
        · rw [hplan, Plan.carryOut]
          -- either the file cannot be written, or the run succeeds
          split
          · exact fun _ => rfl
          · exact fun hcode => absurd rfl hcode
  · intro inputs paths countries table records c hloads format output
    obtain ⟨rows, hrows, -⟩ := exists_report_of_buildAll hloads.built
    exact ⟨_, reportText_of_report hrows format output⟩
  · intro inputs paths output format countries sequential path text o hplan
    rcases buildPlan_cases inputs paths output format countries with
      ⟨complaint, hfinish⟩ | ⟨table, records, c, rows, tally, hloads, hrows, hsave⟩
    · cases hfinish.symm.trans hplan
    · obtain ⟨rfl, rfl, rfl⟩ := Plan.save.inj (hsave.symm.trans hplan)
      exact ⟨rfl, rfl, table, records, c, hloads, reportText_of_report hrows format output⟩

theorem failed_run_changes_nothing_north :
    (runInTree northTree [] ["build", "south", "-o", "north"]).1.code = 1 ∧
      (runInTree northTree [] ["build", "south", "-o", "north"]).2 = northTree ∧
      (Loads (Inputs.ofTree northTree []) ["north"] (some "codes") unknownOnly [northRecord]
          northCatalog ∧
        ∃ text, reportText .csv unknownOnly northCatalog "south" = .ok text) ∧
      ∃ text o, (Request.build ["north"] "south" .csv (some "codes") false).plan
          (Inputs.ofTree northTree []) = .save "south" text o ∧ o.code = 0 := by
  obtain ⟨hsame, hreport, hplan⟩ :=
    failed_run_changes_nothing northTree [] ["build", "south", "-o", "north"]
  have hcode : (runInTree northTree [] ["build", "south", "-o", "north"]).1.code = 1 := rfl
  refine ⟨hcode, hsame (by rw [hcode]; decide), ⟨loads_northTree, ?_⟩, ?_⟩
  · exact hreport _ _ _ _ _ _ loads_northTree .csv "south"
  · obtain ⟨rows, hrows, -⟩ := exists_report_of_buildAll loads_northTree.built
    obtain ⟨tally, hsave⟩ := buildPlan_of_loads loads_northTree hrows "south" .csv
    obtain ⟨-, hzero, -⟩ := hplan _ _ _ _ _ false _ _ _ hsave
    exact ⟨_, _, hsave, hzero⟩

end Delegation.Command
