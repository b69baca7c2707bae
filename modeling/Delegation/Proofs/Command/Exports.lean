import Delegation.Proofs.Command.Build
import Delegation.Proofs.Json.Pretty
import Delegation.Proofs.Report.Csv

/-!
# The reports of one catalog

Builds of the same inputs lead to the same catalog and so to the same rows, whatever the format.  A
build that can write its output file leaves them there, as a table or in a document
(`saved_or_refused`).

Main result: `exports_agree`.
-/

namespace Delegation.Command

open Sequence Statistics

variable {t : FileTree} {input : List UInt8} {arguments : List String} {paths : List String}
  {output : String} {format : ReportFormat} {countries : Option String} {sequential : Bool}
  {table : CountryTable} {records : List Record} {c : Catalog} {rows : List ReportRow}

/-- A build of inputs that are in order succeeds unless the output file cannot be written, and then
its report can be read there. -/
lemma saved_or_refused
    (hread : Request.read arguments = .ok (.build paths output format countries sequential))
    (hloads : Loads (Inputs.ofTree t input) paths countries table records c)
    (hrows : c.report table = .ok rows) :
    (∃ problem, t.write output (encodeUtf8 (format.render table rows)) = .error problem) ∨
      (runInTree t input arguments).1.code = 0 ∧
        (runInTree t input arguments).2.read output =
          .ok (Feed.ofBytes (encodeUtf8 (format.render table rows))) := by
  obtain ⟨tally, hplan⟩ := buildPlan_of_loads hloads hrows output format
  cases hwrite : t.write output (encodeUtf8 (format.render table rows)) with
  | error problem => exact .inl ⟨problem, rfl⟩
  | ok t' =>
    have hrun : runInTree t input arguments = (⟨0, "", builtText tally output⟩, t') := by
      rw [runInTree, hread]
      simp only [Request.plan, hplan, Plan.carryOut, hwrite]
    rw [hrun]
    exact .inr ⟨rfl, (FileTree.read_of_write hwrite).1⟩

/-- The inputs of a build that succeeds are in order. -/
lemma loads_of_build
    (hread : Request.read arguments = .ok (.build paths output format countries sequential))
    (hcode : (runInTree t input arguments).1.code = 0) :
    ∃ table records c, Loads (Inputs.ofTree t input) paths countries table records c := by
  rcases buildPlan_cases (Inputs.ofTree t input) paths output format countries with
    ⟨complaint, hplan⟩ | ⟨table, records, c, -, -, hloads, -⟩
  · rw [runInTree, hread] at hcode
    simp only [Request.plan, hplan] at hcode
    cases hcode
  · exact ⟨table, records, c, hloads⟩

/-- If inputs can be built, every build of them that can write its output file leaves the report of
the same rows there, in its format.  Of one format this is the text of a single JSON document, whose
rows are as many objects as the indexes have entries; of the other it is a table with the same
members. -/
theorem exports_agree
    (hread : Request.read arguments = .ok (.build paths output format countries sequential))
    (hcode : (runInTree t input arguments).1.code = 0) :
    ∃ table records c rows document objects,
      Loads (Inputs.ofTree t input) paths countries table records c ∧
      c.report table = .ok rows ∧
      (∀ others output format sequential,
        Request.read others = .ok (.build paths output format countries sequential) →
          (∃ problem, t.write output (encodeUtf8 (format.render table rows)) = .error problem) ∨
            (runInTree t input others).1.code = 0 ∧
              (runInTree t input others).2.read output =
                .ok (Feed.ofBytes (encodeUtf8 (format.render table rows)))) ∧
      (∀ other : Json,
        other.pretty ++ "\n" = ReportFormat.json.render table rows ↔ other = document) ∧
      document.member? "rows" = some (.array (objects.map .object)) ∧
      objects.length = (c.indexes.map fun x => x.entries.size).sum ∧
      Csv.Agrees (ReportFormat.csv.render table rows) objects := by
  obtain ⟨table, records, c, hloads⟩ := loads_of_build hread hcode
  obtain ⟨rows, hrows, hspells⟩ := exists_report_of_buildAll hloads.built
  refine ⟨table, records, c, rows, reportJson table rows, rows.map Csv.members, hloads, hrows,
    ?_, ?_, Csv.member?_reportJson table rows, ?_, Csv.agrees_write hspells⟩
  · exact fun others output format sequential hothers => saved_or_refused hothers hloads hrows
  · intro other
    rw [ReportFormat.render, String.append_left_inj, Json.pretty_injective.eq_iff]
  · rw [List.length_map, ← hspells.length_eq, Catalog.length_listed]

/-- The arguments of a build of `northTree`. -/
def northBuild : List String :=
  ["build", "north", "-o", "new", "--format", "csv", "--countries", "codes"]

theorem exports_agree_north :
    Request.read northBuild = .ok (.build ["north"] "new" .csv (some "codes") false) ∧
      (runInTree northTree [] northBuild).1.code = 0 ∧
      ∃ csv objects,
        (runInTree northTree [] northBuild).2.read "new" = .ok (Feed.ofBytes (encodeUtf8 csv)) ∧
        objects.length = 1 ∧ Csv.Agrees csv objects := by
  have hread : Request.read northBuild = .ok (.build ["north"] "new" .csv (some "codes") false) :=
    rfl
  -- there is nothing in the way of the new file
  have hwrite : ∀ bytes, northTree.write "new" bytes = .ok (northTree.put ["new".toList] bytes) :=
    fun _ => rfl
  have hcode : (runInTree northTree [] northBuild).1.code = 0 := by
    obtain ⟨rows, hrows, -⟩ := exists_report_of_buildAll loads_northTree.built
    rcases saved_or_refused hread loads_northTree hrows with ⟨problem, hproblem⟩ | ⟨hcode, -⟩
    · rw [hwrite] at hproblem
      cases hproblem
    · exact hcode
  obtain ⟨table, records, c, rows, document, objects, hloads, -, hsaved, -, -, hlength, hagrees⟩ :=
    exports_agree hread hcode
  obtain ⟨-, -, rfl⟩ := loads_northTree.unique hloads
  refine ⟨hread, hcode, _, objects, ?_, hlength, hagrees⟩
  rcases hsaved _ _ _ _ hread with ⟨problem, hproblem⟩ | ⟨-, hfile⟩
  · rw [hwrite] at hproblem
    cases hproblem
  · exact hfile

end Delegation.Command
