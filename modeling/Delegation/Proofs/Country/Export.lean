import Delegation.Proofs.Country.Table
import Delegation.Proofs.Json.Member
import Delegation.Proofs.Json.TextList
import Delegation.Country.Document
import Delegation.Proofs.Report.Rows
import Delegation.Report.Document

/-!
# Country tables in documents of catalogs

The document of a catalog holds the names of all countries of its table, in code order.  Cut out of
the document, this list is itself a document of a country table, of the same table.

Main result: `ofDocument_exported`.
-/

namespace Delegation.CountryTable

open Json (memberText?)

variable {table : CountryTable} {c : Catalog} {document : String}

/-- What is written for the countries of a table is read as that table, at any depth. -/
lemma ofDocument_countries (depth : Nat) (table : CountryTable) :
    ofDocument (String.ofList
      (Json.prettyChars depth (.array (table.countries.map Country.json)))) = .ok table := by
  have htexts : table.countries.map Country.json = table.names.map .text := by
    rw [names, List.map_map]
    rfl
  rw [htexts, ofDocument, Json.readTexts_pretty]
  exact ofNames_eq_ok_iff.mpr rfl

/-- The list of countries in the document of a catalog can be loaded as a country table: the table
that the document was written with, so that all countries keep their order and their codes. -/
theorem ofDocument_exported (h : c.document table = .ok document) :
    ∃ list, memberText? "countries" document = some list ∧ ofDocument list = .ok table := by
  obtain ⟨rows, -, rfl⟩ := Sequence.map_eq_ok_iff.mp h
  refine ⟨String.ofList (Json.prettyChars 1 (.array (table.countries.map Country.json))), ?_,
    ofDocument_countries 1 table⟩
  exact Json.memberText?_pretty "countries" _

/-- The table of two countries behind a catalog with one entry, and the table of none. -/
theorem ofDocument_exported_thousand :
    (∃ document list, thousandCatalog.document germanyFrance = .ok document ∧
      memberText? "countries" document = some list ∧ ofDocument list = .ok germanyFrance) ∧
    ∃ document list, Catalog.empty.document empty = .ok document ∧
      memberText? "countries" document = some list ∧ ofDocument list = .ok empty := by
  constructor
  · have hreport : thousandCatalog.report germanyFrance = .ok [thousandRow] := by decide +kernel
    have hdocument : thousandCatalog.document germanyFrance =
        .ok (reportJson germanyFrance [thousandRow]).pretty := by
      rw [Catalog.document, hreport]
      rfl
    obtain ⟨list, hlist, htable⟩ := ofDocument_exported hdocument
    exact ⟨_, list, hdocument, hlist, htable⟩
  · have hdocument : Catalog.empty.document empty = .ok (reportJson empty []).pretty := rfl
    obtain ⟨list, hlist, htable⟩ := ofDocument_exported hdocument
    exact ⟨_, list, hdocument, hlist, htable⟩

end Delegation.CountryTable
