import Delegation.Block.Class
import Delegation.Json.Value
import Delegation.Report.Row
import Delegation.Statistics.Line

/-!
# JSON reports

How the values of the library stand in JSON documents, and the document of a whole catalog,
which holds the code tables beside the rows.
-/

namespace Delegation

/-- A family as a JSON value. -/
def Family.json (f : Family) : Json := .text f.name

/-- A registry as a JSON value. -/
def Registry.json (r : Registry) : Json := .text r.name

/-- A status as a JSON value. -/
def Status.json (s : Status) : Json := .text s.name

/-- A country as a JSON value. -/
def Country.json (c : Country) : Json := .text c.name

/-- A resource type as a JSON value. -/
def Statistics.ResourceType.json (t : Statistics.ResourceType) : Json := .text t.name

/-- An address class as a JSON value. -/
def AddressClass.json (x : AddressClass) : Json := .text x.name

/-- A block as a JSON value. -/
def Block.json (b : Block) : Json :=
  .object [("family", b.family.json), ("address", .number b.address),
    ("prefix_len", .number b.length)]

/-- A row as a JSON value. -/
def ReportRow.json (row : ReportRow) : Json :=
  .object [
    ("registry", row.registry.json),
    ("family", row.family.json),
    ("start", .text row.first),
    ("end", .text row.last),
    ("cidr", .text row.block),
    ("cidr_exact", .bool row.isExact),
    ("blocks", .text row.tiling),
    ("country", row.country.json),
    ("country_code", .number row.countryCode),
    ("status", row.status.json),
    ("status_code", .number row.statusCode)]

/-- Rows as a JSON value. -/
def ReportRow.listJson (rows : List ReportRow) : Json := .array (rows.map ReportRow.json)

/-- Name and version of what writes the documents. -/
def generator : String := "rirdb 0.1.0"

/-- The document of a catalog with the given rows. -/
def reportJson (table : CountryTable) (rows : List ReportRow) : Json :=
  .object [
    ("generator", .text generator),
    ("countries", .array (table.countries.map Country.json)),
    ("statuses", .array (Status.all.map Status.json)),
    ("registries", .array (Registry.all.map Registry.json)),
    ("rows", ReportRow.listJson rows)]

/-- The text of the document of a catalog. -/
def Catalog.document (table : CountryTable) (c : Catalog) : Except Fault String :=
  (c.report table).map fun rows => (reportJson table rows).pretty

end Delegation
