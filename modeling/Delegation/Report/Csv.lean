import Delegation.Report.Row

/-!
# CSV reports

A table with a line for each row and a line of column names before them; without rows the
table is empty.  A field is quoted if it holds a comma, a quote or a line break.
-/

namespace Delegation.Csv

/-- Whether a field must be quoted. -/
def needsQuotes (field : List Char) : Bool :=
  field.any fun c => c == ',' || c == '"' || c == '\n' || c == '\r'

/-- A field between quotes, with each quote inside it written twice. -/
def quote (field : List Char) : List Char :=
  '"' :: field.flatMap (fun c => if c = '"' then ['"', '"'] else [c]) ++ ['"']

/-- A field as it stands in a line. -/
def writeField (field : String) : List Char :=
  if needsQuotes field.toList then quote field.toList else field.toList

/-- A line with its line feed. -/
def writeLine (fields : List String) : List Char :=
  Text.joined ',' (fields.map writeField) ++ ['\n']

/-- The names of the columns. -/
def columnNames : List String :=
  ["registry", "family", "start", "end", "cidr", "cidr_exact", "blocks", "country",
    "country_code", "status", "status_code"]

/-- The fields of a row. -/
def fields (row : ReportRow) : List String :=
  [row.registry.name, row.family.name, row.first, row.last, row.block,
    if row.isExact then "true" else "false", row.tiling, row.country.name,
    toString row.countryCode, row.status.name, toString row.statusCode]

/-- The table of some rows. -/
def write (rows : List ReportRow) : String :=
  String.ofList <| match rows with
    | [] => []
    | rows => writeLine columnNames ++ rows.flatMap fun row => writeLine (fields row)

end Delegation.Csv
