import Delegation.Block.Tiling
import Delegation.Index.Catalog

/-!
# Report rows

A row spells an entry of an index out: its bounds, its enclosing block and its tiling as
texts, and its country and status by name and by code, so that a reader needs no code tables.
-/

namespace Delegation

/-- One entry of an index in words. -/
structure ReportRow where
  registry : Registry
  family : Family
  first : String
  last : String
  /-- The enclosing block. -/
  block : String
  /-- Whether the entry has exactly the addresses of its enclosing block. -/
  isExact : Bool
  /-- The blocks of the tiling with blanks between them. -/
  tiling : String
  country : Country
  countryCode : Nat
  status : Status
  statusCode : Nat
  deriving DecidableEq, Repr

/-- The status with a code. -/
def decodeStatus (code : Nat) : Except Fault Status :=
  match Status.ofCode? code with
  | some s => .ok s
  | none => .error (.unknownCode .status code)

/-- The row of an entry of the index of a realm. -/
def ReportRow.ofEntry (table : CountryTable) (r : Realm) (e : Entry) : Except Fault ReportRow := do
  let f := r.family
  let block ← Block.enclosing f e.toSpan
  let tiling ← Block.tiling f e.toSpan
  let first ← f.formatShort e.first
  let last ← f.formatShort e.last
  let isExact ← Block.isExact f e.toSpan
  let country ← table.countryOf e.countryCode
  let status ← decodeStatus e.statusCode
  return {
    registry := r.registry
    family := f
    first := first
    last := last
    block := block.text
    isExact := isExact
    tiling := " ".intercalate (tiling.map Block.text)
    country := country
    countryCode := e.countryCode
    status := status
    statusCode := e.statusCode }

/-- The rows of an index, in the order of its entries. -/
def RangeIndex.report (table : CountryTable) (x : RangeIndex) : Except Fault (List ReportRow) :=
  x.entries.toList.mapM (ReportRow.ofEntry table x.realm)

/-- The rows of all indexes of a catalog. -/
def Catalog.report (table : CountryTable) (c : Catalog) : Except Fault (List ReportRow) :=
  (c.indexes.mapM (RangeIndex.report table)).map List.flatten

/-- The rows of the entries that a look-up found. -/
def Match.report (table : CountryTable) (ms : List Match) : Except Fault (List ReportRow) :=
  ms.mapM fun m => ReportRow.ofEntry table m.realm m.entry

end Delegation
