import Delegation.Command.Arguments
import Delegation.Command.Outcome
import Delegation.Country.Document
import Delegation.Report.Csv
import Delegation.Report.Document
import Delegation.Statistics.Reading
import Delegation.Storage.Tree

/-!
# Running commands

Each command is a function of what its input files hold.  `Request.plan` says what a run
prints and writes; `runInTree` carries it out on a file tree.
-/

namespace Delegation.Command

open Delegation.Statistics

/-- What a run can read: statistics files, where gzip files are unpacked, and other files as
they are. -/
structure Inputs where
  source : Source
  readPath : String → Except StorageProblem Feed

/-- The inputs that a file tree offers. -/
def Inputs.ofTree (t : FileTree) (input : List UInt8) : Inputs :=
  ⟨⟨t.openFeed, input⟩, t.read⟩

/-- A failure to do what `context` says. -/
def failing {α : Type} (context : String) (result : Except Fault α) : Except Complaint α :=
  match result with
  | .ok a => .ok a
  | .error fault => .error ⟨context, some fault.message⟩

/-- A failure that speaks for itself. -/
def failingPlainly {α : Type} (result : Except Fault α) : Except Complaint α :=
  match result with
  | .ok a => .ok a
  | .error fault => .error ⟨fault.message, none⟩

/-- The text of a file. -/
def readWhole (inputs : Inputs) (path : String) : Except StorageProblem String := do
  let feed ← inputs.readPath path
  feed.text

/-- The country table that a file states, or the usual one. -/
def loadCountries (inputs : Inputs) (path : Option String) : Except Complaint CountryTable :=
  match path with
  | none => .ok CountryTable.usual
  | some path =>
    match readWhole inputs path with
    | .error problem => .error ⟨"Failed to read country table: " ++ path, some problem.text⟩
    | .ok document =>
      failing ("Invalid country table: " ++ path) (CountryTable.ofDocument document)

/-- The records of the input files. -/
def loadRecords (inputs : Inputs) (paths : List String) : Except Complaint (List Record) :=
  failing "Failed to read delegated files" (loadAll inputs.source paths)

/-- What fails while indexes are built. -/
def buildContext : String := "Failed to build range indexes"

/-- The table, the catalog and the tally that input files lead to. -/
def loadCatalog (inputs : Inputs) (paths : List String) (countries : Option String) :
    Except Complaint (CountryTable × Catalog × BuildTally) := do
  let table ← loadCountries inputs countries
  let records ← loadRecords inputs paths
  let (catalog, tally) ← failing buildContext (buildAllTallied table records)
  return (table, catalog, tally)

/-! ## Building -/

/-- What is printed at the end of a successful build.  The first line would go on with the time that
was taken, which depends on the machine and not on any input; it is left out. -/
def builtText (tally : BuildTally) (output : String) : String :=
  "Built " ++ toString tally.entries ++ " entries from " ++ toString tally.records ++
    " records (" ++ toString tally.coalesced.merges ++ " merged, " ++ toString tally.skipped ++
    " skipped)\n  Output: " ++ output ++ "\n"

/-- The text of a report. -/
def reportText (format : ReportFormat) (table : CountryTable) (c : Catalog) (output : String) :
    Except Complaint String :=
  match format with
  | .json =>
    (failing ("Failed to write JSON: " ++ output) (c.document table)).map fun s => s ++ "\n"
  | .csv => (failingPlainly (c.report table)).map Csv.write

/-- The plan of `build`.  The output file is made before the report is written to it. -/
def buildPlan (inputs : Inputs) (paths : List String) (output : String) (format : ReportFormat)
    (countries : Option String) : Plan :=
  match loadCatalog inputs paths countries with
  | .error complaint => .finish complaint.outcome
  | .ok (table, catalog, tally) =>
    match reportText format table catalog output with
    | .error complaint => .save output "" complaint.outcome
    | .ok text => .save output text ⟨0, "", builtText tally output⟩

/-! ## Looking up -/

/-- What `lookup` prints, and whether it found anything. -/
def lookupText (inputs : Inputs) (address : String) (paths : List String)
    (countries : Option String) (quiet : Bool) : Except Complaint (String × Bool) := do
  let (table, catalog, _) ← loadCatalog inputs paths countries
  let found ← failing ("Lookup failed for: " ++ address) (catalog.lookup address)
  if quiet then return ("", !found.isEmpty)
  let rows ← failingPlainly (Match.report table found)
  return ((ReportRow.listJson rows).pretty ++ "\n", !found.isEmpty)

/-- The outcome of `lookup`. -/
def lookupOutcome (inputs : Inputs) (address : String) (paths : List String)
    (countries : Option String) (quiet : Bool) : Outcome :=
  match lookupText inputs address paths countries quiet with
  | .error complaint => complaint.outcome
  | .ok (text, found) => ⟨if found then 0 else 1, text, ""⟩

/-! ## Describing a range -/

/-- The JSON value that describes a span, with its members in alphabetical order. -/
def spanJson (f : Family) (s : Span) : Except Fault Json := do
  let block ← Block.enclosing f s
  let tiling ← Block.tiling f s
  let addressClass ← AddressClass.ofAddress f s.first
  let mask ← match addressClass.defaultMask with
    | none => pure Json.null
    | some mask => (f.formatShort mask).map Json.text
  let first ← f.formatShort s.first
  let last ← f.formatShort s.last
  let isExact ← Block.isExact f s
  return .object [
    ("blocks", .array (tiling.map fun b => .text b.text)),
    ("cidr", .text block.text),
    ("class", addressClass.json),
    ("default_mask", mask),
    ("end", .text last),
    ("exact", .bool isExact),
    ("family", f.json),
    ("prefix_len", .number block.length),
    ("size", .text (extentText s.first s.last)),
    ("start", .text first)]

/-- What `cidr` prints. -/
def cidrText (first last : String) : Except Complaint String := do
  let (f, a) ← failing ("Invalid start address: " ++ first) (parseAddress first)
  let (g, b) ← failing ("Invalid end address: " ++ last) (parseAddress last)
  if f = g then
    let description ← failingPlainly (spanJson f ⟨a, b⟩)
    return description.pretty ++ "\n"
  else throw ⟨first ++ " and " ++ last ++ " belong to different address families", none⟩

/-- The outcome of `cidr`. -/
def cidrOutcome (first last : String) : Outcome :=
  match cidrText first last with
  | .error complaint => complaint.outcome
  | .ok text => ⟨0, text, ""⟩

/-! ## All commands -/

/-- The plan of a command. -/
def Request.plan (inputs : Inputs) : Request → Plan
  | .build paths output format countries _ => buildPlan inputs paths output format countries
  | .lookup address paths countries quiet =>
    .finish (lookupOutcome inputs address paths countries quiet)
  | .cidr first last => .finish (cidrOutcome first last)

/-- Carries a plan out on a file tree. -/
def Plan.carryOut (t : FileTree) : Plan → Outcome × FileTree
  | .finish o => (o, t)
  | .save path text o =>
    match t.write path (encodeUtf8 text) with
    | .error problem => (saveFailure path problem.text, t)
    | .ok t => (o, t)

/-- The summary of the command line, in words of its own. -/
def helpText : String :=
  "Build range indexes from regional internet registry allocation files\n\n" ++
    "Usage: rirdb [OPTIONS] <COMMAND>\n\n" ++
    "Commands:\n" ++
    "  build <INPUT>... -o <OUTPUT>      Build every registry and family index and export it\n" ++
    "  lookup <ADDRESS> -i <INPUT>       Look an address up in indexes built from delegated files\n" ++
    "  cidr <START> <END>                Show prefix, CIDR decomposition and class of an address range\n"

/-- The name and version of the program. -/
def versionText : String := generator ++ "\n"

/-- The end of a run whose arguments are not read to their end. -/
def Stop.outcome : Stop → Outcome
  | .usage => ⟨2, "", "error: invalid arguments\n\n" ++ helpText⟩
  | .help => ⟨0, helpText, ""⟩
  | .version => ⟨0, versionText, ""⟩

/-- Runs the program on a file tree. -/
def runInTree (t : FileTree) (input : List UInt8) (arguments : List String) :
    Outcome × FileTree :=
  match Request.read arguments with
  | .error s => (s.outcome, t)
  | .ok request => (request.plan (Inputs.ofTree t input)).carryOut t

end Delegation.Command
