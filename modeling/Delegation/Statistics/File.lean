import Delegation.Journal
import Delegation.Statistics.Line
import Delegation.Storage.Feed

/-!
# Statistics files

The content of a file of the statistics exchange format.  Lines are trimmed; blank lines and
those that begin with `#` are skipped, but count when a fault names a line.  The first line
left is the version line, and reading stops at the first line that cannot be read.

Reading succeeds whether or not a file holds as many records as it announces; `File.notes`
says where the two differ.
-/

namespace Delegation.Statistics

open Delegation.Text

/-- The content of a statistics file. -/
structure File where
  header : Header
  /-- The summaries in file order. -/
  summaries : List Summary
  /-- The records with addresses in file order. -/
  records : List Record
  /-- The number of records of system numbers. -/
  asnCount : Nat
  deriving DecidableEq, Repr

namespace File

/-- The number of records of a family. -/
def countFamily (file : File) (f : Family) : Nat := file.records.countP (·.family = f)

/-- The number of records of a type. -/
def count (file : File) : ResourceType → Nat
  | .asn => file.asnCount
  | .ipv4 => file.countFamily .ipv4
  | .ipv6 => file.countFamily .ipv6

/-- The number of all records. -/
def total (file : File) : Nat := file.records.length + file.asnCount

end File

/-! ## Reading -/

/-- A line with its number, counted from 1. -/
structure NumberedLine where
  number : Nat
  line : Feed.Line

/-- The trimmed text of a line that is neither blank nor a comment. -/
def significantText? (line : List Char) : Option (List Char) :=
  let text := trim line
  if text = [] ∨ text.head? = some '#' then none else some text

/-- A line without the blanks around it, unless it is skipped.  A line that cannot be read is
never skipped. -/
def significant? (line : Feed.Line) (number : Nat) : Option NumberedLine :=
  match line with
  | .error problem => some ⟨number, .error problem⟩
  | .ok s => (significantText? s).map fun text => ⟨number, .ok text⟩

/-- The lines that are not skipped. -/
def significantLines (lines : List Feed.Line) : List NumberedLine :=
  (lines.zipIdx 1).filterMap fun (line, number) => significant? line number

/-- Reads one line; a flaw becomes a fault with its number. -/
def NumberedLine.read {α : Type} (reader : List Char → Except LineFlaw α) (l : NumberedLine) :
    Except Fault α :=
  match l.line with
  | .error problem => .error (.io problem.text)
  | .ok text =>
    match reader text with
    | .ok a => .ok a
    | .error flaw => .error (.parse l.number flaw.text)

/-- The content of a file with the given version line and further lines. -/
def File.ofItems (header : Header) (items : List Item) : File where
  header := header
  summaries := items.filterMap fun
    | .summary s => some s
    | _ => none
  records := items.filterMap fun
    | .record r => some r
    | _ => none
  asnCount := items.countP fun
    | .asn => true
    | _ => false

/-- Reads a file from its lines. -/
def File.ofLines (lines : List Feed.Line) : Except Fault File :=
  match significantLines lines with
  | [] => .error (.parse 0 "missing version line")
  | first :: rest => do
    let header ← first.read Header.read
    let items ← rest.mapM (NumberedLine.read Item.read)
    .ok (File.ofItems header items)

/-- Reads a file. -/
def File.ofFeed (feed : Feed) : Except Fault File := File.ofLines feed.lines

/-- Reads a file from its bytes. -/
def File.ofBytes (bytes : List UInt8) : Except Fault File := File.ofFeed (Feed.ofBytes bytes)

/-- Reads a file from its text. -/
def File.ofText (text : String) : Except Fault File := File.ofBytes (encodeUtf8 text)

/-! ## Notes -/

/-- The warning for a summary that announces another number of records. -/
def File.summaryNote? (file : File) (s : Summary) : Option Note :=
  if file.count s.type = s.count then none
  else some (.warn (file.header.registry.name ++ ": summary announces " ++ toString s.count ++
    " " ++ s.type.title ++ " records, parsed " ++ toString (file.count s.type)))

/-- The warning for a version line that announces another number of records. -/
def File.headerNote? (file : File) : Option Note :=
  if file.total = file.header.records then none
  else some (.warn (file.header.registry.name ++ ": header announces " ++
    toString file.header.records ++ " records, parsed " ++ toString file.total))

/-- The notes of a file that has been read. -/
def File.notes (file : File) : List Note :=
  file.summaries.filterMap file.summaryNote? ++ file.headerNote?.toList ++
    [.debug (file.header.registry.name ++ ": parsed " ++ toString file.records.length ++
      " address records, skipped " ++ toString file.asnCount ++ " ASN records")]

end Delegation.Statistics
