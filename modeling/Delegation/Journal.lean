/-!
# Journal

What the library reports besides its results: notes of some severity, in the order in which
they arise.  Every operation that reports has a function of its own for its notes, beside the
one for its result.
-/

namespace Delegation

/-- The severity of a note, the gravest first. -/
inductive Severity where
  | error
  | warn
  | info
  | debug
  deriving DecidableEq, Repr

namespace Severity

/-- All severities, the gravest first. -/
def all : List Severity := [.error, .warn, .info, .debug]

/-- The name that starts a line of the journal. -/
def name : Severity → String
  | .error => "ERROR"
  | .warn => "WARN"
  | .info => "INFO"
  | .debug => "DEBUG"

/-- The position among the severities. -/
def rank : Severity → Nat
  | .error => 0
  | .warn => 1
  | .info => 2
  | .debug => 3

end Severity

/-- One note. -/
structure Note where
  severity : Severity
  text : String
  deriving DecidableEq, Repr

namespace Note

/-- A warning. -/
def warn (text : String) : Note := ⟨.warn, text⟩

/-- A note on what was done. -/
def info (text : String) : Note := ⟨.info, text⟩

/-- A note on a detail. -/
def debug (text : String) : Note := ⟨.debug, text⟩

/-- The line of a note. -/
def line (n : Note) : String := n.severity.name ++ " " ++ n.text

end Note

/-- The lines of the notes that are at least as grave as `least`. -/
def journalLines (least : Severity) (notes : List Note) : List String :=
  (notes.filter (·.severity.rank ≤ least.rank)).map Note.line

end Delegation
