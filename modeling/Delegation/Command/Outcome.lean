/-!
# Outcomes

What a run of the program leaves behind: its exit code, what it prints, and the file that it
writes.
-/

namespace Delegation.Command

/-- The end of a run.  The lines of the journal are no part of what it prints. -/
structure Outcome where
  code : Nat
  stdout : String
  stderr : String
  deriving DecidableEq, Repr

/-- A failure with what was being done, or without it. -/
structure Complaint where
  context : String
  cause : Option String
  deriving DecidableEq, Repr

namespace Complaint

/-- The text with four blanks at the start of every line. -/
def indented (s : List Char) : List Char :=
  "    ".toList ++ s.flatMap fun c => if c = '\n' then "\n    ".toList else [c]

/-- What is printed for a failure. -/
def text (c : Complaint) : String :=
  "Error: " ++ c.context ++
    (match c.cause with
      | none => ""
      | some cause => "\n\nCaused by:\n" ++ String.ofList (indented cause.toList)) ++ "\n"

/-- The end of a run that failed. -/
def outcome (c : Complaint) : Outcome := ⟨1, "", c.text⟩

end Complaint

/-- What a run comes to before it touches any file. -/
inductive Plan where
  | finish (o : Outcome)
  /-- Write a file, and end with `o` if that succeeds. -/
  | save (path text : String) (o : Outcome)
  deriving DecidableEq, Repr

/-- The end of a run whose output file cannot be made. -/
def saveFailure (path cause : String) : Outcome :=
  Complaint.outcome ⟨"Failed to create output file: " ++ path, some cause⟩

end Delegation.Command
