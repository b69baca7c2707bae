import Delegation.Address.Text
import Delegation.Registry
import Delegation.Text.Quoted

/-!
# Faults

Everything that can go wrong while addresses are read, ranges are computed, files are parsed
and indexes are built.  A fault holds its cause; `Fault.message` has the words.
-/

namespace Delegation

open Delegation.Text

/-- The closed lists of names that texts and codes are looked up in. -/
inductive Vocabulary where
  | family
  | registry
  | status
  | country
  | resourceType
  /-- A list outside this library, by what its members are called. -/
  | other (name : String)
  deriving DecidableEq, Repr

/-- What a member of the list is called. -/
def Vocabulary.name : Vocabulary → String
  | .family => "family"
  | .registry => "registry"
  | .status => "status"
  | .country => "country"
  | .resourceType => "resource type"
  | .other name => name

/-- The cause of a failure. -/
inductive Fault where
  /-- A text is no address of the family. -/
  | malformedAddress (family : Family) (text reason : String)
  /-- A block length beyond the width of the family. -/
  | invalidPrefix (family : Family) (length : Nat)
  /-- A range that ends before it starts. -/
  | invalidRange (family : Family) (first last : Nat)
  /-- A bound that is no address of the family. -/
  | rangeOverflow (family : Family) (first : Nat) (detail : String)
  /-- Two ranges of one group that start at the same address and end at different ones. -/
  | conflictingRanges (registry : Registry) (family : Family) (first existingLast incomingLast : Nat)
  /-- Two ranges of different groups that share addresses. -/
  | overlappingRanges (registry : Registry) (family : Family) (first last second : Nat)
  /-- A code with no entry. -/
  | unknownCode (vocabulary : Vocabulary) (code : Nat)
  /-- A name with no entry. -/
  | unknownName (vocabulary : Vocabulary) (name : String)
  /-- An operation on an index of the other family. -/
  | familyMismatch (expected found : Family)
  /-- A line of a text that breaks its format. -/
  | parse (line : Nat) (detail : String)
  /-- A failure to read. -/
  | io (detail : String)
  deriving DecidableEq, Repr

/-- How many addresses lie between two bounds, in words. -/
def extentText (first last : Nat) : String :=
  if last < first then "negative"
  else if last - first + 1 = 2 ^ 128 then "2^128"
  else toString (last - first + 1)

/-- The words for a fault. -/
def Fault.message : Fault → String
  | .malformedAddress f text reason =>
    "Malformed " ++ f.title ++ " address " ++ quoted text ++ ": " ++ reason
  | .invalidPrefix f length =>
    "Invalid " ++ f.title ++ " prefix length " ++ toString length ++
      " (maximum " ++ toString f.width ++ ")"
  | .invalidRange f first last =>
    "Invalid " ++ f.title ++ " range " ++ f.display first ++ " - " ++ f.display last
  | .rangeOverflow f first detail =>
    f.title ++ " range starting at " ++ f.display first ++
      " overflows the address space: " ++ detail
  | .conflictingRanges r f first existingLast incomingLast =>
    "Conflicting duplicate " ++ f.title ++ " range in " ++ r.name ++ " at " ++
      f.display first ++ ": extent " ++ extentText first existingLast ++ " vs " ++
      extentText first incomingLast
  | .overlappingRanges r f first last second =>
    "Overlapping " ++ f.title ++ " ranges in " ++ r.name ++ ": " ++ f.display first ++
      " - " ++ f.display last ++ " overlaps range starting at " ++ f.display second
  | .unknownCode v code => "Unknown " ++ v.name ++ " code " ++ toString code
  | .unknownName v name => "Unknown " ++ v.name ++ " " ++ quoted name
  | .familyMismatch expected found =>
    "Expected an " ++ expected.title ++ " index, found " ++ found.title
  | .parse line detail => "Parse error at line " ++ toString line ++ ": " ++ detail
  | .io detail => "I/O error: " ++ detail

end Delegation
