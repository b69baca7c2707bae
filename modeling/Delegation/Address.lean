import Delegation.Fault

/-!
# Addresses

Reading and writing addresses of a known family, and reading an address whose family shows in
its text.
-/

namespace Delegation

open Delegation.Address

namespace Family

/-- The family with a name. -/
def ofName (s : String) : Except Fault Family :=
  match all.find? (·.name == s) with
  | some f => .ok f
  | none => .error (.unknownName .family s)

/-- Accepts the addresses of the family. -/
def check (f : Family) (address : Nat) : Except Fault Nat :=
  if address ≤ f.maxAddress then .ok address
  else .error (.rangeOverflow f address
    ("value " ++ toString address ++ " exceeds " ++ toString f.width ++ "-bit width"))

/-- The canonical text of an address. -/
def format (f : Family) (address : Nat) : Except Fault String :=
  (f.check address).map f.canonicalText

/-- The short text of an address. -/
def formatShort (f : Family) (address : Nat) : Except Fault String :=
  (f.check address).map f.shortText

/-- Reads an address of the family. -/
def parse (f : Family) (text : String) : Except Fault Nat :=
  let reading := match f with
    | .ipv4 => Dotted.read text.toList
    | .ipv6 => Hextets.read text.toList
  match reading with
  | .ok address => .ok address
  | .error flaw => .error (.malformedAddress f text flaw.text)

theorem check_eq_ok_iff {f : Family} {a b : Nat} :
    f.check a = .ok b ↔ a ≤ f.maxAddress ∧ b = a := by
  unfold check
  split
  · next h => simp [h, eq_comm]
  · next h => simp [h]

end Family

/-- Reads an address of the family that its separators point to. -/
def parseAddress (text : String) : Except Fault (Family × Nat) :=
  match Family.detect text.toList with
  | none => .error (.malformedAddress .ipv4 text AddressFlaw.noSeparator.text)
  | some f => (f.parse text).map fun address => (f, address)

end Delegation
