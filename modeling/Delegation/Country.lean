import Delegation.Fault

/-!
# Country codes

A country is a pair of upper-case letters.  `ZZ` stands for no country.
-/

namespace Delegation

/-- A country code of two upper-case letters. -/
structure Country where
  first : Char
  second : Char
  first_isUpper : first.isUpper = true
  second_isUpper : second.isUpper = true
  deriving DecidableEq, Repr

namespace Country

/-- The letters of a code. -/
def letters (c : Country) : List Char := [c.first, c.second]

/-- The code as a text. -/
def name (c : Country) : String := String.ofList c.letters

/-- The code of records without a country. -/
def unknown : Country := ⟨'Z', 'Z', rfl, rfl⟩

/-- The country with the given letters. -/
def ofLetters? (s : List Char) : Option Country :=
  match s with
  | [a, b] =>
    if h : a.isUpper = true ∧ b.isUpper = true then some ⟨a, b, h.1, h.2⟩ else none
  | _ => none

/-- Reads a country code. -/
def ofName (s : String) : Except Fault Country :=
  match ofLetters? s.toList with
  | some c => .ok c
  | none => .error (.unknownName .country s)

/-- Whether a code comes strictly before another one in the alphabet. -/
def before (c d : Country) : Bool := c.first < d.first || (c.first == d.first && c.second < d.second)

theorem letters_injective {c d : Country} (h : c.letters = d.letters) : c = d := by
  cases c; cases d
  simp_all [letters]

@[simp] theorem ofLetters?_letters (c : Country) : ofLetters? c.letters = some c := by
  simp [letters, ofLetters?, c.first_isUpper, c.second_isUpper]

@[simp] theorem ofName_name (c : Country) : ofName c.name = .ok c := by
  simp [ofName, name]

end Country

end Delegation
