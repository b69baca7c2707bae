/-!
# Number resource registries

The registries that publish delegations.  Each has a dense code, which is its position in
`Registry.all`.
-/

namespace Delegation

/-- A registry of internet numbers. -/
inductive Registry where
  | afrinic
  | apnic
  | arin
  | iana
  | ietf
  | lacnic
  | ripencc
  deriving DecidableEq, Repr

namespace Registry

/-- All registries in code order. -/
def all : List Registry := [.afrinic, .apnic, .arin, .iana, .ietf, .lacnic, .ripencc]

/-- The position in `Registry.all`. -/
def code : Registry → Nat
  | .afrinic => 0
  | .apnic => 1
  | .arin => 2
  | .iana => 3
  | .ietf => 4
  | .lacnic => 5
  | .ripencc => 6

/-- The registry with a code. -/
def ofCode? (code : Nat) : Option Registry := all[code]?

/-- The name used in data files. -/
def name : Registry → String
  | .afrinic => "afrinic"
  | .apnic => "apnic"
  | .arin => "arin"
  | .iana => "iana"
  | .ietf => "ietf"
  | .lacnic => "lacnic"
  | .ripencc => "ripencc"

/-- The area that a registry serves. -/
def description : Registry → String
  | .afrinic => "Africa Region"
  | .apnic => "Asia/Pacific Region"
  | .arin => "Canada, USA, and some Caribbean Islands"
  | .iana => "Internet Assigned Numbers Authority (IANA)"
  | .ietf => "Internet Engineering Task Force (IETF), Special Registry"
  | .lacnic => "Latin America and some Caribbean Islands"
  | .ripencc => "Europe, the Middle East, and Central Asia"

/-- The registry with a name. -/
def ofName? (s : String) : Option Registry := all.find? (·.name == s)

theorem mem_all (r : Registry) : r ∈ all := by cases r <;> decide

@[simp] theorem ofCode?_code (r : Registry) : ofCode? r.code = some r := by cases r <;> rfl

@[simp] theorem ofName?_name (r : Registry) : ofName? r.name = some r := by cases r <;> decide

end Registry

end Delegation
