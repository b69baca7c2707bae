import Delegation.Registry

/-!
# Allocation statuses

The status column of a delegation.  The root registry writes there the name of the registry
that it handed a block to; all other statuses are plain states.  Each status has a dense
code, which is its position in `Status.all`.
-/

namespace Delegation

/-- The status of a delegated range. -/
inductive Status where
  | afrinic
  | allocated
  | apnic
  | arin
  | assigned
  | available
  | iana
  | ietf
  | lacnic
  | reserved
  | ripencc
  deriving DecidableEq, Repr

namespace Status

/-- All statuses in code order. -/
def all : List Status :=
  [.afrinic, .allocated, .apnic, .arin, .assigned, .available, .iana, .ietf, .lacnic,
    .reserved, .ripencc]

/-- The position in `Status.all`. -/
def code : Status → Nat
  | .afrinic => 0
  | .allocated => 1
  | .apnic => 2
  | .arin => 3
  | .assigned => 4
  | .available => 5
  | .iana => 6
  | .ietf => 7
  | .lacnic => 8
  | .reserved => 9
  | .ripencc => 10

/-- The status with a code. -/
def ofCode? (code : Nat) : Option Status := all[code]?

/-- The name used in data files. -/
def name : Status → String
  | .afrinic => "afrinic"
  | .allocated => "allocated"
  | .apnic => "apnic"
  | .arin => "arin"
  | .assigned => "assigned"
  | .available => "available"
  | .iana => "iana"
  | .ietf => "ietf"
  | .lacnic => "lacnic"
  | .reserved => "reserved"
  | .ripencc => "ripencc"

/-- The status with a name. -/
def ofName? (s : String) : Option Status := all.find? (·.name == s)

/-- The registry that a status names. -/
def delegatedTo : Status → Option Registry
  | .afrinic => some .afrinic
  | .apnic => some .apnic
  | .arin => some .arin
  | .iana => some .iana
  | .ietf => some .ietf
  | .lacnic => some .lacnic
  | .ripencc => some .ripencc
  | .allocated | .assigned | .available | .reserved => none

/-- Whether a status names a registry. -/
def isRegistry (s : Status) : Bool := s.delegatedTo.isSome

/-- Whether a status is a plain state. -/
def isState (s : Status) : Bool := !s.isRegistry

@[simp] theorem ofCode?_code (s : Status) : ofCode? s.code = some s := by cases s <;> rfl

@[simp] theorem ofName?_name (s : Status) : ofName? s.name = some s := by cases s <;> decide

theorem code_injective {s t : Status} (h : s.code = t.code) : s = t := by
  have := ofCode?_code s
  rw [h, ofCode?_code] at this
  exact (Option.some.inj this).symm

/-- A status that names a registry has the name of that registry. -/
theorem name_eq_of_delegatedTo {s : Status} {r : Registry} (h : s.delegatedTo = some r) :
    s.name = r.name := by
  cases s <;> simp only [delegatedTo, Option.some.injEq, reduceCtorEq] at h <;> subst h <;> rfl

end Status

end Delegation
