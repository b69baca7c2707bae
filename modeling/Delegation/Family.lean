import Delegation.Power

/-!
# Address families

The two families of internet addresses.  An address is a natural number; the family says how
many bits it may have.
-/

namespace Delegation

/-- A family of internet addresses. -/
inductive Family where
  | ipv4
  | ipv6
  deriving DecidableEq, Repr

namespace Family

/-- Both families, in their order. -/
def all : List Family := [.ipv4, .ipv6]

/-- The number of bits of an address. -/
def width : Family → Nat
  | .ipv4 => 32
  | .ipv6 => 128

/-- The last address. -/
def maxAddress (f : Family) : Nat := 2 ^ f.width - 1

/-- The name used in data files. -/
def name : Family → String
  | .ipv4 => "ipv4"
  | .ipv6 => "ipv6"

/-- The name used in messages. -/
def title : Family → String
  | .ipv4 => "IPv4"
  | .ipv6 => "IPv6"

/-- The family that the separators of an address text point to: a colon makes it IPv6, and
otherwise a point makes it IPv4. -/
def detect (text : List Char) : Option Family :=
  if ':' ∈ text then some .ipv6 else if '.' ∈ text then some .ipv4 else none

theorem mem_all (f : Family) : f ∈ all := by cases f <;> decide

theorem width_le (f : Family) : f.width ≤ 128 := by cases f <;> decide

/-- Every address fits in a word of 128 bits. -/
theorem maxAddress_lt_two_pow (f : Family) : f.maxAddress < 2 ^ 128 := by cases f <;> decide

theorem le_maxAddress_iff {f : Family} {a : Nat} : a ≤ f.maxAddress ↔ a < 2 ^ f.width := by
  cases f <;> simp [maxAddress, width] <;> omega

end Family

end Delegation
