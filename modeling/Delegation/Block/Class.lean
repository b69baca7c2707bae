import Delegation.Address

/-!
# Address classes

The classes of IPv4 addresses from before block lengths, told apart by the leading bits, with
their default masks.  IPv6 has no classes.
-/

namespace Delegation

/-- The class of an address. -/
inductive AddressClass where
  | a
  | b
  | c
  | d
  | e
  /-- The class of every IPv6 address. -/
  | notApplicable
  deriving DecidableEq, Repr

namespace AddressClass

/-- The name of a class. -/
def name : AddressClass → String
  | .a => "A"
  | .b => "B"
  | .c => "C"
  | .d => "D"
  | .e => "E"
  | .notApplicable => "N/A"

/-- The mask of the network part; multicast and reserved addresses have none, and for IPv6
it is the upper half. -/
def defaultMask : AddressClass → Option Nat
  | .a => some 0xff000000
  | .b => some 0xffff0000
  | .c => some 0xffffff00
  | .d | .e => none
  | .notApplicable => some ((2 ^ 64 - 1) * 2 ^ 64)

/-- The class of an address of the family. -/
def ofAddress (f : Family) (address : Nat) : Except Fault AddressClass :=
  match f with
  | .ipv6 => .ok .notApplicable
  | .ipv4 => (f.check address).map fun address =>
    let top := address / 2 ^ 28
    if top = 0b1111 then .e
    else if top = 0b1110 then .d
    else if top / 2 = 0b110 then .c
    else if top / 4 = 0b10 then .b
    else .a

end AddressClass

end Delegation
