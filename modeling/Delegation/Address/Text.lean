import Delegation.Address.Hextets
import Delegation.Family

/-!
# Texts of addresses of either family

`canonicalText` is the text with a fixed number of groups, and for IPv6 of digits;
`shortText` is the usual short text.  Both are meant for addresses within the family;
messages use `display`, which falls back to a plain decimal number outside of it.
-/

namespace Delegation.Family

open Delegation.Address

/-- The dotted text of an IPv4 address, and the text with all 32 digits of an IPv6 address. -/
def canonicalText (f : Family) (address : Nat) : String :=
  String.ofList <| match f with
    | .ipv4 => Dotted.write address
    | .ipv6 => Hextets.writeFull address

/-- The dotted text of an IPv4 address, and the compressed text of an IPv6 address. -/
def shortText (f : Family) (address : Nat) : String :=
  String.ofList <| match f with
    | .ipv4 => Dotted.write address
    | .ipv6 => Hextets.writeShort address

/-- The canonical text, or a decimal number for what is no address of the family. -/
def display (f : Family) (address : Nat) : String :=
  if address ≤ f.maxAddress then f.canonicalText address else toString address

end Delegation.Family
