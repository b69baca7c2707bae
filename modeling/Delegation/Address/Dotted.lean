import Delegation.Address.Flaw
import Delegation.Address.Groups
import Delegation.Text.Numeral
import Delegation.Text.Pieces

/-!
# IPv4 texts

An IPv4 address is written as four decimal octets with points between them.  A reader accepts
one to three digits for an octet, leading zeros included.
-/

namespace Delegation.Address.Dotted

open Delegation.Text

/-- Reads one octet. -/
def readOctet (part : List Char) : Except AddressFlaw Nat :=
  match readDecimal? part with
  | none => .error .octetNotDecimal
  | some n =>
    if 3 < part.length then .error .octetNotDecimal
    else if 255 < n then .error .octetTooLarge
    else .ok n

/-- Reads an address.  A flaw of one of the first four parts comes before their number. -/
def read (text : List Char) : Except AddressFlaw Nat :=
  let parts := pieces '.' text
  match (parts.take 4).mapM readOctet with
  | .error flaw => .error flaw
  | .ok octets =>
    if 4 < parts.length then .error .tooManyOctets
    else if parts.length < 4 then .error .tooFewOctets
    else .ok (ofGroups 256 octets)

/-- The text of an address of at most 32 bits. -/
def write (address : Nat) : List Char :=
  joined '.' ((groups 256 4 address).map decimal)

end Delegation.Address.Dotted
