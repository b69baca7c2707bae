import Delegation.Address.Dotted

/-!
# IPv6 texts

An IPv6 address is eight hextets, groups of sixteen bits in hexadecimal digits with colons
between them.  Once in a text `::` may stand for the hextets that are missing, which are
zero.  Three forms occur:

* `read` accepts one to four digits of either case for a hextet, and `::` for one or more
  hextets; the mixed form with a dotted end is refused;
* `writeFull` writes all eight hextets with four digits each;
* `writeShort` writes hextets without leading zeros and `::` for the first longest run of two
  or more zero hextets; an IPv4-mapped address has a dotted end.
-/

namespace Delegation.Address.Hextets

open Delegation.Text

/-- Reads one hextet. -/
def readHextet (part : List Char) : Except AddressFlaw Nat :=
  if part = [] then .error .emptyHextet
  else match readHex? part with
    | none => .error .hextetNotHexadecimal
    | some n => if 4 < part.length then .error .hextetTooLong else .ok n

/-- Reads hextets with colons between them; an empty text holds none. -/
def readHextets (text : List Char) : Except AddressFlaw (List Nat) :=
  if text = [] then .ok [] else (pieces ':' text).mapM readHextet

/-- What stands before and after the first `::` of a text. -/
def cutGap : List Char → Option (List Char × List Char)
  | [] => none
  | c :: rest =>
    match c, rest with
    | ':', ':' :: after => some ([], after)
    | _, _ => (cutGap rest).map fun (before, after) => (c :: before, after)

/-- Reads a text around its `::`. -/
def readAround (before after : List Char) : Except AddressFlaw (List Nat) :=
  if (cutGap after).isSome then .error .secondGap
  else do
    let high ← readHextets before
    let low ← readHextets after
    if 7 < high.length + low.length then .error .hextetCount
    else .ok (high ++ List.replicate (8 - high.length - low.length) 0 ++ low)

/-- Reads a text without `::`. -/
def readPlain (text : List Char) : Except AddressFlaw (List Nat) :=
  if text = [] then .error .empty
  else do
    let hextets ← readHextets text
    if hextets.length ≠ 8 then .error .hextetCount else .ok hextets

/-- Reads an address. -/
def read (text : List Char) : Except AddressFlaw Nat :=
  if '.' ∈ text then .error .dotted
  else do
    let hextets ← match cutGap text with
      | some (before, after) => readAround before after
      | none => readPlain text
    .ok (ofGroups 65536 hextets)

/-- The hextets of an address. -/
def ofAddress (address : Nat) : List Nat := groups 65536 8 address

/-- The text with all eight hextets in four digits. -/
def writeFull (address : Nat) : List Char :=
  joined ':' ((ofAddress address).map fun h => (Nat.toDigits 16 h).leftpad 4 '0')

/-- Hextets without leading zeros, with colons between them. -/
def writeHextets (hextets : List Nat) : List Char :=
  joined ':' (hextets.map (Nat.toDigits 16))

/-- How many zeros a list starts with. -/
def leadingZeros (hextets : List Nat) : Nat := (hextets.takeWhile (· == 0)).length

/-- Position and length of the first longest run of zeros. -/
def longestZeroRun : List Nat → Nat × Nat
  | [] => (0, 0)
  | h :: rest =>
    let here := leadingZeros (h :: rest)
    let (position, length) := longestZeroRun rest
    if length ≤ here then (0, here) else (position + 1, length)

/-- Whether an address is an IPv4 address mapped into `::ffff:0:0/96`. -/
def isMapped (address : Nat) : Bool := address / 2 ^ 32 == 0xffff

/-- The short text of an address. -/
def writeShort (address : Nat) : List Char :=
  if isMapped address then "::ffff:".toList ++ Dotted.write (address % 2 ^ 32)
  else
    let hextets := ofAddress address
    let (position, length) := longestZeroRun hextets
    if 1 < length then
      writeHextets (hextets.take position) ++ [':', ':'] ++
        writeHextets (hextets.drop (position + length))
    else writeHextets hextets

end Delegation.Address.Hextets
