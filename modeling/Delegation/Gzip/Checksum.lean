/-!
# The checksum of gzip files

The cyclic redundancy check of 32 bits with the reflected polynomial `0xedb88320`, computed
bit by bit.
-/

namespace Delegation.Gzip

/-- Shifts the remainder by one bit. -/
def shiftRemainder (r : UInt32) : UInt32 :=
  if r &&& 1 = 1 then (r >>> 1) ^^^ 0xedb88320 else r >>> 1

/-- Takes one more byte into the remainder. -/
def addByte (r : UInt32) (byte : UInt8) : UInt32 :=
  (List.range 8).foldl (fun r _ => shiftRemainder r) (r ^^^ byte.toUInt32)

/-- The checksum of some bytes. -/
def checksum (bytes : List UInt8) : Nat :=
  ((bytes.foldl addByte 0xffffffff) ^^^ 0xffffffff).toNat

end Delegation.Gzip
