import Delegation.Gzip.Checksum
import Delegation.Gzip.Inflate
import Delegation.Storage.Feed

/-!
# Gzip files

A gzip file is a sequence of members, each a header, compressed data and a trailer with the
checksum and the length of the data.  Only the first member is read; whatever follows it is
ignored.

Data that was read before a problem is still delivered.  Compressed data is unpacked in
rounds, and a round that meets data which breaks the format delivers nothing, so that only the
data of the rounds before it is delivered.
-/

namespace Delegation.Gzip

/-- Splits off a number of bytes. -/
def splitBytes (n : Nat) (bytes : List UInt8) :
    Except StorageProblem (List UInt8 × List UInt8) :=
  if bytes.length < n then .error .unexpectedEnd else .ok (bytes.splitAt n)

/-- The number whose bytes are given, the lowest first. -/
def littleEndian (bytes : List UInt8) : Nat :=
  bytes.foldr (fun byte n => byte.toNat + 256 * n) 0

/-- Skips a field that ends with a null byte; it has 65535 other bytes at most. -/
def skipText (bytes : List UInt8) : Except StorageProblem (List UInt8) :=
  let text := bytes.takeWhile (· != 0)
  if 65535 < text.length then .error .gzipFieldTooLong
  else match bytes.drop text.length with
    | [] => .error .unexpectedEnd
    | _ :: rest => .ok rest

/-- Skips a field that is preceded by its length in two bytes. -/
def skipExtra (bytes : List UInt8) : Except StorageProblem (List UInt8) := do
  let (length, rest) ← splitBytes 2 bytes
  let (_, rest) ← splitBytes (littleEndian length) rest
  return rest

/-- Whether bit `n` of a byte is set. -/
def hasBit (byte : UInt8) (n : Nat) : Bool := byte.toNat / 2 ^ n % 2 == 1

/-- Skips a checksum of the header in two bytes; `header` is what stands before it. -/
def skipHeaderChecksum (header bytes : List UInt8) : Except StorageProblem (List UInt8) := do
  let (stated, rest) ← splitBytes 2 bytes
  if littleEndian stated = checksum header % 65536 then return rest
  else throw .checksumMismatch

/-- Reads a header, and gives the bytes behind it. -/
def skipHeader (bytes : List UInt8) : Except StorageProblem (List UInt8) := do
  let (start, rest) ← splitBytes 10 bytes
  match start with
  | 0x1f :: 0x8b :: 8 :: flags :: _ =>
    if 0x20 ≤ flags.toNat then throw .invalidGzipHeader
    let rest ← if hasBit flags 2 then skipExtra rest else pure rest
    let rest ← if hasBit flags 3 then skipText rest else pure rest
    let rest ← if hasBit flags 4 then skipText rest else pure rest
    if hasBit flags 1 then
      skipHeaderChecksum (bytes.take (bytes.length - rest.length)) rest
    else return rest
  | _ => throw .invalidGzipHeader

/-- Compares data with the trailer behind it. -/
def checkTrailer (data trailer : List UInt8) : Option StorageProblem :=
  match splitBytes 8 trailer with
  | .error problem => some problem
  | .ok (trailer, _) =>
    if littleEndian (trailer.take 4) = checksum data ∧
        littleEndian (trailer.drop 4) = data.length % 2 ^ 32 then none
    else some .checksumMismatch

/-! ## Rounds -/

/-- How many bytes of a file are fetched at once. -/
def chunkSize : Nat := 32768

/-- How many bytes a window holds: data is unpacked from window to window. -/
def windowSize : Nat := 32768

/-- How many bytes of data end a round, unless its chunk ends before. -/
def roundSize : Nat := 131072

/-- The end of the round that starts behind `start` bytes of data: the end of the window that
it fills up. -/
def roundEnd (start : Nat) : Nat :=
  (start + roundSize + windowSize - 1) / windowSize * windowSize

/-- How many bytes are delivered of data that breaks its format behind `total` bytes, when
`start` bytes of it came from earlier chunks: those of all rounds but the last. -/
def deliveredSize (start total : Nat) : Nat :=
  let first := roundEnd start
  if total ≤ first then start else first + (total - first - 1) / roundSize * roundSize

/-- How many bytes of data the chunks yield before the one in which the format is broken;
`header` is the length of the header. -/
def earlierSize (header : Nat) (bytes : List UInt8) : Nat :=
  let fetched := (List.range (bytes.length / chunkSize + 1)).map fun k =>
    inflate ⟨((bytes.take (k * chunkSize)).drop header).toByteArray, 0⟩
  let sound := fetched.takeWhile fun read =>
    match read.ending with
    | .error .corrupt => false
    | _ => true
  (sound.getLast?.map (·.out.size)).getD 0

/-- What reading a gzip file yields. -/
def feed (bytes : List UInt8) : Feed :=
  match skipHeader bytes with
  | .error problem => ⟨[], some problem⟩
  | .ok rest =>
    let read := inflate ⟨rest.toByteArray, 0⟩
    let data := read.out.toList
    match read.ending with
    | .error .corrupt =>
      let start := earlierSize (bytes.length - rest.length) bytes
      ⟨data.take (deliveredSize start data.length), some .corruptDeflate⟩
    | .error .truncated => ⟨data, some .incompleteDeflate⟩
    | .ok b => ⟨data, checkTrailer data b.align.restBytes.toList⟩

end Delegation.Gzip
