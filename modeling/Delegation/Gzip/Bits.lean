import Delegation.Power

/-!
# Bits of a byte array

Compressed data is read bit by bit, each byte from its lowest bit.  `Bits` is a byte array
with a position in it.  Reading stops when the data ends or breaks the format; the two are
told apart, because data that ends too early may still have been good up to there.

Main results: reading a bit leaves fewer of them (`remaining_lt_of_bit`), and reading several
leaves no more (`remaining_le_of_take`).
-/

namespace Delegation.Gzip

/-- Why compressed data cannot be read on. -/
inductive Halt where
  /-- The data ends. -/
  | truncated
  /-- The data breaks the format. -/
  | corrupt
  deriving DecidableEq, Repr

/-- The bits of a byte array from a position on. -/
structure Bits where
  bytes : ByteArray
  position : Nat

namespace Bits

/-- The number of bits that are left. -/
def remaining (b : Bits) : Nat := 8 * b.bytes.size - b.position

/-- Reads one bit. -/
def bit (b : Bits) : Except Halt (Nat × Bits) :=
  if h : b.position / 8 < b.bytes.size then
    .ok ((b.bytes[b.position / 8]).toNat / 2 ^ (b.position % 8) % 2,
      { b with position := b.position + 1 })
  else .error .truncated

/-- Reads a number of `n` bits, the lowest first. -/
def take : Nat → Bits → Except Halt (Nat × Bits)
  | 0, b => .ok (0, b)
  | n + 1, b =>
    match b.bit with
    | .error halt => .error halt
    | .ok (low, b) =>
      match take n b with
      | .error halt => .error halt
      | .ok (high, b) => .ok (low + 2 * high, b)

/-- Goes to the next byte, unless the position is at the start of one. -/
def align (b : Bits) : Bits := { b with position := (b.position + 7) / 8 * 8 }

/-- The bytes from the position on, which is at the start of a byte. -/
def restBytes (b : Bits) : ByteArray := b.bytes.extract (b.position / 8) b.bytes.size

theorem remaining_lt_of_bit {b c : Bits} {v : Nat} (h : b.bit = .ok (v, c)) :
    c.remaining < b.remaining := by
  unfold bit at h
  split at h
  · next hlt =>
    cases h
    simp only [remaining]
    omega
  · cases h

theorem remaining_le_of_take {n : Nat} {b c : Bits} {v : Nat} (h : take n b = .ok (v, c)) :
    c.remaining ≤ b.remaining := by
  induction n generalizing b c v with
  | zero =>
    cases h
    exact Nat.le_refl _
  | succ n ih =>
    unfold take at h
    split at h
    · cases h
    · next low d hd =>
      split at h
      · cases h
      · next high e he =>
        cases h
        exact Nat.le_trans (ih he) (Nat.le_of_lt (remaining_lt_of_bit hd))

end Bits

end Delegation.Gzip
