import Delegation.Span

/-!
# Address blocks

A block is written `address/length`: the addresses that share their first `length` bits with
its address.  `Block.enclosing` is the smallest block size that has room for a span, put at
the start of the span.
-/

namespace Delegation

/-- An address with a block length, in a family. -/
structure Block where
  family : Family
  address : Nat
  length : Nat
  deriving DecidableEq, Repr

/-- The number of binary digits of a number; zero has none. -/
def bitLength (n : Nat) : Nat := if n = 0 then 0 else n.log2 + 1

namespace Block

/-- The text `address/length`, with a decimal number for an address outside the family. -/
def text (b : Block) : String :=
  (if b.address ≤ b.family.maxAddress then b.family.shortText b.address
    else toString b.address) ++ "/" ++ toString b.length

/-- The addresses of the block. -/
def span (b : Block) : Except Fault Span := Span.ofPrefix b.family b.address b.length

/-- The block of the least size that a span fits in by its number of addresses. -/
def enclosing (f : Family) (s : Span) : Except Fault Block :=
  (s.check f).map fun s => ⟨f, s.first, f.width - bitLength (s.last - s.first)⟩

/-- Whether a span has exactly the addresses of its enclosing block. -/
def isExact (f : Family) (s : Span) : Except Fault Bool :=
  match enclosing f s with
  | .error fault => .error fault
  | .ok b =>
    match b.span with
    | .ok t => .ok (t == s)
    | .error (.rangeOverflow ..) => .ok false
    | .error fault => .error fault

end Block

end Delegation
