import Delegation.Gzip.Bits

/-!
# Canonical prefix codes

A canonical code is given by the lengths of its code words alone: words of one length are
consecutive numbers in the order of their symbols, and follow the shorter words.  A code is
kept as the number of words of each length and the symbols in the order of their words, which
is all that decoding needs.

Main result: decoding a symbol reads at least one bit (`Code.remaining_lt_of_decode`).
-/

namespace Delegation.Gzip

/-- The longest code word has this many bits. -/
def maxLength : Nat := 15

/-- A canonical code. -/
structure Code where
  /-- The number of words of length 1, 2, and so on up to the longest. -/
  counts : List Nat
  /-- The symbols in the order of their words. -/
  symbols : Array Nat

namespace Code

/-- The code in which symbol `i` has a word of the `i`-th length; length 0 is for symbols
without a word. -/
def ofLengths (lengths : List Nat) : Code :=
  let numbered := lengths.zipIdx
  let ofLength := fun n => numbered.filterMap fun (l, i) => if l = n then some i else none
  let byLength := (List.range (lengths.foldl max 1)).map fun n => ofLength (n + 1)
  ⟨byLength.map List.length, byLength.flatten.toArray⟩

/-- How much of the space of all words the words take up, in units of `2 ^ -15`. -/
def occupied (c : Code) : Nat :=
  (c.counts.zipIdx 1).foldl (fun n (count, length) => n + count * 2 ^ (maxLength - length)) 0

/-- Whether every sequence of bits starts with exactly one word. -/
def isComplete (c : Code) : Bool := c.occupied == 2 ^ maxLength

/-- Whether the code is complete, or has at most one word, of one bit. -/
def isUsable (c : Code) : Bool := c.isComplete || (c.counts.length ≤ 1 && c.symbols.size ≤ 1)

/-- Reads on in a word: `word` are the bits so far, `first` is the first word of that length
and `index` the position of its symbol. -/
def decodeFrom (symbols : Array Nat) :
    List Nat → Nat → Nat → Nat → Bits → Except Halt (Nat × Bits)
  | [], _, _, _, _ => .error .corrupt
  | count :: counts, word, first, index, b =>
    match b.bit with
    | .error halt => .error halt
    | .ok (low, b) =>
      let word := 2 * word + low
      let first := 2 * first
      if word < first + count then
        match symbols[index + (word - first)]? with
        | some symbol => .ok (symbol, b)
        | none => .error .corrupt
      else decodeFrom symbols counts word (first + count) (index + count) b

/-- Reads the word of one symbol. -/
def decode (c : Code) (b : Bits) : Except Halt (Nat × Bits) :=
  decodeFrom c.symbols c.counts 0 0 0 b

theorem remaining_lt_of_decodeFrom {symbols : Array Nat} {counts : List Nat}
    {word first index symbol : Nat} {b c : Bits}
    (h : decodeFrom symbols counts word first index b = .ok (symbol, c)) :
    c.remaining < b.remaining := by
  induction counts generalizing word first index b with
  | nil => cases h
  | cons count counts ih =>
    unfold decodeFrom at h
    split at h
    · cases h
    · next low d hd =>
      have hlt := Bits.remaining_lt_of_bit hd
      simp only at h
      split at h
      · split at h
        · cases h
          exact hlt
        · cases h
      · exact Nat.lt_trans (ih h) hlt

theorem remaining_lt_of_decode {code : Code} {symbol : Nat} {b c : Bits}
    (h : code.decode b = .ok (symbol, c)) : c.remaining < b.remaining :=
  remaining_lt_of_decodeFrom h

end Code

end Delegation.Gzip
