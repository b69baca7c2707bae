import Delegation.Power
import Delegation.Text.Numeral

/-!
# Decimal numerals with a fraction and an exponent

A numeral such as `2`, `+2.3`, `.2e1` or `230E-2` stands for a rational number.  What a file
format calls "version 2.3" is every numeral whose nearest binary64 number is the one nearest
to 2.3, so that `2.30000000000000000001` is version 2.3 as well.  The numbers that round to a
given binary64 number form an interval, and `Scientific.liesIn` compares a numeral with the
ends of an interval exactly, in whole numbers.
-/

namespace Delegation.Text

/-- The number `± coefficient · 10 ^ exponent`. -/
structure Scientific where
  negative : Bool
  coefficient : Nat
  exponent : Int

/-- Reads an optional sign: whether it is a minus, and the rest. -/
def readSign : List Char → Bool × List Char
  | '-' :: rest => (true, rest)
  | '+' :: rest => (false, rest)
  | s => (false, s)

/-- The size of an exponent whose digits are given.  A size of `2 ^ 16` or more is not read
any further: the digits behind are left out of account. -/
def exponentSize (digits : List Char) : Nat :=
  digits.foldl (fun n c => if n < 2 ^ 16 then 10 * n + (c.toNat - '0'.toNat) else n) 0

/-- Reads an exponent part, which may be missing, up to the end of the text. -/
def readExponent? (s : List Char) : Option Int :=
  match s with
  | [] => some 0
  | c :: rest =>
    if c = 'e' ∨ c = 'E' then
      let (negative, digits) := readSign rest
      if digits ≠ [] ∧ digits.all Char.isDigit then
        let size : Int := exponentSize digits
        some (if negative then -size else size)
      else none
    else none

/-- Reads a numeral: a sign, digits with at most one point among or beside them, and an
exponent, of which only one digit is required. -/
def Scientific.read? (s : List Char) : Option Scientific := do
  let (negative, s) := readSign s
  let whole := s.takeWhile Char.isDigit
  let (fraction, s) := match s.dropWhile Char.isDigit with
    | '.' :: rest => (rest.takeWhile Char.isDigit, rest.dropWhile Char.isDigit)
    | rest => ([], rest)
  let coefficient ← readDecimal? (whole ++ fraction)
  let exponent ← readExponent? s
  return ⟨negative, coefficient, exponent - fraction.length⟩

/-- An interval of numbers from `low / 2 ^ 54` to `high / 2 ^ 54`, both ends included. -/
structure DyadicInterval where
  low : Nat
  high : Nat

/-- The numbers between 1 and 10 whose nearest binary64 number is 2.  Below 2 the binary64
numbers lie `2 ^ -52` apart and above it `2 ^ -51`; halfway numbers go to 2, whose last bit
is 0. -/
def roundsToTwo : DyadicInterval := ⟨2 ^ 55 - 2, 2 ^ 55 + 4⟩

/-- The numbers whose nearest binary64 number is `5179139571476070 · 2 ^ -51`, which is the
one nearest to 2.3.  Its last bit is 0, so that halfway numbers go to it. -/
def roundsToTwoPointThree : DyadicInterval :=
  ⟨4 * (2 * 5179139571476070 - 1), 4 * (2 * 5179139571476070 + 1)⟩

/-- Whether a numeral stands for a number of an interval inside `[1, 10)`.  Such a number has
exactly one digit before the point, which bounds the powers of ten to compare. -/
def Scientific.liesIn (x : Scientific) (i : DyadicInterval) : Bool :=
  let places := (decimal x.coefficient).length
  let shift := 10 ^ (places - 1)
  !x.negative && (places : Int) + x.exponent == 1 &&
    i.low * shift ≤ x.coefficient * 2 ^ 54 && x.coefficient * 2 ^ 54 ≤ i.high * shift

end Delegation.Text
