/-!
# Flaws of address texts

What can be wrong with the text of an address, and the words for it.
-/

namespace Delegation

/-- What is wrong with a text that is no address. -/
inductive AddressFlaw where
  /-- A fifth part. -/
  | tooManyOctets
  /-- A part that is not one to three decimal digits. -/
  | octetNotDecimal
  | octetTooLarge
  | tooFewOctets
  /-- A point inside an IPv6 text. -/
  | dotted
  /-- A second `::`. -/
  | secondGap
  | emptyHextet
  | hextetNotHexadecimal
  | hextetTooLong
  | empty
  /-- More or fewer than eight hextets, or a `::` that stands for none. -/
  | hextetCount
  /-- Neither a point nor a colon. -/
  | noSeparator
  deriving DecidableEq, Repr

/-- The words for a flaw. -/
def AddressFlaw.text : AddressFlaw → String
  | .tooManyOctets => "more than 4 octets"
  | .octetNotDecimal => "octet is not a decimal number"
  | .octetTooLarge => "octet exceeds 255"
  | .tooFewOctets => "expected 4 octets"
  | .dotted => "dotted notation is not supported"
  | .secondGap => "more than one '::'"
  | .emptyHextet => "empty hextet"
  | .hextetNotHexadecimal => "hextet is not hexadecimal"
  | .hextetTooLong => "hextet longer than 4 digits"
  | .empty => "empty address"
  | .hextetCount => "expected 8 hextets"
  | .noSeparator => "neither dotted nor colon-separated"

end Delegation
