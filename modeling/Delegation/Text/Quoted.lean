import Delegation.Text.Printable

/-!
# Quoted text

Messages show a rejected text between double quotes.  A quote, a backslash, a tab, a line
feed, a carriage return and the null character have a short escape; every other character
that is not printable is written as its code point in hexadecimal digits between braces.
-/

namespace Delegation.Text

/-- A character as it stands between the quotes. -/
def escape (c : Char) : List Char :=
  match c with
  | '\x00' => ['\\', '0']
  | '\t' => ['\\', 't']
  | '\n' => ['\\', 'n']
  | '\r' => ['\\', 'r']
  | '\\' => ['\\', '\\']
  | '"' => ['\\', '"']
  | c =>
    if isPrintable c then [c]
    else ['\\', 'u', '\x7b'] ++ Nat.toDigits 16 c.toNat ++ ['\x7d']

/-- A text between double quotes. -/
def quoted (s : String) : String :=
  String.ofList ('"' :: s.toList.flatMap escape ++ ['"'])

end Delegation.Text
