/-!
# Writing JSON

JSON values and their two written forms: `Json.compact` without any blanks, and `Json.pretty`
with every item on a line of its own, indented by two spaces for each level.  An object keeps
the order of its members.
-/

namespace Delegation

/-- A JSON value; all numbers here are whole and not negative. -/
inductive Json where
  | null
  | bool (b : Bool)
  | number (n : Nat)
  | text (s : String)
  | array (items : List Json)
  | object (members : List (String × Json))

namespace Json

/-- The four hexadecimal digits of a control character. -/
def controlDigits (c : Char) : List Char := (Nat.toDigits 16 c.toNat).leftpad 4 '0'

/-- A character as it stands between the quotes. -/
def escape (c : Char) : List Char :=
  match c with
  | '"' => ['\\', '"']
  | '\\' => ['\\', '\\']
  | '\x08' => ['\\', 'b']
  | '\x0c' => ['\\', 'f']
  | '\n' => ['\\', 'n']
  | '\r' => ['\\', 'r']
  | '\t' => ['\\', 't']
  | c => if c.toNat < 0x20 then '\\' :: 'u' :: controlDigits c else [c]

/-- A text between quotes. -/
def quoted (s : List Char) : List Char := '"' :: s.flatMap escape ++ ['"']

/-- The text of a value that has no parts. -/
def atom : Json → List Char
  | .null => "null".toList
  | .bool true => "true".toList
  | .bool false => "false".toList
  | .number n => Nat.toDigits 10 n
  | .text s => quoted s.toList
  | .array _ => "[]".toList
  | .object _ => ['\x7b', '\x7d']

mutual

/-- The text of a value without blanks. -/
def compactChars : Json → List Char
  | .array (x :: xs) => '[' :: compactChars x ++ compactItems xs ++ [']']
  | .object (m :: ms) => '\x7b' :: compactMember m ++ compactMembers ms ++ ['\x7d']
  | v => atom v

/-- The items behind the first one, each after a comma. -/
def compactItems : List Json → List Char
  | [] => []
  | x :: xs => ',' :: compactChars x ++ compactItems xs

/-- A name and its value. -/
def compactMember : String × Json → List Char
  | (name, v) => quoted name.toList ++ ':' :: compactChars v

/-- The members behind the first one, each after a comma. -/
def compactMembers : List (String × Json) → List Char
  | [] => []
  | m :: ms => ',' :: compactMember m ++ compactMembers ms

end

/-- The start of a line at some depth. -/
def newline (depth : Nat) : List Char := '\n' :: List.replicate (2 * depth) ' '

mutual

/-- The text of a value with its parts on lines of their own, one level deeper. -/
def prettyChars (depth : Nat) : Json → List Char
  | .array (x :: xs) =>
    '[' :: newline (depth + 1) ++ prettyChars (depth + 1) x ++ prettyItems (depth + 1) xs ++
      newline depth ++ [']']
  | .object (m :: ms) =>
    '\x7b' :: newline (depth + 1) ++ prettyMember (depth + 1) m ++
      prettyMembers (depth + 1) ms ++ newline depth ++ ['\x7d']
  | v => atom v

/-- The items behind the first one, each after a comma. -/
def prettyItems (depth : Nat) : List Json → List Char
  | [] => []
  | x :: xs => ',' :: newline depth ++ prettyChars depth x ++ prettyItems depth xs

/-- A name and its value. -/
def prettyMember (depth : Nat) : String × Json → List Char
  | (name, v) => quoted name.toList ++ ':' :: ' ' :: prettyChars depth v

/-- The members behind the first one, each after a comma. -/
def prettyMembers (depth : Nat) : List (String × Json) → List Char
  | [] => []
  | m :: ms => ',' :: newline depth ++ prettyMember depth m ++ prettyMembers depth ms

end

/-- The text of a value without blanks. -/
def compact (v : Json) : String := String.ofList (compactChars v)

/-- The text of a value with every item on a line of its own. -/
def pretty (v : Json) : String := String.ofList (prettyChars 0 v)

end Json

end Delegation
