import Delegation.Text.Numeral

/-!
# Reading JSON texts

The tokens of a JSON text that may hold a list of texts: brackets, commas and quoted texts,
each with the line that it starts on.  Everything else ends the reading, because no such list
can go on with it; the token `other` then holds the fault for a place where a text or a list
is due, which is either a flaw of the spelling or a value of a wrong type.

A fault names the line where reading gave up.  A character that was read and turned out to be
wrong counts as read, so a line feed in such a place puts the fault on the line behind it.
-/

namespace Delegation.Json

open Delegation.Text

/-- What is wrong with a JSON text. -/
inductive Flaw where
  | endInsideValue
  | endInsideList
  | endInsideText
  | expectedCommaOrEnd
  | trailingComma
  | trailingCharacters
  | expectedValue
  | expectedWord
  | controlCharacter
  | invalidEscape
  | loneSurrogate
  | endInsideEscape
  | invalidNumber
  /-- A value that is not of the type that is due. -/
  | wrongType
  deriving DecidableEq, Repr

/-- The words for a flaw. -/
def Flaw.text : Flaw → String
  | .endInsideValue => "EOF while parsing a value"
  | .endInsideList => "EOF while parsing a list"
  | .endInsideText => "EOF while parsing a string"
  | .expectedCommaOrEnd => "expected a comma or the end of the list"
  | .trailingComma => "trailing comma"
  | .trailingCharacters => "trailing characters"
  | .expectedValue => "expected value"
  | .expectedWord => "expected ident"
  | .controlCharacter => "control character found while parsing a string"
  | .invalidEscape => "invalid escape"
  | .loneSurrogate => "lone leading surrogate in hex escape"
  | .endInsideEscape => "unexpected end of hex escape"
  | .invalidNumber => "invalid number"
  | .wrongType => "invalid type"

/-- A flaw with the line where reading gave up. -/
structure Fault where
  line : Nat
  flaw : Flaw
  deriving DecidableEq, Repr

/-- The line after a character has been read. -/
def lineAfter (line : Nat) (c : Char) : Nat := if c = '\n' then line + 1 else line

/-- The line after a whole text has been read. -/
def lineBehind (line : Nat) (s : List Char) : Nat := s.foldl lineAfter line

/-! ## Quoted texts -/

/-- A character that was read from the front of `s`, and what is left. -/
structure Taken (s : List Char) where
  char : Char
  rest : List Char
  shorter : rest.length < s.length

/-- How many bytes a text takes in UTF-8. -/
def byteLength (s : List Char) : Nat := s.foldl (fun n c => n + c.utf8Size) 0

/-- The characters that start within the first `n` bytes. -/
def startingWithin : Nat → List Char → List Char
  | _, [] => []
  | n, c :: rest => if n = 0 then [] else c :: startingWithin (n - c.utf8Size) rest

/-- The fault of an escape without four hexadecimal digits.  The reader takes four bytes at
once, if there are as many. -/
def badDigits (line : Nat) (s : List Char) : Fault :=
  if byteLength s < 4 then ⟨lineBehind line s, .endInsideText⟩
  else ⟨lineBehind line (startingWithin 4 s), .invalidEscape⟩

/-- The value of four hexadecimal digits. -/
def fourDigits? (a b c d : Char) : Option Nat := readHex? [a, b, c, d]

/-- Reads the low half of a surrogate pair, whose high half is `high`. -/
def takeLowSurrogate (line high : Nat) (s : List Char) : Except Fault (Taken s) :=
  match s with
  | [] => .error ⟨line, .endInsideText⟩
  | ['\\'] => .error ⟨line, .endInsideText⟩
  | '\\' :: 'u' :: a :: b :: c :: d :: rest =>
    match fourDigits? a b c d with
    | none => .error (badDigits line (a :: b :: c :: d :: rest))
    | some low =>
      if 0xdc00 ≤ low ∧ low ≤ 0xdfff then
        .ok ⟨Char.ofNat ((high - 0xd800) * 0x400 + (low - 0xdc00) + 0x10000), rest,
          by simp only [List.length_cons]; omega⟩
      else .error ⟨line, .loneSurrogate⟩
  | '\\' :: 'u' :: rest => .error (badDigits line rest)
  | '\\' :: c :: _ => .error ⟨lineAfter line c, .endInsideEscape⟩
  | c :: _ => .error ⟨lineAfter line c, .endInsideEscape⟩

/-- Reads what comes after `\u`. -/
def takeCodePoint (line : Nat) (s : List Char) : Except Fault (Taken s) :=
  match s with
  | a :: b :: c :: d :: rest =>
    match fourDigits? a b c d with
    | none => .error (badDigits line (a :: b :: c :: d :: rest))
    | some n =>
      if 0xdc00 ≤ n ∧ n ≤ 0xdfff then .error ⟨line, .loneSurrogate⟩
      else if 0xd800 ≤ n ∧ n ≤ 0xdbff then
        match takeLowSurrogate line n rest with
        | .error fault => .error fault
        | .ok t => .ok ⟨t.char, t.rest, by have := t.shorter; simp only [List.length_cons]; omega⟩
      else .ok ⟨Char.ofNat n, rest, by simp only [List.length_cons]; omega⟩
  | s => .error (badDigits line s)

/-- The character that a letter stands for after a backslash. -/
def simpleEscape? (c : Char) : Option Char :=
  match c with
  | '"' => some '"'
  | '\\' => some '\\'
  | '/' => some '/'
  | 'b' => some '\x08'
  | 'f' => some '\x0c'
  | 'n' => some '\n'
  | 'r' => some '\r'
  | 't' => some '\t'
  | _ => none

/-- Reads what comes after a backslash. -/
def takeEscape (line : Nat) (s : List Char) : Except Fault (Taken s) :=
  match s with
  | [] => .error ⟨line, .endInsideText⟩
  | c :: rest =>
    if c = 'u' then
      match takeCodePoint line rest with
      | .error fault => .error fault
      | .ok t => .ok ⟨t.char, t.rest, by have := t.shorter; simp only [List.length_cons]; omega⟩
    else match simpleEscape? c with
      | some e => .ok ⟨e, rest, by simp⟩
      | none => .error ⟨lineAfter line c, .invalidEscape⟩

/-- A text that was read from the front of `s` with its closing quote, and what is left. -/
structure TakenText (s : List Char) where
  text : List Char
  rest : List Char
  shorter : rest.length < s.length

/-- The text with one more character at the front. -/
def TakenText.cons {s t : List Char} (c : Char) (x : TakenText s) (h : s.length ≤ t.length) :
    TakenText t :=
  ⟨c :: x.text, x.rest, by have := x.shorter; omega⟩

/-- Reads a text up to its closing quote. -/
def takeText (line : Nat) (s : List Char) : Except Fault (TakenText s) :=
  match s with
  | [] => .error ⟨line, .endInsideText⟩
  | c :: rest =>
    if c = '"' then .ok ⟨[], rest, by simp⟩
    else if c = '\\' then
      match takeEscape line rest with
      | .error fault => .error fault
      | .ok t =>
        have := t.shorter
        (takeText line t.rest).map fun x => x.cons t.char (by simp only [List.length_cons]; omega)
    else if c.toNat < 0x20 then .error ⟨lineAfter line c, .controlCharacter⟩
    else (takeText line rest).map fun x => x.cons c (by simp)
termination_by s.length

/-! ## Other values -/

/-- The fault of a word, such as `null`, of which `word` is due. -/
def wordFault (line : Nat) : List Char → List Char → Fault
  | [], _ => ⟨line, .wrongType⟩
  | _ :: _, [] => ⟨line, .endInsideValue⟩
  | w :: word, c :: rest =>
    if c = w then wordFault line word rest else ⟨lineAfter line c, .expectedWord⟩

/-- The fault of a number at its exponent. -/
def exponentFault (line : Nat) (s : List Char) : Fault :=
  let s := match s with
    | '+' :: rest => rest
    | '-' :: rest => rest
    | s => s
  match s with
  | [] => ⟨line, .endInsideValue⟩
  | c :: _ => if c.isDigit then ⟨line, .wrongType⟩ else ⟨lineAfter line c, .invalidNumber⟩

/-- The fault of a number behind its fraction. -/
def afterFractionFault (line : Nat) (s : List Char) : Fault :=
  match s with
  | 'e' :: rest => exponentFault line rest
  | 'E' :: rest => exponentFault line rest
  | _ => ⟨line, .wrongType⟩

/-- The fault of a number behind its whole part. -/
def afterWholeFault (line : Nat) (s : List Char) : Fault :=
  match s with
  | ['.'] => ⟨line, .endInsideValue⟩
  | '.' :: c :: rest =>
    if c.isDigit then afterFractionFault line (rest.dropWhile Char.isDigit)
    else ⟨lineAfter line c, .invalidNumber⟩
  | s => afterFractionFault line s

/-- The fault of a number. -/
def numberFault (line : Nat) (s : List Char) : Fault :=
  match s with
  | [] => ⟨line, .endInsideValue⟩
  | '0' :: rest =>
    if (rest.head?.any Char.isDigit) then ⟨line, .invalidNumber⟩ else afterWholeFault line rest
  | c :: rest =>
    if c.isDigit then afterWholeFault line (rest.dropWhile Char.isDigit)
    else ⟨lineAfter line c, .invalidNumber⟩

/-- The fault of a value that is neither a text nor a list, or that is misspelt. -/
def valueFault (line : Nat) (c : Char) (rest : List Char) : Fault :=
  match c with
  | 'n' => wordFault line "ull".toList rest
  | 't' => wordFault line "rue".toList rest
  | 'f' => wordFault line "alse".toList rest
  | '-' => numberFault line rest
  | '\x7b' => ⟨line, .wrongType⟩
  | c => if c.isDigit then numberFault line (c :: rest) else ⟨line, .expectedValue⟩

/-! ## Tokens -/

/-- A token of a list of texts. -/
inductive TokenKind where
  | openList
  | closeList
  | comma
  | text (s : List Char)
  | other (fault : Fault)

/-- A token with the line that it starts on. -/
structure Token where
  line : Nat
  kind : TokenKind

/-- The tokens of a text up to the first one that no list can go on with, and the line where
they end. -/
def tokens (line : Nat) (s : List Char) : List Token × Nat :=
  match s with
  | [] => ([], line)
  | c :: rest =>
    if c = ' ' ∨ c = '\t' ∨ c = '\r' then tokens line rest
    else if c = '\n' then tokens (line + 1) rest
    else if c = '[' then follow ⟨line, .openList⟩ (tokens line rest)
    else if c = ']' then follow ⟨line, .closeList⟩ (tokens line rest)
    else if c = ',' then follow ⟨line, .comma⟩ (tokens line rest)
    else if c = '"' then
      match takeText line rest with
      | .error fault => ([⟨line, .other fault⟩], line)
      | .ok t =>
        have := t.shorter
        follow ⟨line, .text t.text⟩ (tokens line t.rest)
    else ([⟨line, .other (valueFault line c rest)⟩], line)
termination_by s.length
where
  /-- The tokens with one more at the front. -/
  follow (t : Token) (ts : List Token × Nat) : List Token × Nat := (t :: ts.1, ts.2)

end Delegation.Json
