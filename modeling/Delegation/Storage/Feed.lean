import Delegation.Text.Pieces

/-!
# Feeds

What reading a file yields: bytes, and possibly a problem that stops the reading behind them.
The lines before the problem can still be used; what stands between the last line feed and
the problem is lost.  Each line is decoded by itself, so that a line that is not UTF-8 is a
problem of that line alone.
-/

namespace Delegation

open Delegation.Text

/-- Why something could not be read or written. -/
inductive StorageProblem where
  | notFound
  | notDirectory
  | isDirectory
  | nameTooLong
  | nullInName
  | invalidUtf8
  | invalidGzipHeader
  | gzipFieldTooLong
  | corruptDeflate
  | incompleteDeflate
  | checksumMismatch
  | unexpectedEnd
  /-- Any other answer of the machine, in its own words. -/
  | other (text : String)
  deriving DecidableEq, Repr

/-- The words for a problem. -/
def StorageProblem.text : StorageProblem → String
  | .notFound => "No such file or directory (os error 2)"
  | .notDirectory => "Not a directory (os error 20)"
  | .isDirectory => "Is a directory (os error 21)"
  | .nameTooLong => "File name too long (os error 36)"
  | .nullInName => "file name contained an unexpected NUL byte"
  | .invalidUtf8 => "stream did not contain valid UTF-8"
  | .invalidGzipHeader => "invalid gzip header"
  | .gzipFieldTooLong => "gzip header field too long"
  | .corruptDeflate => "corrupt deflate stream"
  | .incompleteDeflate => "incomplete deflate stream"
  | .checksumMismatch => "corrupt gzip stream does not have a matching checksum"
  | .unexpectedEnd => "unexpected end of file"
  | .other text => text

/-- The text that bytes encode in UTF-8. -/
def decodeUtf8? (bytes : List UInt8) : Option (List Char) :=
  (String.fromUTF8? bytes.toByteArray).map String.toList

/-- The bytes of a text in UTF-8. -/
def encodeUtf8 (s : String) : List UInt8 := s.toUTF8.toList

/-- Bytes, with the problem that stops the reading behind them. -/
structure Feed where
  bytes : List UInt8
  problem : Option StorageProblem
  deriving DecidableEq, Repr

namespace Feed

/-- Bytes that are read to their end. -/
def ofBytes (bytes : List UInt8) : Feed := ⟨bytes, none⟩

/-- A line, or why it cannot be read. -/
abbrev Line := Except StorageProblem (List Char)

/-- The text of a line. -/
def decodeLine (bytes : List UInt8) : Line :=
  match decodeUtf8? bytes with
  | some s => .ok s
  | none => .error .invalidUtf8

/-- The lines between the line feeds, without them.  Nothing behind the last line feed is no
line. -/
def lines (feed : Feed) : List Line :=
  let parts := pieces 10 feed.bytes
  let whole := parts.dropLast.map decodeLine
  match feed.problem with
  | some problem => whole ++ [.error problem]
  | none =>
    match parts.getLast? with
    | none => whole
    | some [] => whole
    | some rest => whole ++ [decodeLine rest]

/-- The whole text. -/
def text (feed : Feed) : Except StorageProblem String :=
  match feed.problem with
  | some problem => .error problem
  | none =>
    match decodeUtf8? feed.bytes with
    | some s => .ok (String.ofList s)
    | none => .error .invalidUtf8

end Feed

end Delegation
