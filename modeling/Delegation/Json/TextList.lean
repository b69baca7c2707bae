import Delegation.Json.Token

/-!
# JSON lists of texts

Reads a JSON document that is a list of texts, and names the line of the first fault in any
other document.
-/

namespace Delegation.Json

/-- The fault of a token in a place where a value of another type is due. -/
def unexpected (t : Token) : Fault :=
  match t.kind with
  | .other fault => fault
  | .comma => ⟨t.line, .expectedValue⟩
  | .closeList => ⟨t.line, .expectedValue⟩
  | .openList => ⟨t.line, .wrongType⟩
  | .text _ => ⟨t.line, .wrongType⟩

mutual

/-- Reads on behind an item: a comma with another item, or the end of the list.  The text
ends on the line `last`. -/
def readMore (last : Nat) : List Token → Except Fault (List String × List Token)
  | [] => .error ⟨last, .endInsideList⟩
  | t :: ts =>
    match t.kind with
    | .closeList => .ok ([], ts)
    | .comma => readNext last ts
    | _ => .error ⟨t.line, .expectedCommaOrEnd⟩

/-- Reads on behind a comma. -/
def readNext (last : Nat) : List Token → Except Fault (List String × List Token)
  | [] => .error ⟨last, .endInsideValue⟩
  | t :: ts =>
    match t.kind with
    | .closeList => .error ⟨t.line, .trailingComma⟩
    | .text s => (readMore last ts).map fun (items, ts) => (String.ofList s :: items, ts)
    | _ => .error (unexpected t)

end

/-- Reads on behind the bracket that opens the list. -/
def readFirst (last : Nat) : List Token → Except Fault (List String × List Token)
  | [] => .error ⟨last, .endInsideList⟩
  | t :: ts =>
    match t.kind with
    | .closeList => .ok ([], ts)
    | .text s => (readMore last ts).map fun (items, ts) => (String.ofList s :: items, ts)
    | _ => .error (unexpected t)

/-- Reads a document that is a list of texts. -/
def readTexts (document : String) : Except Fault (List String) :=
  let (ts, last) := tokens 1 document.toList
  match ts with
  | [] => .error ⟨last, .endInsideValue⟩
  | t :: ts =>
    match t.kind with
    | .openList =>
      match readFirst last ts with
      | .error fault => .error fault
      | .ok (items, []) => .ok items
      | .ok (_, t :: _) => .error ⟨t.line, .trailingCharacters⟩
    | _ => .error (unexpected t)

end Delegation.Json
