import Delegation.Gzip.Code

/-!
# Inflating

Compressed data is a sequence of blocks.  A block is stored as it is, or coded with a fixed
code, or with a code that it states itself.  The symbols of a coded block are bytes, the end
of the block, and copies of bytes that were written before; a copy that reaches back beyond
the start finds zeros there.

`inflate` gives what could be read and how the reading ended, because data that ends too
early has good bytes before its end.
-/

namespace Delegation.Gzip

/-- The bytes written so far, and how reading ended: behind the data, or early. -/
structure Inflated where
  out : ByteArray
  ending : Except Halt Bits

/-! ## Copies -/

/-- Least length and number of extra bits for each length symbol, counted from 0. -/
def lengthSteps : Array (Nat × Nat) := #[
  (3, 0), (4, 0), (5, 0), (6, 0), (7, 0), (8, 0), (9, 0), (10, 0), (11, 1), (13, 1), (15, 1),
  (17, 1), (19, 2), (23, 2), (27, 2), (31, 2), (35, 3), (43, 3), (51, 3), (59, 3), (67, 4),
  (83, 4), (99, 4), (115, 4), (131, 5), (163, 5), (195, 5), (227, 5), (258, 0)]

/-- Least distance and number of extra bits for each distance symbol. -/
def distanceSteps : Array (Nat × Nat) := #[
  (1, 0), (2, 0), (3, 0), (4, 0), (5, 1), (7, 1), (9, 2), (13, 2), (17, 3), (25, 3), (33, 4),
  (49, 4), (65, 5), (97, 5), (129, 6), (193, 6), (257, 7), (385, 7), (513, 8), (769, 8),
  (1025, 9), (1537, 9), (2049, 10), (3073, 10), (4097, 11), (6145, 11), (8193, 12),
  (12289, 12), (16385, 13), (24577, 13)]

/-- Reads the extra bits of a symbol with the given steps. -/
def readStep (steps : Array (Nat × Nat)) (symbol : Nat) (b : Bits) : Except Halt (Nat × Bits) :=
  match steps[symbol]? with
  | none => .error .corrupt
  | some (least, extra) =>
    match b.take extra with
    | .error halt => .error halt
    | .ok (n, b) => .ok (least + n, b)

/-- Reads length and distance of a copy behind its length symbol. -/
def readCopy (distances : Code) (symbol : Nat) (b : Bits) : Except Halt (Nat × Nat × Bits) :=
  match readStep lengthSteps symbol b with
  | .error halt => .error halt
  | .ok (length, b) =>
    match distances.decode b with
    | .error halt => .error halt
    | .ok (symbol, b) =>
      match readStep distanceSteps symbol b with
      | .error halt => .error halt
      | .ok (distance, b) => .ok (length, distance, b)

/-- Writes `length` bytes again that begin `distance` bytes before the end. -/
def copyBack (distance : Nat) : Nat → ByteArray → ByteArray
  | 0, out => out
  | length + 1, out =>
    let byte := if h : distance ≤ out.size ∧ 0 < distance then out[out.size - distance] else 0
    copyBack distance length (out.push byte)

theorem remaining_le_of_readStep {steps : Array (Nat × Nat)} {symbol v : Nat} {b c : Bits}
    (h : readStep steps symbol b = .ok (v, c)) : c.remaining ≤ b.remaining := by
  unfold readStep at h
  split at h
  · cases h
  · split at h
    · cases h
    · next hd =>
      cases h
      exact Bits.remaining_le_of_take hd

theorem remaining_le_of_readCopy {distances : Code} {symbol length distance : Nat} {b c : Bits}
    (h : readCopy distances symbol b = .ok (length, distance, c)) :
    c.remaining ≤ b.remaining := by
  unfold readCopy at h
  split at h
  · cases h
  · next hb =>
    split at h
    · cases h
    · next hc =>
      split at h
      · cases h
      · next hd =>
        cases h
        exact Nat.le_trans (remaining_le_of_readStep hd)
          (Nat.le_trans (Nat.le_of_lt (Code.remaining_lt_of_decode hc))
            (remaining_le_of_readStep hb))

/-! ## Blocks -/

/-- What a symbol of the code of literals and lengths means. -/
inductive Meaning where
  | byte (v : UInt8)
  | endOfBlock
  /-- A copy with the given length symbol, counted from 0. -/
  | copy (symbol : Nat)

/-- The meaning of a symbol. -/
def Meaning.ofSymbol (symbol : Nat) : Meaning :=
  if symbol < 256 then .byte symbol.toUInt8
  else if symbol = 256 then .endOfBlock
  else .copy (symbol - 257)

/-- Reads the symbols of a coded block. -/
def codedBlock (literals distances : Code) (b : Bits) (out : ByteArray) : Inflated :=
  match h : literals.decode b with
  | .error halt => ⟨out, .error halt⟩
  | .ok (symbol, c) =>
    have := Code.remaining_lt_of_decode h
    match Meaning.ofSymbol symbol with
    | .byte v => codedBlock literals distances c (out.push v)
    | .endOfBlock => ⟨out, .ok c⟩
    | .copy symbol =>
      match h' : readCopy distances symbol c with
      | .error halt => ⟨out, .error halt⟩
      | .ok (length, distance, d) =>
        have := remaining_le_of_readCopy h'
        codedBlock literals distances d (copyBack distance length out)
termination_by b.remaining

/-- The code of literals and lengths of a fixed block. -/
def fixedLiterals : Code :=
  Code.ofLengths (List.replicate 144 8 ++ List.replicate 112 9 ++ List.replicate 24 7 ++
    List.replicate 8 8)

/-- The code of distances of a fixed block, whose last two symbols stand for no distance. -/
def fixedDistances : Code := Code.ofLengths (List.replicate 32 5)

/-- The symbols of the code of lengths, in the order in which their lengths are stated. -/
def lengthOrder : List Nat := [16, 17, 18, 0, 8, 7, 9, 6, 10, 5, 11, 4, 12, 3, 13, 2, 14, 1, 15]

/-- Reads `n` numbers of three bits. -/
def readTriples : Nat → Bits → Except Halt (List Nat × Bits)
  | 0, b => .ok ([], b)
  | n + 1, b =>
    match b.take 3 with
    | .error halt => .error halt
    | .ok (v, b) =>
      match readTriples n b with
      | .error halt => .error halt
      | .ok (vs, b) => .ok (v :: vs, b)

/-- Reads how often a length is repeated. -/
def readRepeat (least extra : Nat) (b : Bits) : Except Halt (Nat × Bits) :=
  match b.take extra with
  | .error halt => .error halt
  | .ok (n, b) => .ok (least + n, b)

/-- Reads what a symbol of the code of lengths stands for: lengths that follow `before`, the
latest first. -/
def readRun (symbol : Nat) (before : List Nat) (b : Bits) : Except Halt (List Nat × Bits) :=
  let run := fun length least extra =>
    match readRepeat least extra b with
    | .error halt => .error halt
    | .ok (n, b) => .ok (List.replicate n length, b)
  if symbol < 16 then .ok ([symbol], b)
  else if symbol = 16 then
    match before with
    | [] => .error .corrupt
    | length :: _ => run length 3 2
  else if symbol = 17 then run 0 3 3
  else run 0 11 7

theorem remaining_le_of_readRepeat {least extra n : Nat} {b c : Bits}
    (h : readRepeat least extra b = .ok (n, c)) : c.remaining ≤ b.remaining := by
  unfold readRepeat at h
  split at h
  · cases h
  · next hd =>
    cases h
    exact Bits.remaining_le_of_take hd

theorem remaining_le_of_readRun {symbol : Nat} {before run : List Nat} {b c : Bits}
    (h : readRun symbol before b = .ok (run, c)) : c.remaining ≤ b.remaining := by
  unfold readRun at h
  have repeated : ∀ {length least extra : Nat},
      (match readRepeat least extra b with
        | .error halt => .error halt
        | .ok (n, b) => .ok (List.replicate n length, b)) = Except.ok (run, c) →
      c.remaining ≤ b.remaining := by
    intro length least extra h
    split at h
    · cases h
    · next hd =>
      cases h
      exact remaining_le_of_readRepeat hd
  simp only at h
  split at h
  · cases h
    exact Nat.le_refl _
  · split at h
    · split at h
      · cases h
      · exact repeated h
    · split at h
      · exact repeated h
      · exact repeated h

/-- Reads code lengths until there are `want` of them; `before` are those read so far, the
latest first. -/
def readLengths (code : Code) (want : Nat) (before : List Nat) (b : Bits) :
    Except Halt (List Nat × Bits) :=
  if want < before.length then .error .corrupt
  else if before.length = want then .ok (before.reverse, b)
  else match h : code.decode b with
    | .error halt => .error halt
    | .ok (symbol, c) =>
      have := Code.remaining_lt_of_decode h
      match h' : readRun symbol before c with
      | .error halt => .error halt
      | .ok (run, d) =>
        have := remaining_le_of_readRun h'
        readLengths code want (run ++ before) d
termination_by b.remaining

/-- Reads the two codes that a block states: of literals and lengths, and of distances. -/
def readCodes (b : Bits) : Except Halt (Code × Code × Bits) := do
  let (n, b) ← b.take 5
  let (m, b) ← b.take 5
  let (k, b) ← b.take 4
  let literals := n + 257
  let distances := m + 1
  if 286 < literals ∨ 30 < distances then throw .corrupt
  let (stated, b) ← readTriples (k + 4) b
  let named := lengthOrder.zip stated
  let lengthCode := Code.ofLengths ((List.range 19).map fun s => (named.lookup s).getD 0)
  unless lengthCode.isComplete do throw .corrupt
  let (lengths, b) ← readLengths lengthCode (literals + distances) [] b
  let literalCode := Code.ofLengths (lengths.take literals)
  let distanceCode := Code.ofLengths (lengths.drop literals)
  unless literalCode.isUsable && distanceCode.isUsable do throw .corrupt
  return (literalCode, distanceCode, b)

/-- Copies stored bytes. -/
def storedBytes : Nat → Bits → ByteArray → Inflated
  | 0, b, out => ⟨out, .ok b⟩
  | n + 1, b, out =>
    match b.take 8 with
    | .error halt => ⟨out, .error halt⟩
    | .ok (v, b) => storedBytes n b (out.push v.toUInt8)

/-- Reads a stored block behind its type. -/
def storedBlock (b : Bits) (out : ByteArray) : Inflated :=
  match b.align.take 16 with
  | .error halt => ⟨out, .error halt⟩
  | .ok (n, b) =>
    match b.take 16 with
    | .error halt => ⟨out, .error halt⟩
    | .ok (complement, b) =>
      if n + complement = 65535 then storedBytes n b out else ⟨out, .error .corrupt⟩

/-- Reads a block behind its type. -/
def block (type : Nat) (b : Bits) (out : ByteArray) : Inflated :=
  if type = 0 then storedBlock b out
  else if type = 1 then codedBlock fixedLiterals fixedDistances b out
  else if type = 2 then
    match readCodes b with
    | .error halt => ⟨out, .error halt⟩
    | .ok (literals, distances, b) => codedBlock literals distances b out
  else ⟨out, .error .corrupt⟩

/-- Reads blocks up to the one marked as the last.  A block takes at least the bits of its
mark and type, so that the data has no more blocks than bits. -/
def blocks : Nat → Bits → ByteArray → Inflated
  | 0, _, out => ⟨out, .error .truncated⟩
  | limit + 1, b, out =>
    match b.bit with
    | .error halt => ⟨out, .error halt⟩
    | .ok (isLast, b) =>
      match b.take 2 with
      | .error halt => ⟨out, .error halt⟩
      | .ok (type, b) =>
        let read := block type b out
        match read.ending with
        | .error _ => read
        | .ok c => if isLast = 1 then read else blocks limit c read.out

/-- Reads compressed data. -/
def inflate (b : Bits) : Inflated := blocks (b.remaining + 1) b ByteArray.empty

end Delegation.Gzip
