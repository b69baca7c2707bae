import Delegation.Gzip.Member
import Delegation.Proofs.Gzip.Behind
import Delegation.Proofs.Storage.Lines
import Mathlib

/-!
# Members of gzip files

A member is made of a header, compressed data and a trailer.  The header has some optional fields,
which its flags announce, and possibly a checksum of its own (`Header`); the trailer holds the
checksum and the length of the content (`Member`).

A header is skipped in front of whatever follows it (`skipHeader_append`), and a member is read in
front of whatever follows it: its content is all that is read (`feed_append`).
-/

namespace Delegation.Gzip

/-! ## Numbers -/

/-- The lowest bytes of a number, the lowest first. -/
def numberBytes : Nat → Nat → List UInt8
  | 0, _ => []
  | k + 1, n => n.toUInt8 :: numberBytes k (n / 256)

@[simp] lemma length_numberBytes (k n : Nat) : (numberBytes k n).length = k := by
  induction k generalizing n with
  | zero => rfl
  | succ k ih => rw [numberBytes, List.length_cons, ih]

/-- The bytes of a number say what it is, up to the bytes that are left out. -/
lemma littleEndian_numberBytes (k n : Nat) : littleEndian (numberBytes k n) = n % 256 ^ k := by
  induction k generalizing n with
  | zero => rw [Nat.pow_zero, Nat.mod_one, numberBytes, littleEndian, List.foldr_nil]
  | succ k ih =>
    have hcons : littleEndian (numberBytes (k + 1) n) =
        n % 256 + 256 * littleEndian (numberBytes k (n / 256)) := rfl
    rw [hcons, ih, Nat.pow_succ', Nat.mod_mul]

lemma splitBytes_append {k : Nat} {bytes : List UInt8} (h : bytes.length = k)
    (rest : List UInt8) :
    splitBytes k (bytes ++ rest) = .ok (bytes, rest) := by
  subst h
  rw [splitBytes, if_neg (by simp), List.splitAt_eq, List.take_left, List.drop_left]

lemma toList_toByteArray (bytes : List UInt8) : bytes.toByteArray.toList = bytes := by
  rw [ByteArray.toList, toList_loop, List.toList_data_toByteArray]
  rfl

/-! ## Headers -/

/-- A text field of a header: no byte of it is null, and it is not longer than a reader takes. -/
def IsField (text : List UInt8) : Prop := 0 ∉ text ∧ text.length ≤ 65535

/-- A header. -/
structure Header where
  /-- Whether the content is said to be a text. -/
  isText : Bool
  /-- The time of the content, and on what and how it was compressed. -/
  origin : List UInt8
  /-- Further data, whose length fits in two bytes. -/
  extra : Option (List UInt8)
  /-- The name of the file. -/
  name : Option (List UInt8)
  comment : Option (List UInt8)
  /-- Whether the header ends with a checksum of its own. -/
  isChecked : Bool
  length_origin : origin.length = 6
  length_extra : ∀ field ∈ extra, field.length < 65536
  isField_name : ∀ field ∈ name, IsField field
  isField_comment : ∀ field ∈ comment, IsField field

/-- The byte of flags. -/
def flagByte (isText isChecked hasExtra hasName hasComment : Bool) : UInt8 :=
  (isText.toNat + 2 * isChecked.toNat + 4 * hasExtra.toNat + 8 * hasName.toNat +
    16 * hasComment.toNat).toUInt8

/-- The bytes of the further data, behind their length. -/
def extraBytes : Option (List UInt8) → List UInt8
  | none => []
  | some field => numberBytes 2 field.length ++ field

/-- The bytes of a text field, with a null byte behind them. -/
def textBytes : Option (List UInt8) → List UInt8
  | none => []
  | some field => field ++ [0]

namespace Header

/-- The flags of a header. -/
def flags (h : Header) : UInt8 :=
  flagByte h.isText h.isChecked h.extra.isSome h.name.isSome h.comment.isSome

/-- The bytes of a header up to its checksum. -/
def mainBytes (h : Header) : List UInt8 :=
  [0x1f, 0x8b, 8, h.flags] ++ h.origin ++
    (extraBytes h.extra ++ (textBytes h.name ++ textBytes h.comment))

/-- The bytes of the checksum of a header, if it has one. -/
def checkBytes (h : Header) : List UInt8 :=
  if h.isChecked then numberBytes 2 (checksum h.mainBytes) else []

/-- The bytes of a header. -/
def bytes (h : Header) : List UInt8 := h.mainBytes ++ h.checkBytes

end Header

lemma flagByte_spec (isText isChecked hasExtra hasName hasComment : Bool) :
    let flags := flagByte isText isChecked hasExtra hasName hasComment
    flags.toNat < 0x20 ∧ hasBit flags 1 = isChecked ∧ hasBit flags 2 = hasExtra ∧
      hasBit flags 3 = hasName ∧ hasBit flags 4 = hasComment := by
  revert isText isChecked hasExtra hasName hasComment
  decide

lemma skipExtra_append {field : List UInt8} (hfield : field.length < 65536) (rest : List UInt8) :
    skipExtra (extraBytes (some field) ++ rest) = .ok rest := by
  rw [skipExtra, extraBytes, List.append_assoc, splitBytes_append (length_numberBytes _ _)]
  have hlength : littleEndian (numberBytes 2 field.length) = field.length := by
    rw [littleEndian_numberBytes]
    exact Nat.mod_eq_of_lt hfield
  show (splitBytes (littleEndian (numberBytes 2 field.length)) (field ++ rest) >>= _) = _
  rw [hlength, splitBytes_append rfl]
  rfl

lemma skipText_append {field : List UInt8} (hfield : IsField field) (rest : List UInt8) :
    skipText (textBytes (some field) ++ rest) = .ok rest := by
  have htake : (textBytes (some field) ++ rest).takeWhile (· != 0) = field := by
    rw [textBytes, List.append_assoc, List.takeWhile_append_of_pos]
    · simp
    · intro byte hbyte
      have hne : byte ≠ 0 := fun hnull => hfield.1 (hnull ▸ hbyte)
      simpa using hne
  rw [skipText, htake]
  simp only [if_neg (Nat.not_lt.mpr hfield.2), textBytes, List.append_assoc, List.drop_left,
    List.singleton_append]

section Optional

variable {write : Option (List UInt8) → List UInt8} {field : Option (List UInt8)} {isThere : Bool}
  {skip : List UInt8 → Except StorageProblem (List UInt8)}

/-- An optional field is skipped if it is there. -/
lemma skip_optional (hthere : isThere = field.isSome) (hnone : write none = [])
    (hsome : ∀ text ∈ field, ∀ rest, skip (write (some text) ++ rest) = .ok rest)
    (rest : List UInt8) (goOn : List UInt8 → Except StorageProblem (List UInt8)) :
    (if isThere = true then skip (write field ++ rest) >>= goOn
      else pure (write field ++ rest) >>= goOn) = goOn rest := by
  subst hthere
  cases field with
  | none =>
    rw [hnone]
    rfl
  | some text =>
    rw [Option.isSome_some, if_pos rfl, hsome text rfl]
    rfl

end Optional

lemma skipHeaderChecksum_append (header rest : List UInt8) :
    skipHeaderChecksum header (numberBytes 2 (checksum header) ++ rest) = .ok rest := by
  rw [skipHeaderChecksum, splitBytes_append (length_numberBytes _ _)]
  refine (if_pos ?_).trans rfl
  exact littleEndian_numberBytes 2 (checksum header)

/-- A header is skipped, whatever comes behind it. -/
theorem skipHeader_append (h : Header) (rest : List UInt8) :
    skipHeader (h.bytes ++ rest) = .ok rest := by
  obtain ⟨hreserved, hchecked, hextra, hname, hcomment⟩ :=
    flagByte_spec h.isText h.isChecked h.extra.isSome h.name.isSome h.comment.isSome
  have hbytes : h.bytes ++ rest = [0x1f, 0x8b, 8, h.flags] ++ h.origin ++ (extraBytes h.extra ++
      (textBytes h.name ++ (textBytes h.comment ++ (h.checkBytes ++ rest)))) := by
    simp only [Header.bytes, Header.mainBytes, List.append_assoc]
  have hstart : splitBytes 10 (h.bytes ++ rest) = .ok ([0x1f, 0x8b, 8, h.flags] ++ h.origin,
      extraBytes h.extra ++
        (textBytes h.name ++ (textBytes h.comment ++ (h.checkBytes ++ rest)))) := by
    rw [hbytes]
    exact splitBytes_append (by simp [h.length_origin]) _
  -- the checksum is about all that stands before it
  have hmain : (h.bytes ++ rest).take ((h.bytes ++ rest).length - (h.checkBytes ++ rest).length) =
      h.mainBytes := by
    rw [Header.bytes, List.append_assoc, List.length_append, Nat.add_sub_cancel, List.take_left]
  rw [skipHeader, hstart]
  refine Eq.trans (if_neg (Nat.not_le.mpr hreserved)) ?_
  -- the optional fields, one after another
  refine Eq.trans (skip_optional hextra rfl
    (fun field hfield => skipExtra_append (h.length_extra field hfield)) _ _) ?_
  refine Eq.trans (skip_optional hname rfl
    (fun field hfield => skipText_append (h.isField_name field hfield)) _ _) ?_
  refine Eq.trans (skip_optional hcomment rfl
    (fun field hfield => skipText_append (h.isField_comment field hfield)) _ _) ?_
  simp only
  rw [hmain, show hasBit h.flags 1 = h.isChecked from hchecked, Header.checkBytes]
  split_ifs
  · exact skipHeaderChecksum_append h.mainBytes rest
  · rfl

/-! ## Members -/

/-- A member: a header and compressed data, which ends within its last byte, with the content. -/
structure Member where
  header : Header
  data : List UInt8
  content : List UInt8
  /-- How many bits of the data are used. -/
  used : Nat
  length_data : data.length = (used + 7) / 8
  inflate_data : inflate ⟨data.toByteArray, 0⟩ = ⟨content.toByteArray, .ok ⟨data.toByteArray, used⟩⟩

namespace Member

/-- The checksum and the length of the content, each in four bytes. -/
def trailer (m : Member) : List UInt8 :=
  numberBytes 4 (checksum m.content) ++ numberBytes 4 m.content.length

/-- The bytes of a member. -/
def bytes (m : Member) : List UInt8 := m.header.bytes ++ (m.data ++ m.trailer)

end Member

lemma checksum_lt (bytes : List UInt8) : checksum bytes < 2 ^ 32 := UInt32.toNat_lt _

lemma checkTrailer_append (m : Member) (rest : List UInt8) :
    checkTrailer m.content (m.trailer ++ rest) = none := by
  have hsplit : splitBytes 8 (m.trailer ++ rest) = .ok (m.trailer, rest) :=
    splitBytes_append (by simp [Member.trailer]) rest
  have hchecksum : m.trailer.take 4 = numberBytes 4 (checksum m.content) := by
    rw [Member.trailer, List.take_left' (length_numberBytes _ _)]
  have hlength : m.trailer.drop 4 = numberBytes 4 m.content.length := by
    rw [Member.trailer, List.drop_left' (length_numberBytes _ _)]
  rw [checkTrailer, hsplit]
  refine if_pos ⟨?_, ?_⟩
  · rw [hchecksum, littleEndian_numberBytes]
    exact Nat.mod_eq_of_lt (checksum_lt _)
  · rw [hlength, littleEndian_numberBytes]

/-- The bytes behind the data of a member are left as they are. -/
lemma restBytes_append (m : Member) (rest : List UInt8) :
    (Bits.align ⟨(m.data ++ rest).toByteArray, m.used⟩).restBytes = rest.toByteArray := by
  have hposition : (m.used + 7) / 8 * 8 / 8 = m.data.toByteArray.size := by
    rw [List.size_toByteArray, m.length_data, Nat.mul_div_cancel _ (by decide)]
  rw [Bits.restBytes, Bits.align, hposition, List.toByteArray_append, ByteArray.size_append]
  exact ByteArray.extract_append_eq_right rfl rfl

/-- A member is read whatever comes behind it, and only its content is read. -/
theorem feed_append (m : Member) (rest : List UInt8) :
    feed (m.bytes ++ rest) = Feed.ofBytes m.content := by
  have hheader : skipHeader (m.bytes ++ rest) = .ok (m.data ++ (m.trailer ++ rest)) := by
    rw [Member.bytes, List.append_assoc, List.append_assoc, skipHeader_append]
  have hdata : inflate ⟨(m.data ++ (m.trailer ++ rest)).toByteArray, 0⟩ =
      ⟨m.content.toByteArray, .ok ⟨(m.data ++ (m.trailer ++ rest)).toByteArray, m.used⟩⟩ := by
    rw [List.toByteArray_append]
    exact inflate_extend _ m.inflate_data
  rw [feed, hheader]
  simp only [hdata, restBytes_append, toList_toByteArray, checkTrailer_append]
  rfl

end Delegation.Gzip
