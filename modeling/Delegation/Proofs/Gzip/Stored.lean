import Delegation.Proofs.Gzip.Member

/-!
# Stored members

The bits of an array are those of the number whose bytes it holds, the lowest first, and reading
some bits gives a part of this number (`take_eq`).  At the start of a byte this is the byte itself,
and so data that is stored in a block as it is comes out as it is (`inflate_stored`).

Every content that fits in one block is therefore the content of some member (`Member.stored`).
-/

namespace Delegation.Gzip

/-! ## Bits of numbers -/

lemma littleEndian_append (s t : List UInt8) :
    littleEndian (s ++ t) = littleEndian s + 256 ^ s.length * littleEndian t := by
  induction s with
  | nil => simp [littleEndian]
  | cons byte s ih =>
    have hcons : ∀ l, littleEndian (byte :: l) = byte.toNat + 256 * littleEndian l := fun _ => rfl
    rw [List.cons_append, hcons, hcons, ih, List.length_cons, Nat.pow_succ']
    ring

lemma littleEndian_lt (s : List UInt8) : littleEndian s < 256 ^ s.length := by
  induction s with
  | nil => decide
  | cons byte s ih =>
    have hbyte := byte.toNat_lt
    have hcons : littleEndian (byte :: s) = byte.toNat + 256 * littleEndian s := rfl
    rw [hcons, List.length_cons, Nat.pow_succ']
    omega

/-- A byte is a part of the number. -/
lemma littleEndian_byte (s t : List UInt8) (byte : UInt8) :
    littleEndian (s ++ byte :: t) / 256 ^ s.length % 256 = byte.toNat := by
  have hcons : littleEndian (byte :: t) = byte.toNat + 256 * littleEndian t := rfl
  have hbyte := byte.toNat_lt
  rw [littleEndian_append, Nat.add_mul_div_left _ _ (by positivity),
    Nat.div_eq_of_lt (littleEndian_lt s), hcons]
  omega

/-- The bits of the lowest byte are those of the number. -/
lemma bit_of_byte {i : Nat} (hi : i < 8) (m : Nat) : m % 256 / 2 ^ i % 2 = m / 2 ^ i % 2 := by
  have hbyte : (256 : Nat) = 2 ^ i * 2 ^ (8 - i) := by
    rw [← Nat.pow_add, Nat.add_sub_cancel' (by omega)]
  rw [hbyte, Nat.mod_mul_right_div_self, Nat.mod_mod_of_dvd _ (dvd_pow_self 2 (by omega))]

variable {bytes : List UInt8} {position n : Nat}

/-- Reading a bit gives a bit of the number. -/
lemma bit_eq (h : position < 8 * bytes.length) :
    Bits.bit ⟨bytes.toByteArray, position⟩ =
      .ok (littleEndian bytes / 2 ^ position % 2, ⟨bytes.toByteArray, position + 1⟩) := by
  have hlt : position / 8 < bytes.length := by omega
  have hsize : position / 8 < bytes.toByteArray.size := by rwa [List.size_toByteArray]
  have hbyte : bytes[position / 8].toNat = littleEndian bytes / 256 ^ (position / 8) % 256 := by
    have hpart := littleEndian_byte (bytes.take (position / 8)) (bytes.drop (position / 8 + 1))
      bytes[position / 8]
    rwa [← List.drop_eq_getElem_cons, List.take_append_drop,
      List.length_take_of_le (Nat.le_of_lt hlt), eq_comm] at hpart
  have hposition : 2 ^ position = 256 ^ (position / 8) * 2 ^ (position % 8) := by
    rw [show 256 = 2 ^ 8 from rfl, ← Nat.pow_mul, ← Nat.pow_add, Nat.div_add_mod]
  have hbit : bytes[position / 8].toNat / 2 ^ (position % 8) % 2 =
      littleEndian bytes / 2 ^ position % 2 := by
    rw [hbyte, bit_of_byte (Nat.mod_lt _ (by decide)), hposition, Nat.div_div_eq_div_mul]
  rw [Bits.bit, dif_pos hsize]
  simp only [List.getElem_toByteArray, hbit]

/-- Reading bits gives a part of the number. -/
theorem take_eq (h : position + n ≤ 8 * bytes.length) :
    Bits.take n ⟨bytes.toByteArray, position⟩ =
      .ok (littleEndian bytes / 2 ^ position % 2 ^ n, ⟨bytes.toByteArray, position + n⟩) := by
  induction n generalizing position with
  | zero =>
    rw [Nat.pow_zero, Nat.mod_one]
    rfl
  | succ n ih =>
    have hparts : littleEndian bytes / 2 ^ position % 2 ^ (n + 1) =
        littleEndian bytes / 2 ^ position % 2 +
          2 * (littleEndian bytes / 2 ^ (position + 1) % 2 ^ n) := by
      rw [Nat.pow_succ', Nat.mod_mul, Nat.div_div_eq_div_mul, ← Nat.pow_succ]
    have hrest : Bits.take n ⟨bytes.toByteArray, position + 1⟩ =
        .ok (littleEndian bytes / 2 ^ (position + 1) % 2 ^ n,
          ⟨bytes.toByteArray, position + 1 + n⟩) := ih (by omega)
    rw [Bits.take, bit_eq (by omega)]
    simp only [hrest]
    rw [hparts, Nat.add_right_comm, Nat.add_assoc]

/-! ## Stored blocks -/

/-- Bytes from the start of a byte on are read as they are. -/
lemma storedBytes_eq {front content back : List UInt8} (h : bytes = front ++ (content ++ back))
    (out : ByteArray) :
    storedBytes content.length ⟨bytes.toByteArray, 8 * front.length⟩ out =
      ⟨out ++ content.toByteArray,
        .ok ⟨bytes.toByteArray, 8 * (front.length + content.length)⟩⟩ := by
  induction content generalizing front out with
  | nil =>
    rw [List.toByteArray_nil, ByteArray.append_empty]
    rfl
  | cons byte content ih =>
    have htake : Bits.take 8 ⟨bytes.toByteArray, 8 * front.length⟩ =
        .ok (byte.toNat, ⟨bytes.toByteArray, 8 * front.length + 8⟩) := by
      rw [take_eq (by simp [h]; omega), Nat.pow_mul, show 2 ^ 8 = 256 from rfl, h,
        List.cons_append, littleEndian_byte]
    have hout : out ++ (byte :: content).toByteArray = out.push byte ++ content.toByteArray := by
      rw [← List.singleton_append, List.toByteArray_append, ← ByteArray.append_assoc,
        ByteArray.append_toByteArray_singleton]
    have hbyte : byte.toNat.toUInt8 = byte := UInt8.ofNat_toNat
    have hsplit : bytes = front ++ [byte] ++ (content ++ back) := by simp [h]
    have hrest := ih hsplit (out.push byte)
    rw [List.length_append, List.length_singleton, Nat.add_assoc, Nat.add_comm 1] at hrest
    rw [List.length_cons, storedBytes, htake, hout]
    simp only [hbyte]
    exact hrest

/-- The data of a stored block that is the last one. -/
def storedData (content : List UInt8) : List UInt8 :=
  1 :: (numberBytes 2 content.length ++ numberBytes 2 (65535 - content.length)) ++ content

lemma length_storedData (content : List UInt8) :
    (storedData content).length = 5 + content.length := by
  simp only [storedData, List.length_append, List.length_cons, length_numberBytes]

lemma littleEndian_storedData {content : List UInt8} (h : content.length < 65536) :
    littleEndian (storedData content) =
      1 + 2 ^ 8 * (content.length + 2 ^ 16 * (65535 - content.length +
        2 ^ 16 * littleEndian content)) := by
  have hcons : ∀ s, littleEndian (1 :: s) = 1 + 256 * littleEndian s := fun _ => rfl
  rw [storedData, List.cons_append, hcons, List.append_assoc, littleEndian_append,
    littleEndian_append]
  simp only [length_numberBytes, littleEndian_numberBytes]
  rw [Nat.mod_eq_of_lt (by omega), Nat.mod_eq_of_lt (by omega)]

section Stored

variable {content : List UInt8} (h : content.length < 65536)
include h

/-- Behind the mark and the type stand the length, its complement and the content itself. -/
lemma storedBlock_storedData :
    storedBlock ⟨(storedData content).toByteArray, 3⟩ ByteArray.empty =
      ⟨content.toByteArray,
        .ok ⟨(storedData content).toByteArray, 8 * (storedData content).length⟩⟩ := by
  have hlength := length_storedData content
  have hnumber := littleEndian_storedData h
  have halign : Bits.align ⟨(storedData content).toByteArray, 3⟩ =
      ⟨(storedData content).toByteArray, 8⟩ := by simp [Bits.align]
  have hfirst : littleEndian (storedData content) / 2 ^ 8 % 2 ^ 16 = content.length := by omega
  have hsecond : Bits.take 16 ⟨(storedData content).toByteArray, 24⟩ =
      .ok (65535 - content.length, ⟨(storedData content).toByteArray, 40⟩) := by
    have hdiv : littleEndian (storedData content) / 2 ^ 24 =
        65535 - content.length + 2 ^ 16 * littleEndian content := by omega
    rw [take_eq (by omega), hdiv, Nat.add_mul_mod_self_left, Nat.mod_eq_of_lt (by omega)]
  have hsplit : storedData content = 1 :: (numberBytes 2 content.length ++
      numberBytes 2 (65535 - content.length)) ++ (content ++ []) := by
    rw [storedData, List.append_nil]
  have hbytes := storedBytes_eq hsplit ByteArray.empty
  simp only [List.length_cons, List.length_append, length_numberBytes, Nat.reduceAdd,
    Nat.reduceMul, ByteArray.empty_append, ← hlength] at hbytes
  rw [storedBlock, halign, take_eq (by omega), hfirst]
  simp only [Nat.reduceAdd, hsecond, Nat.add_sub_cancel' (Nat.le_of_lt_succ h), if_true]
  exact hbytes

/-- Content that is stored as it is comes out as it is. -/
theorem inflate_stored :
    inflate ⟨(storedData content).toByteArray, 0⟩ =
      ⟨content.toByteArray,
        .ok ⟨(storedData content).toByteArray, 8 * (storedData content).length⟩⟩ := by
  have hlength := length_storedData content
  have hnumber := littleEndian_storedData h
  have hmark : littleEndian (storedData content) / 2 ^ 0 % 2 = 1 := by omega
  have htype : Bits.take 2 ⟨(storedData content).toByteArray, 1⟩ =
      .ok (0, ⟨(storedData content).toByteArray, 3⟩) := by
    have hzero : littleEndian (storedData content) / 2 ^ 1 % 2 ^ 2 = 0 := by omega
    rw [take_eq (by omega), hzero]
  rw [inflate, blocks, bit_eq (by omega)]
  simp only [Nat.zero_add, htype, hmark, block, if_true, storedBlock_storedData h]

end Stored

/-- The plainest header. -/
def Header.plain : Header where
  isText := false
  origin := [0, 0, 0, 0, 0, 255]
  extra := none
  name := none
  comment := none
  isChecked := false
  length_origin := rfl
  length_extra := by simp
  isField_name := by simp
  isField_comment := by simp

/-- The member in which a content is stored as it is. -/
def Member.stored (content : List UInt8) (h : content.length < 65536) : Member where
  header := .plain
  data := storedData content
  content := content
  used := 8 * (storedData content).length
  length_data := by omega
  inflate_data := inflate_stored h

end Delegation.Gzip
