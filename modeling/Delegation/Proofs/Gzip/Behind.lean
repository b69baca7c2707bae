import Delegation.Gzip.Inflate
import Delegation.Proofs.Sequence
import Mathlib

/-!
# Bytes behind compressed data

Compressed data says itself where it ends.  Each of its parts is read from the front, and a part
that could be read is read in the same way when more bytes follow: the position behind it is the
same, in front of these bytes (`Bits.extend`).  This goes from single bits up to whole data.

Main result: `inflate_extend`.
-/

namespace Delegation.Gzip

open Sequence

/-- The same position in an array with more bytes at its end. -/
def Bits.extend (b : Bits) (more : ByteArray) : Bits := ⟨b.bytes ++ more, b.position⟩

variable {b c : Bits} {v n symbol : Nat} {out out' : ByteArray} (more : ByteArray)

/-! ## Numbers and symbols -/

lemma bit_extend (h : b.bit = .ok (v, c)) :
    (b.extend more).bit = .ok (v, c.extend more) := by
  unfold Bits.bit at h
  split at h
  · next hlt =>
    cases h
    have hlt' : (b.extend more).position / 8 < (b.extend more).bytes.size := by
      rw [Bits.extend, ByteArray.size_append]
      exact Nat.lt_add_right _ hlt
    rw [Bits.bit, dif_pos hlt']
    simp only [Bits.extend, ByteArray.getElem_append_left hlt]
  · cases h

lemma take_extend (h : Bits.take n b = .ok (v, c)) :
    Bits.take n (b.extend more) = .ok (v, c.extend more) := by
  induction n generalizing b c v with
  | zero =>
    cases h
    rfl
  | succ n ih =>
    unfold Bits.take at h ⊢
    split at h
    · cases h
    · next low d hd =>
      split at h
      · cases h
      · next high e he =>
        cases h
        simp only [bit_extend more hd, ih he]

lemma decodeFrom_extend {symbols : Array Nat} {counts : List Nat} {word first index : Nat}
    (h : Code.decodeFrom symbols counts word first index b = .ok (symbol, c)) :
    Code.decodeFrom symbols counts word first index (b.extend more) =
      .ok (symbol, c.extend more) := by
  induction counts generalizing word first index b with
  | nil => cases h
  | cons count counts ih =>
    unfold Code.decodeFrom at h ⊢
    split at h
    · cases h
    · next low d hd =>
      simp only [bit_extend more hd] at h ⊢
      split at h
      · next hword =>
        rw [if_pos hword]
        split at h
        · cases h
          rfl
        · cases h
      · next hword =>
        rw [if_neg hword]
        exact ih h

lemma decode_extend {code : Code} (h : code.decode b = .ok (symbol, c)) :
    code.decode (b.extend more) = .ok (symbol, c.extend more) :=
  decodeFrom_extend more h

/-! ## Copies -/

lemma readStep_extend {steps : Array (Nat × Nat)} (h : readStep steps symbol b = .ok (v, c)) :
    readStep steps symbol (b.extend more) = .ok (v, c.extend more) := by
  unfold readStep at h ⊢
  split at h
  · cases h
  · split at h
    · cases h
    · next hd =>
      cases h
      simp only [take_extend more hd]

lemma readCopy_extend {distances : Code} {length distance : Nat}
    (h : readCopy distances symbol b = .ok (length, distance, c)) :
    readCopy distances symbol (b.extend more) = .ok (length, distance, c.extend more) := by
  unfold readCopy at h ⊢
  split at h
  · cases h
  · next hlength =>
    split at h
    · cases h
    · next hsymbol =>
      split at h
      · cases h
      · next hdistance =>
        cases h
        simp only [readStep_extend more hlength, decode_extend more hsymbol,
          readStep_extend more hdistance]

/-! ## Blocks -/

section Steps

variable {literals distances : Code}

lemma codedBlock_of_byte {w : UInt8} (hd : literals.decode b = .ok (symbol, c))
    (hw : Meaning.ofSymbol symbol = .byte w) :
    codedBlock literals distances b out = codedBlock literals distances c (out.push w) := by
  rw [codedBlock]
  grind

lemma codedBlock_of_endOfBlock (hd : literals.decode b = .ok (symbol, c))
    (hend : Meaning.ofSymbol symbol = .endOfBlock) :
    codedBlock literals distances b out = ⟨out, .ok c⟩ := by
  rw [codedBlock]
  grind

lemma codedBlock_of_copy {d : Bits} {step length distance : Nat}
    (hd : literals.decode b = .ok (symbol, c)) (hcopy : Meaning.ofSymbol symbol = .copy step)
    (hread : readCopy distances step c = .ok (length, distance, d)) :
    codedBlock literals distances b out =
      codedBlock literals distances d (copyBack distance length out) := by
  rw [codedBlock]
  grind

lemma codedBlock_extend (h : codedBlock literals distances b out = ⟨out', .ok c⟩) :
    codedBlock literals distances (b.extend more) out = ⟨out', .ok (c.extend more)⟩ := by
  fun_induction codedBlock literals distances b out with
  | case1 => cases h
  | case2 b out symbol d hd _ v hv ih =>
    rw [codedBlock_of_byte (decode_extend more hd) hv]
    exact ih h
  | case3 b out symbol d hd _ hend =>
    cases h
    exact codedBlock_of_endOfBlock (decode_extend more hd) hend
  | case4 => cases h
  | case5 b out symbol d hd _ step hcopy length distance e hread _ ih =>
    rw [codedBlock_of_copy (decode_extend more hd) hcopy (readCopy_extend more hread)]
    exact ih h

end Steps

lemma readTriples_extend {lengths : List Nat} (h : readTriples n b = .ok (lengths, c)) :
    readTriples n (b.extend more) = .ok (lengths, c.extend more) := by
  induction n generalizing b c lengths with
  | zero =>
    cases h
    rfl
  | succ n ih =>
    unfold readTriples at h ⊢
    split at h
    · cases h
    · next hd =>
      split at h
      · cases h
      · next he =>
        cases h
        simp only [take_extend more hd, ih he]

lemma readRepeat_extend {least extra : Nat} (h : readRepeat least extra b = .ok (n, c)) :
    readRepeat least extra (b.extend more) = .ok (n, c.extend more) := by
  unfold readRepeat at h ⊢
  split at h
  · cases h
  · next hd =>
    cases h
    simp only [take_extend more hd]

lemma readRun_extend {before run : List Nat} (h : readRun symbol before b = .ok (run, c)) :
    readRun symbol before (b.extend more) = .ok (run, c.extend more) := by
  unfold readRun at h ⊢
  simp only at h ⊢
  split_ifs at h ⊢
  · cases h
    rfl
  · cases before with
    | nil => cases h
    | cons length before =>
      simp only at h ⊢
      split at h
      · cases h
      · next hrepeat =>
        cases h
        simp only [readRepeat_extend more hrepeat]
  -- the lengths that are zero
  all_goals
    split at h
    · cases h
    · next hrepeat =>
      cases h
      simp only [readRepeat_extend more hrepeat]

lemma readLengths_of_run {code : Code} {want : Nat} {before run : List Nat} {d : Bits}
    (hle : ¬ want < before.length) (hne : before.length ≠ want)
    (hd : code.decode b = .ok (symbol, c)) (hrun : readRun symbol before c = .ok (run, d)) :
    readLengths code want before b = readLengths code want (run ++ before) d := by
  rw [readLengths, if_neg hle, if_neg hne]
  grind

lemma readLengths_extend {code : Code} {want : Nat} {before lengths : List Nat}
    (h : readLengths code want before b = .ok (lengths, c)) :
    readLengths code want before (b.extend more) = .ok (lengths, c.extend more) := by
  fun_induction readLengths code want before b with
  | case1 => cases h
  | case2 before b hle heq =>
    cases h
    rw [readLengths, if_neg hle, if_pos heq]
  | case3 => cases h
  | case4 => cases h
  | case5 before b hle hne symbol d hd _ run e hrun _ ih =>
    rw [readLengths_of_run hle hne (decode_extend more hd) (readRun_extend more hrun)]
    exact ih h

lemma readCodes_extend {literals distances : Code}
    (h : readCodes b = .ok (literals, distances, c)) :
    readCodes (b.extend more) = .ok (literals, distances, c.extend more) := by
  unfold readCodes at h ⊢
  obtain ⟨⟨n, b₁⟩, hn, h⟩ := bind_eq_ok_iff.mp h
  obtain ⟨⟨m, b₂⟩, hm, h⟩ := bind_eq_ok_iff.mp h
  obtain ⟨⟨k, b₃⟩, hk, h⟩ := bind_eq_ok_iff.mp h
  refine bind_eq_ok_iff.mpr ⟨_, take_extend more hn, bind_eq_ok_iff.mpr ⟨_, take_extend more hm,
    bind_eq_ok_iff.mpr ⟨_, take_extend more hk, ?_⟩⟩⟩
  simp only at h ⊢
  split at h
  · cases h
  · next hsizes =>
    rw [if_neg hsizes]
    obtain ⟨⟨stated, b₄⟩, hstated, h⟩ := bind_eq_ok_iff.mp h
    refine bind_eq_ok_iff.mpr ⟨_, readTriples_extend more hstated, ?_⟩
    simp only at h ⊢
    split at h
    · next hcomplete =>
      rw [if_pos hcomplete]
      obtain ⟨⟨lengths, b₅⟩, hlengths, h⟩ := bind_eq_ok_iff.mp h
      refine bind_eq_ok_iff.mpr ⟨_, readLengths_extend more hlengths, ?_⟩
      simp only at h ⊢
      split at h
      · next husable =>
        rw [if_pos husable]
        cases h
        rfl
      · cases h
    · cases h

lemma storedBytes_extend (h : storedBytes n b out = ⟨out', .ok c⟩) :
    storedBytes n (b.extend more) out = ⟨out', .ok (c.extend more)⟩ := by
  induction n generalizing b out with
  | zero =>
    cases h
    rfl
  | succ n ih =>
    unfold storedBytes at h ⊢
    split at h
    · cases h
    · next hd =>
      simp only [take_extend more hd]
      exact ih h

lemma storedBlock_extend (h : storedBlock b out = ⟨out', .ok c⟩) :
    storedBlock (b.extend more) out = ⟨out', .ok (c.extend more)⟩ := by
  unfold storedBlock at h ⊢
  split at h
  · cases h
  · next hn =>
    split at h
    · cases h
    · next hcomplement =>
      split at h
      · next hsum =>
        have halign : (b.extend more).align = b.align.extend more := rfl
        simp only [halign, take_extend more hn, take_extend more hcomplement, if_pos hsum]
        exact storedBytes_extend more h
      · cases h

lemma block_extend {type : Nat} (h : block type b out = ⟨out', .ok c⟩) :
    block type (b.extend more) out = ⟨out', .ok (c.extend more)⟩ := by
  unfold block at h ⊢
  split_ifs at h ⊢
  · exact storedBlock_extend more h
  · exact codedBlock_extend more h
  · split at h
    · cases h
    · next hcodes =>
      simp only [readCodes_extend more hcodes]
      exact codedBlock_extend more h
  · cases h

/-- Blocks are read in the same way with more bytes behind them, and also with a higher limit. -/
lemma blocks_extend {limit limit' : Nat} (hlimit : limit ≤ limit')
    (h : blocks limit b out = ⟨out', .ok c⟩) :
    blocks limit' (b.extend more) out = ⟨out', .ok (c.extend more)⟩ := by
  induction limit generalizing limit' b out with
  | zero => cases h
  | succ limit ih =>
    obtain ⟨limit', rfl⟩ := Nat.exists_eq_add_of_le' (Nat.succ_le_of_lt hlimit)
    unfold blocks at h ⊢
    split at h
    · cases h
    · next hmark =>
      split at h
      · cases h
      · next isLast _ _ _ type d htype =>
        simp only [bit_extend more hmark, take_extend more htype]
        cases hread : block type d out with
        | mk mid ending =>
          simp only [hread] at h
          cases ending with
          | error halt => cases h
          | ok e =>
            simp only [block_extend more hread]
            split_ifs at h ⊢
            · cases h
              rfl
            · exact ih (Nat.le_of_succ_le_succ hlimit) h

/-- Compressed data is read in the same way with more bytes behind it. -/
theorem inflate_extend (h : inflate b = ⟨out', .ok c⟩) :
    inflate (b.extend more) = ⟨out', .ok (c.extend more)⟩ := by
  refine blocks_extend more ?_ h
  simp only [Bits.remaining, Bits.extend, ByteArray.size_append]
  omega

end Delegation.Gzip
