import Delegation.Storage.Feed
import Delegation.Proofs.Text.Pieces
import Mathlib

/-!
# The lines of bytes and texts

Bytes are UTF-8 exactly if they are the encoding of a text (`decodeUtf8?_eq_some_iff`).  In an
encoding the byte of a line feed stands for a line feed and for nothing else, so the lines of an
encoded text are the lines of the text (`lines_utf8`), and texts that are written as lines are read
back (`lines_utf8_joined`).

The lines of bytes can be read off from their front: what stands before the first line feed is
a line, and the bytes behind it have the other lines (`lines_append`).  So the first lines of bytes
do not depend on anything that comes behind them (`lines_firstLines_append`).  A problem that stops
the reading comes behind all lines that are read to their end (`lines_eq`).
-/

namespace Delegation

open Delegation.Text

/-! ## UTF-8 -/

/-- The encoding of a text. -/
def utf8 (s : List Char) : List UInt8 := s.flatMap String.utf8EncodeChar

lemma utf8_append (s t : List Char) : utf8 (s ++ t) = utf8 s ++ utf8 t := List.flatMap_append

lemma utf8_append_lineFeed (s t : List Char) :
    utf8 (s ++ '\n' :: t) = utf8 s ++ 10 :: utf8 t := utf8_append s ('\n' :: t)

lemma toByteArray_utf8 (s : List Char) : (utf8 s).toByteArray = (String.ofList s).toByteArray := rfl

lemma toList_loop (bytes : ByteArray) (i : Nat) (acc : List UInt8) :
    ByteArray.toList.loop bytes i acc = acc.reverse ++ bytes.data.toList.drop i := by
  fun_induction ByteArray.toList.loop bytes i acc with
  | case1 i acc hlt ih =>
    have hget : bytes.get! i = bytes.data.toList.get ⟨i, hlt⟩ := getElem!_pos bytes.data i hlt
    rw [ih, List.drop_eq_getElem_cons hlt, hget, List.get_eq_getElem]
    simp
  | case2 i acc hle =>
    have hlen : bytes.data.toList.length ≤ i := Nat.le_of_not_lt hle
    rw [List.drop_eq_nil_of_le hlen, List.append_nil]

lemma encodeUtf8_eq (s : String) : encodeUtf8 s = utf8 s.toList := by
  conv_lhs => rw [← String.ofList_toList (s := s)]
  rw [encodeUtf8, String.toUTF8_eq_toByteArray, ← toByteArray_utf8, ByteArray.toList, toList_loop]
  simp

/-- Bytes are decoded exactly if they encode a text, and to that text. -/
theorem decodeUtf8?_eq_some_iff {bytes : List UInt8} {s : List Char} :
    decodeUtf8? bytes = some s ↔ bytes = utf8 s := by
  constructor
  · intro h
    obtain ⟨t, ht, rfl⟩ := Option.map_eq_some_iff.mp h
    rw [String.fromUTF8?] at ht
    split at ht
    · rw [← List.toByteArray_inj, toByteArray_utf8, String.ofList_toList, ← Option.some.inj ht]
      rfl
    · cases ht
  · rintro rfl
    have hvalid : (utf8 s).toByteArray.IsValidUTF8 := ⟨s, rfl⟩
    have htext : String.fromUTF8 (utf8 s).toByteArray hvalid = String.ofList s := rfl
    rw [decodeUtf8?, String.fromUTF8?, dif_pos hvalid, htext, Option.map_some, String.toList_ofList]

/-- The byte of a line feed stands for nothing else. -/
lemma lineFeed_mem_utf8EncodeChar {c : Char} : 10 ∈ String.utf8EncodeChar c ↔ c = '\n' := by
  have hofNat : ∀ n, n < 256 → ((10 : UInt8) = UInt8.ofNat n ↔ n = 10) := by
    intro n hn
    rw [← UInt8.toNat_inj, UInt8.toNat_ofNat_of_lt' hn]
    exact eq_comm
  have hc : c = '\n' ↔ c.val.toNat = 10 := by
    rw [← Char.toNat_inj]
    rfl
  rw [String.utf8EncodeChar, hc]
  -- all bytes of longer encodings are 128 or more
  split
  · simp only [List.mem_singleton]
    rw [hofNat _ (by omega)]
  · split
    · simp only [List.mem_cons, List.not_mem_nil, or_false]
      rw [hofNat _ (by omega), hofNat _ (by omega)]
      omega
    · split
      · simp only [List.mem_cons, List.not_mem_nil, or_false]
        rw [hofNat _ (by omega), hofNat _ (by omega), hofNat _ (by omega)]
        omega
      · simp only [List.mem_cons, List.not_mem_nil, or_false]
        rw [hofNat _ (by omega), hofNat _ (by omega), hofNat _ (by omega), hofNat _ (by omega)]
        omega

lemma lineFeed_mem_utf8 {s : List Char} : 10 ∈ utf8 s ↔ '\n' ∈ s := by
  simp only [utf8, List.mem_flatMap, lineFeed_mem_utf8EncodeChar, exists_eq_right]

lemma utf8_eq_nil_iff {s : List Char} : utf8 s = [] ↔ s = [] := by
  cases s <;> simp [utf8]

lemma utf8_joined (ps : List (List Char)) : utf8 (joined '\n' ps) = joined 10 (ps.map utf8) := by
  induction ps with
  | nil => rfl
  | cons p ps ih =>
    cases ps with
    | nil => rfl
    | cons q ps =>
      rw [joined, utf8_append_lineFeed, ih]
      rfl

/-- The lines of a text are cut before or after it is encoded. -/
lemma pieces_utf8 (s : List Char) : pieces 10 (utf8 s) = (pieces '\n' s).map utf8 := by
  have hne : (pieces '\n' s).map utf8 ≠ [] := by simpa using pieces_ne_nil '\n' s
  conv_lhs => rw [← joined_pieces '\n' s, utf8_joined]
  refine pieces_joined 10 hne ?_
  simp only [List.forall_mem_map, lineFeed_mem_utf8]
  exact fun p hp => sep_not_mem_of_mem_pieces '\n' hp

namespace Feed

/-! ## Lines -/

/-- A line that can be read is the encoding of its text. -/
lemma decodeLine_eq_ok_iff {bytes : List UInt8} {s : List Char} :
    decodeLine bytes = .ok s ↔ bytes = utf8 s := by
  rw [← decodeUtf8?_eq_some_iff, decodeLine]
  cases decodeUtf8? bytes <;> simp

/-- The only problem of a line is that it encodes no text. -/
lemma decodeLine_eq_error_iff {bytes : List UInt8} {problem : StorageProblem} :
    decodeLine bytes = .error problem ↔ (∀ s, bytes ≠ utf8 s) ∧ problem = .invalidUtf8 := by
  simp only [ne_eq, ← decodeUtf8?_eq_some_iff, ← Option.eq_none_iff_forall_ne_some]
  rw [decodeLine]
  cases decodeUtf8? bytes <;> simp [eq_comm]

lemma decodeLine_utf8 (s : List Char) : decodeLine (utf8 s) = .ok s :=
  decodeLine_eq_ok_iff.mpr rfl

/-- The bytes of the lines that are read to their end.  What stands behind the last line feed is
such a line unless a problem stops the reading there. -/
def wholeLines (feed : Feed) : List (List UInt8) :=
  let parts := pieces 10 feed.bytes
  if feed.problem.isSome ∨ parts.getLast? = some [] then parts.dropLast else parts

/-- A problem comes behind all lines that are read to their end. -/
theorem lines_eq (feed : Feed) :
    feed.lines = feed.wholeLines.map decodeLine ++ feed.problem.toList.map .error := by
  obtain ⟨before, last, hparts⟩ : ∃ before last, pieces 10 feed.bytes = before ++ [last] :=
    ⟨_, _, (List.dropLast_append_getLast (pieces_ne_nil 10 feed.bytes)).symm⟩
  rw [lines, wholeLines]
  simp only [hparts, List.dropLast_concat, List.getLast?_concat, Option.some.injEq]
  cases feed.problem with
  | some problem => rw [if_pos (.inl rfl)]; rfl
  | none => cases last <;> simp

/-- Bytes without a line feed are one line, unless there are none. -/
lemma lines_of_not_mem {bytes : List UInt8} (h : 10 ∉ bytes) :
    (ofBytes bytes).lines = if bytes = [] then [] else [decodeLine bytes] := by
  rw [lines, ofBytes]
  simp only [pieces_of_not_mem 10 h]
  cases bytes <;> rfl

/-- What stands before the first line feed is a line. -/
theorem lines_append {line : List UInt8} (h : 10 ∉ line) (rest : List UInt8) :
    (ofBytes (line ++ 10 :: rest)).lines = decodeLine line :: (ofBytes rest).lines := by
  have hne := pieces_ne_nil 10 rest
  rw [lines, lines, ofBytes, ofBytes]
  simp only [pieces_append_sep 10 h, List.dropLast_cons_of_ne_nil hne,
    List.getLast?_cons_of_ne_nil hne, List.map_cons]
  split <;> rfl

/-- Bytes behind the end of a line have their own lines. -/
theorem lines_append_of_getLast? {front : List UInt8} (h : front.getLast? = some 10)
    (rest : List UInt8) :
    (ofBytes (front ++ rest)).lines = (ofBytes front).lines ++ (ofBytes rest).lines := by
  obtain ⟨front, rfl⟩ := List.getLast?_eq_some_iff.mp h
  have hrest := pieces_ne_nil 10 rest
  have hfront : (ofBytes (front ++ [10])).lines = (pieces 10 front).map decodeLine := by
    rw [lines, ofBytes]
    simp only [pieces_append, pieces_nil, List.dropLast_concat, List.getLast?_concat]
  rw [hfront, List.append_assoc, List.singleton_append, lines, lines, ofBytes, ofBytes]
  simp only [pieces_append, List.dropLast_append_of_ne_nil hrest,
    List.getLast?_append_of_ne_nil _ hrest, List.map_append]
  split <;> simp

/-- The lines of a text.  Nothing behind the last line feed is no line. -/
def textLines (s : List Char) : List (List Char) :=
  let parts := pieces '\n' s
  if parts.getLast? = some [] then parts.dropLast else parts

/-- The lines of an encoded text are texts. -/
theorem lines_utf8 (s : List Char) : (ofBytes (utf8 s)).lines = (textLines s).map .ok := by
  have hdecode : ∀ ps : List (List Char), (ps.map utf8).map decodeLine = ps.map .ok := by
    intro ps
    rw [List.map_map]
    exact List.map_congr_left fun p _ => decodeLine_utf8 p
  obtain ⟨before, last, hparts⟩ : ∃ before last, pieces '\n' s = before ++ [last] :=
    ⟨_, _, (List.dropLast_append_getLast (pieces_ne_nil '\n' s)).symm⟩
  rw [lines, ofBytes, textLines]
  simp only [pieces_utf8, hparts, List.map_append, List.map_cons, List.map_nil,
    List.dropLast_concat, List.getLast?_concat, hdecode, Option.some.injEq]
  split
  · next h => cases h
  · next h => rw [if_pos (utf8_eq_nil_iff.mp (Option.some.inj h))]
  · next rest hne h =>
    obtain rfl := Option.some.inj h
    rw [if_neg fun hnil => hne (by rw [hnil]; rfl), decodeLine_utf8, List.map_append]
    rfl

/-- Lines that are joined are told apart again. -/
lemma textLines_joined {ps : List (List Char)} (hne : ps ≠ []) (hfree : ∀ p ∈ ps, '\n' ∉ p) :
    textLines (joined '\n' ps) = if ps.getLast? = some [] then ps.dropLast else ps := by
  rw [textLines, pieces_joined '\n' hne hfree]

/-- A piece that is not empty is a line, and so are all pieces before it. -/
lemma exists_textLines_eq {s line : List Char} {before after : List (List Char)}
    (hs : pieces '\n' s = before ++ line :: after) (hline : line ≠ []) :
    ∃ after', textLines s = before ++ line :: after' := by
  rw [textLines, hs]
  split
  · next hlast =>
    have hafter : after ≠ [] := by
      rintro rfl
      rw [List.getLast?_concat] at hlast
      exact hline (Option.some.inj hlast)
    exact ⟨after.dropLast, by
      rw [List.dropLast_append_of_ne_nil (List.cons_ne_nil _ _),
        List.dropLast_cons_of_ne_nil hafter]⟩
  · exact ⟨after, rfl⟩

/-- Texts that are written as lines are the lines that are read; behind the last of them there
may be a line feed or none. -/
theorem lines_utf8_joined {texts : List (List Char)} {ending : List Char}
    (hne : ∀ text ∈ texts, text ≠ []) (hfree : ∀ text ∈ texts, '\n' ∉ text)
    (hending : ending = [] ∨ ending = ['\n'] ∧ texts ≠ []) :
    (ofBytes (utf8 (joined '\n' texts ++ ending))).lines = texts.map .ok := by
  rw [lines_utf8]
  congr 1
  rcases hending with rfl | ⟨rfl, htexts⟩
  · rw [List.append_nil]
    by_cases htexts : texts = []
    · subst htexts
      rfl
    · rw [textLines_joined htexts hfree, if_neg]
      exact fun h => hne [] (List.mem_of_getLast? h) rfl
  · have hjoined : joined '\n' texts ++ ['\n'] = joined '\n' (texts ++ [[]]) :=
      (joined_append htexts (List.cons_ne_nil [] [])).symm
    have hfree' : ∀ p ∈ texts ++ [[]], '\n' ∉ p := by
      simp only [List.forall_mem_append, List.forall_mem_singleton]
      exact ⟨hfree, List.not_mem_nil⟩
    rw [hjoined, textLines_joined (by simp) hfree', List.getLast?_concat, if_pos rfl,
      List.dropLast_concat]

/-! ## The first lines -/

/-- Bytes up to the end of their line `n`, without the line feed that may follow. -/
def firstLines (bytes : List UInt8) (n : Nat) : List UInt8 := joined 10 ((pieces 10 bytes).take n)

/-- Bytes begin with their first lines, and a line feed is between them and all others. -/
theorem eq_firstLines_or_append (bytes : List UInt8) {n : Nat} (hn : n ≠ 0) :
    bytes = firstLines bytes n ∨ ∃ rest, bytes = firstLines bytes n ++ 10 :: rest := by
  have htake : (pieces 10 bytes).take n ≠ [] := by
    simp [List.take_eq_nil_iff, hn, pieces_ne_nil]
  have hsplit : bytes = joined 10 ((pieces 10 bytes).take n ++ (pieces 10 bytes).drop n) := by
    rw [List.take_append_drop, joined_pieces]
  by_cases hdrop : (pieces 10 bytes).drop n = []
  · rw [hdrop, List.append_nil] at hsplit
    exact .inl hsplit
  · rw [joined_append htake hdrop] at hsplit
    exact .inr ⟨_, hsplit⟩

/-- What comes behind the first lines has its own lines. -/
theorem lines_firstLines_append {bytes : List UInt8} {n : Nat} (hn : n ≠ 0)
    (hlength : n ≤ (ofBytes bytes).lines.length) (other : List UInt8) :
    (ofBytes (firstLines bytes n ++ 10 :: other)).lines =
      (ofBytes bytes).lines.take n ++ (ofBytes other).lines := by
  rw [firstLines]
  have hfree : ∀ p ∈ pieces 10 bytes, 10 ∉ p := fun p hp => sep_not_mem_of_mem_pieces 10 hp
  have hbytes : bytes = joined 10 (pieces 10 bytes) := (joined_pieces 10 bytes).symm
  generalize pieces 10 bytes = ps at hfree hbytes ⊢
  subst hbytes
  induction ps generalizing n with
  | nil => exact absurd (Nat.le_zero.mp hlength) hn
  | cons p ps ih =>
    obtain ⟨n, rfl⟩ := Nat.exists_eq_succ_of_ne_zero hn
    rw [List.forall_mem_cons] at hfree
    cases ps with
    | nil =>
      -- the last line is only there if it is not empty
      rw [joined, lines_of_not_mem hfree.1] at hlength ⊢
      split at hlength
      · simp at hlength
      · rw [if_neg ‹_›]
        simp [joined, lines_append hfree.1]
    | cons q ps =>
      rw [joined, lines_append hfree.1] at hlength ⊢
      rw [List.take_succ_cons, List.take_succ_cons]
      cases n with
      | zero =>
        rw [List.take_zero, joined, lines_append hfree.1, List.take_zero, List.cons_append,
          List.nil_append]
      | succ n =>
        rw [List.take_succ_cons, joined, ← List.take_succ_cons, List.append_assoc,
          List.cons_append, lines_append hfree.1,
          ih (Nat.succ_ne_zero n) hfree.2 (Nat.le_of_succ_le_succ hlength), List.cons_append]

end Feed

end Delegation
