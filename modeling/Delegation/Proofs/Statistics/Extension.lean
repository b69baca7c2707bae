import Delegation.Proofs.Statistics.Layout
import Delegation.Proofs.Statistics.Writing

/-!
# Further columns of a record

Extended files have more than the seven columns of a record in its line.  Reading a record ignores
them (`readRecord?_withColumns`), but a line is told to be a summary by its end, before it is cut
into columns.  So one word in the last column turns the line of a record into a summary
(`isSummary_withColumns_concat`), which it has too many columns for.

Main result: `further_columns`.  Whatever columns the line of a record gets in a file that is read,
the same file is read again unless the last column is that word, and then reading fails at this
line.
-/

namespace Delegation.Statistics

open Sequence Text

/-! ## Lines with further columns -/

/-- A line of seven columns that is read as a record, or as system numbers. -/
def IsRecordLine (line : List Char) : Prop :=
  (columns line).length = 7 ∧ ∃ r?, readRecord? line = .ok r?

/-- A line with more columns behind its own. -/
def withColumns (line : List Char) (more : List (List Char)) : List Char :=
  line ++ more.flatMap ('|' :: ·)

section Columns

variable {line last : List Char} {more : List (List Char)}

lemma withColumns_concat :
    withColumns line (more ++ [last]) = withColumns line more ++ '|' :: last := by
  simp [withColumns]

lemma columns_withColumns (hmore : ∀ column ∈ more, '|' ∉ column) :
    columns (withColumns line more) = columns line ++ more := by
  induction more using List.reverseRecOn with
  | nil => simp [withColumns]
  | append_singleton more column ih =>
    rw [List.forall_mem_append, List.forall_mem_singleton] at hmore
    rw [columns] at ih ⊢
    rw [withColumns_concat, pieces_append, pieces_of_not_mem '|' hmore.2, ih hmore.1,
      List.append_assoc]

/-- A record is read from the first columns of its line. -/
lemma readRecord?_withColumns {r? : Option Record} (h : readRecord? line = .ok r?)
    (hmore : ∀ column ∈ more, '|' ∉ column) : readRecord? (withColumns line more) = .ok r? := by
  obtain ⟨registry, status, c, type, country, first, value, date, others, hcolumns, hread⟩ :=
    readRecord?_eq_ok_iff.mp h
  refine readRecord?_eq_ok_iff.mpr
    ⟨registry, status, c, type, country, first, value, date, others ++ more, ?_, hread⟩
  rw [columns_withColumns hmore, hcolumns]
  rfl

/-- One word in the last column makes a line a summary, and no other does. -/
lemma isSummary_withColumns_concat (hcolumns : ∀ column ∈ more ++ [last], '|' ∉ column) :
    isSummary (withColumns line (more ++ [last])) = true ↔ last = "summary".toList := by
  rw [isSummary_iff, columns_withColumns hcolumns, ← List.append_assoc]
  constructor
  · rintro ⟨before, -, h⟩
    exact List.singleton_inj.mp (List.append_inj' h rfl).2
  · rintro rfl
    exact ⟨_, List.append_ne_nil_of_left_ne_nil (pieces_ne_nil '|' line) _, rfl⟩

end Columns

/-! ## The line of a record -/

/-- No registry is the number of a version. -/
lemma isSupported_registry (r : Registry) : isSupported r.name.toList = false := by
  cases r <;> rfl

namespace IsRecordLine

variable {line last : List Char} {more : List (List Char)}

lemma exists_columns (h : IsRecordLine line) :
    ∃ (registry : Registry) (type : ResourceType) (status : Status),
      ∃ country first value date, columns line =
        [registry.name.toList, country, type.name.toList, first, value, date,
          status.name.toList] := by
  obtain ⟨hlength, r?, hr⟩ := h
  obtain ⟨registry, status, -, type, country, first, value, date, more, hcolumns, -⟩ :=
    readRecord?_eq_ok_iff.mp hr
  obtain rfl : more = [] := by simpa [hcolumns] using hlength
  exact ⟨registry, type, status, country, first, value, date, hcolumns⟩

/-- The line is between the names of a registry and of a status. -/
lemma exists_eq_recordLine (h : IsRecordLine line) :
    ∃ registry country type first value date status,
      line = recordLine registry country type first value date status := by
  obtain ⟨registry, type, status, country, first, value, date, hcolumns⟩ := h.exists_columns
  exact ⟨registry, country, type.name, first, value, date, status, by
    rw [recordLine, ← hcolumns, columns, joined_pieces]⟩

lemma significantText?_eq (h : IsRecordLine line) : significantText? line = some line := by
  obtain ⟨registry, country, type, first, value, date, status, rfl⟩ := h.exists_eq_recordLine
  exact significantText?_recordLine

/-- The line of a record is no version line. -/
lemma header_read_ne_ok (h : IsRecordLine line) (header : Header) :
    Header.read line ≠ .ok header := by
  obtain ⟨registry, type, status, country, first, value, date, hcolumns⟩ := h.exists_columns
  rw [Header.read, hcolumns]
  simp [isSupported_registry]

lemma exists_head? (h : IsRecordLine line) :
    ∃ c, line.head? = some c ∧ isBlank c = false ∧ c ≠ '#' := by
  obtain ⟨registry, country, type, first, value, date, status, rfl⟩ := h.exists_eq_recordLine
  rw [head?_recordLine]
  exact exists_head?_registry registry

/-- Of a line with further columns nothing but blanks in the last column is trimmed away. -/
lemma significantText?_withColumns (h : IsRecordLine line) :
    significantText? (withColumns line (more ++ [last])) =
      some (withColumns line (more ++ [trimEnd last])) := by
  obtain ⟨c, hc, hblank, hcomment⟩ := h.exists_head?
  have hhead : ∀ columns, (withColumns line columns).head? = some c := by
    intro columns
    rw [withColumns, List.head?_append, hc]
    rfl
  have htrim : trim (withColumns line (more ++ [last])) =
      withColumns line (more ++ [trimEnd last]) := by
    rw [withColumns_concat, withColumns_concat]
    refine trim_append_cons ?_ (by decide) last
    rw [hhead]
    rintro _ ⟨rfl⟩
    exact hblank
  have hnil : withColumns line (more ++ [trimEnd last]) ≠ [] := by
    rw [withColumns_concat]
    simp
  rw [significantText?, htrim, hhead]
  exact if_neg (by simp [hnil, hcomment])

/-- Further columns are ignored unless the last of them makes the line a summary. -/
lemma item_read_withColumns (h : IsRecordLine line)
    (hcolumns : ∀ column ∈ more ++ [last], '|' ∉ column) :
    Item.read (withColumns line (more ++ [last])) =
      if last = "summary".toList then
        .error (.malformedSummary (String.ofList (withColumns line (more ++ [last]))))
      else Item.read line := by
  rw [Item.read]
  split
  · next hsummary =>
    have hlength : (columns (withColumns line (more ++ [last]))).length ≠ 6 := by
      rw [columns_withColumns hcolumns, List.length_append, h.1]
      omega
    rw [if_pos ((isSummary_withColumns_concat hcolumns).mp hsummary),
      Summary.read_of_length_ne hlength]
    rfl
  · next hsummary =>
    have hline : isSummary line = false := by
      obtain ⟨registry, type, status, country, first, value, date, hline⟩ := h.exists_columns
      exact isSummary_eq_false (by rw [hline]; rfl) (status_ne_summary status)
    obtain ⟨r?, hr⟩ := h.2
    rw [if_neg (mt (isSummary_withColumns_concat hcolumns).mpr hsummary), Item.read, hline, hr,
      readRecord?_withColumns hr hcolumns]
    rfl

end IsRecordLine

/-! ## A file with such a line -/

/-- In lines that are read, all lines in front of another one are accepted. -/
lemma allAccepted_of_ofLines {before after : List Feed.Line} {line : Feed.Line} {file : File}
    (hfile : File.ofLines (before ++ line :: after) = .ok file) :
    AllAccepted before ∧ Accepted before line := by
  rw [ofLines_eq_read] at hfile
  obtain ⟨p, hp, -⟩ := bind_eq_ok_iff.mp hfile
  have hall := exists_read_eq_ok_iff.mp ⟨p, hp⟩
  refine ⟨fun before' line' after' hbefore => ?_, hall before line after rfl⟩
  exact hall before' line' (after' ++ line :: after) (by simp [hbefore])

/-- If an item is replaced by a line with a flaw, this line is the first to be rejected. -/
lemma firstRejected_of_replaced {before after after' : List Feed.Line}
    {line line' text text' : List Char} {flaw : LineFlaw} {file : File}
    (hfile : File.ofLines (before ++ .ok line :: after) = .ok file)
    (htext : significantText? line = some text) (hitem : ∀ header, Header.read text ≠ .ok header)
    (htext' : significantText? line' = some text') (hflaw : Item.read text' = .error flaw) :
    FirstRejected (before ++ .ok line' :: after') (before.length + 1) flaw := by
  obtain ⟨hbefore, s, hs, hcheck⟩ := allAccepted_of_ofLines hfile
  obtain rfl := Except.ok.inj hs
  have hcheck := hcheck text htext
  have hversion : significantTexts before ≠ [] := by
    intro hnone
    rw [checkText, if_pos hnone] at hcheck
    obtain ⟨header, hheader, -⟩ := map_eq_ok_iff.mp hcheck
    exact hitem header hheader
  refine ⟨before, _, after', rfl, rfl, hbefore, line', text', rfl, htext', ?_⟩
  rw [checkText, if_neg hversion, hflaw]
  rfl

section Replaced

variable {content content' : String} {before after after' : List (List Char)}
  {line line' text text' : List Char} {file : File}

/-- Texts that are read as the same item can be put for each other, since neither is the version
line. -/
lemma ofText_of_replaced (hfile : File.ofText content = .ok file)
    (htexts : textsIn content.toList = before ++ text :: after)
    (htexts' : textsIn content'.toList = before ++ text' :: after)
    (hitem : ∀ header, Header.read text ≠ .ok header) (hread : Item.read text' = Item.read text) :
    File.ofText content' = .ok file := by
  obtain ⟨version, rest, header, items, hsplit, hversion, hrest, rfl⟩ := ofText_eq_ok_iff.mp hfile
  rw [htexts] at hsplit
  cases before with
  | nil =>
    obtain ⟨rfl, -⟩ := List.cons.inj hsplit
    exact absurd hversion (hitem header)
  | cons version' before =>
    rw [List.cons_append] at hsplit htexts'
    obtain ⟨rfl, rfl⟩ := List.cons.inj hsplit
    refine ofText_eq_ok_iff.mpr ⟨_, _, header, items, htexts', hversion, ?_, rfl⟩
    rw [List.mapM_append, List.mapM_cons] at hrest ⊢
    rw [hread]
    exact hrest

/-- If an item is replaced by a text with a flaw, it is the first to be rejected, at its line. -/
lemma ofText_of_flaw {flaw : LineFlaw} (hfile : File.ofText content = .ok file)
    (hlines : pieces '\n' content.toList = before ++ line :: after)
    (hlines' : pieces '\n' content'.toList = before ++ line' :: after')
    (htext : significantText? line = some text) (hitem : ∀ header, Header.read text ≠ .ok header)
    (htext' : significantText? line' = some text') (hflaw : Item.read text' = .error flaw) :
    File.ofText content' = .error (.parse (before.length + 1) flaw.text) := by
  have hne : ∀ {line text}, significantText? line = some text → line ≠ [] := by
    rintro _ _ h rfl
    cases h
  obtain ⟨rest, hrest⟩ := Feed.exists_textLines_eq hlines (hne htext)
  obtain ⟨rest', hrest'⟩ := Feed.exists_textLines_eq hlines' (hne htext')
  rw [ofText_eq_ofLines, hrest, List.map_append, List.map_cons] at hfile
  rw [ofText_eq_ofLines, hrest', List.map_append, List.map_cons,
    ofLines_eq_parse_iff (Nat.succ_ne_zero _), ← List.length_map (f := Except.ok)]
  exact ⟨flaw, rfl, firstRejected_of_replaced hfile htext hitem htext' hflaw⟩

end Replaced

section Content

variable {content : String} {before after : List (List Char)} {front line back last : List Char}
  {more : List (List Char)} {file : File}

lemma textsIn_of_line {text : List Char}
    (hlines : pieces '\n' content.toList = before ++ line :: after)
    (htext : significantText? line = some text) :
    textsIn content.toList =
      before.filterMap significantText? ++ text :: after.filterMap significantText? := by
  rw [textsIn, hlines, List.filterMap_append, List.filterMap_cons_some htext]

lemma lineFeed_not_mem_withColumns (hline : '\n' ∉ front ++ line ++ back)
    (hmore : ∀ column ∈ more, '\n' ∉ column) : '\n' ∉ front ++ withColumns line more ++ back := by
  simp only [List.mem_append, not_or] at hline
  simp only [withColumns, List.mem_append, List.mem_flatMap, List.mem_cons, not_or, not_exists,
    not_and]
  exact ⟨⟨hline.1.1, hline.1.2, fun column hcolumn => ⟨by decide, hmore column hcolumn⟩⟩, hline.2⟩

/-- The line of a record in a file may get more columns, and nothing but the record is read from
it, unless the last column makes it a summary. -/
theorem further_columns (hfile : File.ofText content = .ok file)
    (hlines : pieces '\n' content.toList = before ++ (front ++ line ++ back) :: after)
    (hblank : ∀ c ∈ front ++ back, isBlank c = true) (hline : IsRecordLine line)
    (hcolumns : ∀ column ∈ more ++ [last], IsColumn column) :
    File.ofText (String.ofList (joined '\n'
        (before ++ (front ++ withColumns line (more ++ [last]) ++ back) :: after))) =
      if trimEnd last = "summary".toList then
        .error (.parse (before.length + 1) (LineFlaw.malformedSummary
          (String.ofList (withColumns line (more ++ [trimEnd last])))).text)
      else .ok file := by
  have hmem : front ++ line ++ back ∈ pieces '\n' content.toList := by
    rw [hlines]
    simp
  have hlines' := pieces_joined_of_replaced hlines <|
    lineFeed_not_mem_withColumns (sep_not_mem_of_mem_pieces '\n' hmem)
      fun column hcolumn => (hcolumns column hcolumn).2
  rw [← String.toList_ofList (l := joined _ _)] at hlines'
  have htext : significantText? (front ++ line ++ back) = some line := by
    rw [significantText?_padded hblank, hline.significantText?_eq]
  have htext' : significantText? (front ++ withColumns line (more ++ [last]) ++ back) =
      some (withColumns line (more ++ [trimEnd last])) := by
    rw [significantText?_padded hblank, hline.significantText?_withColumns]
  have htrimmed : ∀ column ∈ more ++ [trimEnd last], '|' ∉ column := by
    rw [List.forall_mem_append, List.forall_mem_singleton] at hcolumns ⊢
    refine ⟨fun column hcolumn => (hcolumns.1 column hcolumn).1, fun hmem => hcolumns.2.1 ?_⟩
    exact (List.rdropWhile_prefix _ _).mem hmem
  have hitem := hline.item_read_withColumns htrimmed
  split
  · next hsummary =>
    rw [if_pos hsummary] at hitem
    exact ofText_of_flaw hfile hlines hlines' htext hline.header_read_ne_ok htext' hitem
  · next hsummary =>
    rw [if_neg hsummary] at hitem
    exact ofText_of_replaced hfile (textsIn_of_line hlines htext) (textsIn_of_line hlines' htext')
      hline.header_read_ne_ok hitem

end Content

/-- A version line. -/
def versionLine : List Char := "2|apnic|1|1|1|1|+0000".toList

/-- A record of seven columns. -/
def sevenColumns : List Char := "apnic|CN|ipv4|1.0.16.0|4096|20110412|allocated".toList

/-- The content of both lines. -/
def recordContent : String :=
  "2|apnic|1|1|1|1|+0000\napnic|CN|ipv4|1.0.16.0|4096|20110412|allocated\n"

/-- What is read from it. -/
def recordFile : File :=
  ⟨⟨"2", .apnic, "1", 1, "1", "1", "+0000"⟩, [],
    [⟨.apnic, ⟨'C', 'N', rfl, rfl⟩, .ipv4, 2 ^ 24 + 2 ^ 12, .count 4096, .allocated⟩], 0⟩

lemma pieces_recordContent :
    pieces '\n' recordContent.toList = [versionLine, sevenColumns, []] := by cbv

lemma ofText_recordContent : File.ofText recordContent = .ok recordFile := by
  refine ofText_eq_ok_iff.mpr ⟨versionLine, [sevenColumns], _, _, by cbv, by cbv, by rfl, ?_⟩
  rfl

lemma isRecordLine_sevenColumns : IsRecordLine sevenColumns := ⟨by cbv, _, by rfl⟩

theorem further_columns_opaque :
    File.ofText (String.ofList (joined '\n'
      [versionLine, withColumns sevenColumns ["A92D9378".toList, "e-stats".toList], []])) =
        .ok recordFile := by
  have hlines : pieces '\n' recordContent.toList =
      [versionLine] ++ ([] ++ sevenColumns ++ []) :: [[]] := pieces_recordContent
  have hcolumns : ∀ column ∈ ["A92D9378".toList] ++ ["e-stats".toList], IsColumn column := by
    simp [IsColumn]
  have h := further_columns ofText_recordContent hlines (by simp) isRecordLine_sevenColumns hcolumns
  rwa [if_neg (by decide)] at h

/-- A column that is not ignored. -/
theorem further_columns_summary :
    IsRecordLine sevenColumns ∧ IsColumn "summary".toList ∧
      File.ofText recordContent = .ok recordFile ∧
      File.ofText
          "2|apnic|1|1|1|1|+0000\napnic|CN|ipv4|1.0.16.0|4096|20110412|allocated|summary\n" =
        .error (.parse 2 (LineFlaw.malformedSummary
          "apnic|CN|ipv4|1.0.16.0|4096|20110412|allocated|summary").text) := by
  have hlines : pieces '\n' recordContent.toList = [versionLine] ++ sevenColumns :: [[]] :=
    pieces_recordContent
  have hlines' : pieces '\n'
      "2|apnic|1|1|1|1|+0000\napnic|CN|ipv4|1.0.16.0|4096|20110412|allocated|summary\n".toList =
        [versionLine] ++ withColumns sevenColumns ["summary".toList] :: [[]] := by cbv
  have htext : significantText? (withColumns sevenColumns ["summary".toList]) =
      some (withColumns sevenColumns ["summary".toList]) := by cbv
  have hflaw : Item.read (withColumns sevenColumns ["summary".toList]) = .error (.malformedSummary
      "apnic|CN|ipv4|1.0.16.0|4096|20110412|allocated|summary") := by cbv
  have hrecord := isRecordLine_sevenColumns
  have hfault := ofText_of_flaw ofText_recordContent hlines hlines' hrecord.significantText?_eq
    hrecord.header_read_ne_ok htext hflaw
  exact ⟨hrecord, ⟨by decide, by decide⟩, ofText_recordContent, hfault⟩

end Delegation.Statistics
