import Delegation.Proofs.Statistics.Progress
import Delegation.Proofs.Storage.Lines
import Delegation.Proofs.Text.Blank

/-!
# The layout of a file

A content is read by the texts in it: its lines without the blanks around them, and without the
lines that are blank or comments (`textsIn`).  Contents with the same texts hold the same file, or
neither is a file and the faults are the same but for the numbers of the lines
(`sameButLine_of_textsIn_eq`).  Where the texts stand shows in these numbers only.

Putting in comments and blank lines, blanks around lines, carriage returns at their ends or a line
feed at the end of a content leaves the texts as they are (`Relayout.textsIn_eq`).

Main result: `layout_does_not_matter`.
-/

namespace Delegation.Statistics

open Text

/-! ## Texts in a content -/

/-- The texts in a content that count: its lines without the blanks around them, but neither blank
lines nor comments. -/
def textsIn (content : List Char) : List (List Char) :=
  (pieces '\n' content).filterMap significantText?

lemma filterMap_textLines (content : List Char) :
    (Feed.textLines content).filterMap significantText? = textsIn content := by
  rw [Feed.textLines, textsIn]
  split
  · next hlast =>
    -- an empty piece at the end would not count
    obtain ⟨before, hparts⟩ := List.getLast?_eq_some_iff.mp hlast
    rw [hparts, List.dropLast_concat, List.filterMap_append]
    simp [significantText?]
  · rfl

/-- The texts in joined contents are those in each of them. -/
lemma textsIn_joined (contents : List (List Char)) :
    textsIn (joined '\n' contents) = contents.flatMap textsIn := by
  induction contents with
  | nil => rfl
  | cons content contents ih =>
    cases contents with
    | nil => simp [joined]
    | cons other contents =>
      rw [joined, textsIn, pieces_append, List.filterMap_append, List.flatMap_cons, ← ih]
      rfl

lemma textsIn_of_not_mem {line : List Char} (h : '\n' ∉ line) :
    textsIn line = (significantText? line).toList := by
  rw [textsIn, pieces_of_not_mem '\n' h]
  cases hline : significantText? line <;> simp [hline]

/-- Blanks around a line do not count. -/
lemma significantText?_padded {front back : List Char}
    (hblank : ∀ c ∈ front ++ back, isBlank c = true) (line : List Char) :
    significantText? (front ++ line ++ back) = significantText? line := by
  rw [List.forall_mem_append] at hblank
  rw [significantText?, significantText?, trim_padded hblank.1 hblank.2]

lemma ofText_eq_ofLines (s : String) :
    File.ofText s = File.ofLines ((Feed.textLines s.toList).map .ok) := by
  rw [File.ofText, encodeUtf8_eq, File.ofBytes, File.ofFeed, Feed.lines_utf8]

/-- A content is read if and only if the first of its texts is a version line and the others are
items. -/
theorem ofText_eq_ok_iff {s : String} {file : File} :
    File.ofText s = .ok file ↔
      ∃ version rest header items, textsIn s.toList = version :: rest ∧
        Header.read version = .ok header ∧ rest.mapM Item.read = .ok items ∧
        file = File.ofItems header items := by
  rw [ofText_eq_ofLines, ofLines_eq_ok_iff, significantTexts_map_ok, filterMap_textLines]
  exact and_iff_right (by simp)

/-! ## The same results but for the line -/

/-- Both results are the same, or both are faults that differ in the number of the line at most. -/
inductive SameButLine {α : Type} : Except Fault α → Except Fault α → Prop where
  | ok (a : α) : SameButLine (.ok a) (.ok a)
  | parse (m n : Nat) (detail : String) :
      SameButLine (.error (.parse m detail)) (.error (.parse n detail))

namespace SameButLine

variable {α β : Type} {x y : Except Fault α} {f g : α → Except Fault β}

lemma eq_ok {a : α} (h : SameButLine (.ok a) y) : y = .ok a := by
  cases h
  rfl

lemma bind (h : SameButLine x y) (hfg : ∀ a, SameButLine (f a) (g a)) :
    SameButLine (x >>= f) (y >>= g) := by
  cases h with
  | ok a => exact hfg a
  | parse m n detail => exact .parse m n detail

end SameButLine

/-- A numbered line holds a text. -/
def NumberedLine.Holds (text : List Char) (l : NumberedLine) : Prop := l.line = .ok text

section Lines

variable {α : Type} {reader : List Char → Except LineFlaw α} {text : List Char}
  {texts : List (List Char)} {l l' : NumberedLine} {ls ls' : List NumberedLine}

/-- A text is read alike at all lines. -/
lemma sameButLine_read (h : l.Holds text) (h' : l'.Holds text) :
    SameButLine (l.read reader) (l'.read reader) := by
  rw [NumberedLine.Holds] at h h'
  rw [NumberedLine.read, NumberedLine.read, h, h']
  simp only
  cases reader text with
  | ok a => exact .ok a
  | error flaw => exact .parse _ _ _

/-- Texts are read alike, whichever lines they stand in. -/
lemma sameButLine_mapM_read (h : List.Forall₂ NumberedLine.Holds texts ls)
    (h' : List.Forall₂ NumberedLine.Holds texts ls') :
    SameButLine (ls.mapM (NumberedLine.read reader)) (ls'.mapM (NumberedLine.read reader)) := by
  induction h generalizing ls' with
  | nil =>
    cases h'
    exact .ok []
  | cons hl _ ih =>
    cases h' with
    | cons hl' hls' =>
      rw [List.mapM_cons, List.mapM_cons]
      exact (sameButLine_read hl hl').bind fun a => (ih hls').bind fun as => .ok (a :: as)

end Lines

/-- The lines of texts that are not skipped hold the texts that count, in their order. -/
lemma forall₂_holds_significantLines (lines : List (List Char)) :
    List.Forall₂ NumberedLine.Holds (lines.filterMap significantText?)
      (significantLines (lines.map .ok)) := by
  rw [significantLines]
  generalize 1 = n
  induction lines generalizing n with
  | nil => exact .nil
  | cons line lines ih =>
    rw [List.map_cons, List.zipIdx_cons]
    cases hline : significantText? line with
    | none =>
      rw [List.filterMap_cons_none hline, List.filterMap_cons_none (by simp [significant?, hline])]
      exact ih (n + 1)
    | some text =>
      rw [List.filterMap_cons_some hline,
        List.filterMap_cons_some (b := ⟨n, .ok text⟩) (by simp [significant?, hline])]
      exact .cons rfl (ih (n + 1))

/-- Files are read alike from lines with the same texts. -/
lemma sameButLine_ofLines {lines lines' : List (List Char)}
    (h : lines.filterMap significantText? = lines'.filterMap significantText?) :
    SameButLine (File.ofLines (lines.map .ok)) (File.ofLines (lines'.map .ok)) := by
  have hls := forall₂_holds_significantLines lines
  have hls' := forall₂_holds_significantLines lines'
  rw [h] at hls
  rw [File.ofLines, File.ofLines]
  generalize lines'.filterMap significantText? = texts at hls hls'
  generalize significantLines (lines.map .ok) = ls at hls ⊢
  generalize significantLines (lines'.map .ok) = ls' at hls' ⊢
  cases hls with
  | nil =>
    cases hls'
    exact .parse 0 0 _
  | cons hfirst hrest =>
    cases hls' with
    | cons hfirst' hrest' =>
      exact (sameButLine_read hfirst hfirst').bind fun header =>
        (sameButLine_mapM_read hrest hrest').bind fun items => .ok _

/-- Contents with the same texts are read alike. -/
theorem sameButLine_of_textsIn_eq {s t : String} (h : textsIn s.toList = textsIn t.toList) :
    SameButLine (File.ofText s) (File.ofText t) := by
  rw [← filterMap_textLines, ← filterMap_textLines] at h
  rw [ofText_eq_ofLines, ofText_eq_ofLines]
  exact sameButLine_ofLines h

/-! ## Changes of the layout -/

/-- A line with blanks put around it. -/
def Padded (line padded : List Char) : Prop :=
  '\n' ∉ line ∧ ∃ front back, padded = front ++ line ++ back ∧
    ∀ c ∈ front ++ back, isBlank c = true ∧ c ≠ '\n'

/-- A content and the same with another layout. -/
inductive Relayout : List Char → List Char → Prop where
  /-- A blank line or a comment is put between other lines. -/
  | skipped {before after : List (List Char)} {line : List Char} (hline : '\n' ∉ line)
      (hskipped : trim line = [] ∨ (trim line).head? = some '#') :
      Relayout (joined '\n' (before ++ after)) (joined '\n' (before ++ line :: after))
  /-- Lines are indented, or get carriage returns or other blanks at their ends. -/
  | padded {lines lines' : List (List Char)} (hlines : List.Forall₂ Padded lines lines') :
      Relayout (joined '\n' lines) (joined '\n' lines')
  /-- The last line is ended by a line feed. -/
  | ended (content : List Char) : Relayout content (content ++ ['\n'])

lemma Padded.textsIn_eq {line padded : List Char} (h : Padded line padded) :
    textsIn line = textsIn padded := by
  obtain ⟨hline, front, back, rfl, hblank⟩ := h
  have hpadded : '\n' ∉ front ++ line ++ back := by
    rw [List.forall_mem_append] at hblank
    simp only [List.mem_append, not_or]
    exact ⟨⟨fun hmem => (hblank.1 _ hmem).2 rfl, hline⟩, fun hmem => (hblank.2 _ hmem).2 rfl⟩
  rw [textsIn_of_not_mem hline, textsIn_of_not_mem hpadded,
    significantText?_padded fun c hc => (hblank c hc).1]

/-- A change of the layout leaves the texts as they are. -/
theorem Relayout.textsIn_eq {s t : List Char} (h : Relayout s t) : textsIn s = textsIn t := by
  cases h with
  | @skipped before after line hline hskipped =>
    have hnone : textsIn line = [] := by
      rw [textsIn_of_not_mem hline, significantText?]
      simp only [if_pos hskipped, Option.toList_none]
    rw [textsIn_joined, textsIn_joined, List.flatMap_append, List.flatMap_append,
      List.flatMap_cons, hnone, List.nil_append]
  | padded hlines =>
    rw [textsIn_joined, textsIn_joined]
    induction hlines with
    | nil => rfl
    | cons hline _ ih => rw [List.flatMap_cons, List.flatMap_cons, hline.textsIn_eq, ih]
  | ended =>
    have hjoined : s ++ ['\n'] = joined '\n' [s, []] := rfl
    rw [hjoined, textsIn_joined]
    simp [textsIn_of_not_mem, significantText?]

/-- So do any number of changes, forth and back. -/
lemma textsIn_eq_of_relayouts {s t : List Char} (h : Relation.EqvGen Relayout s t) :
    textsIn s = textsIn t := by
  induction h with
  | rel s t hst => exact hst.textsIn_eq
  | refl s => rfl
  | symm s t _ ih => exact ih.symm
  | trans s t u _ _ ih ih' => exact ih.trans ih'

/-- Contents with the same texts hold the same file, or the same fault makes both of them none and
only its line may differ; in particular, if changes of the layout lead from the one to the
other. -/
theorem layout_does_not_matter (s t : String) :
    (textsIn s.toList = textsIn t.toList → SameButLine (File.ofText s) (File.ofText t)) ∧
      (Relation.EqvGen Relayout s.toList t.toList →
        SameButLine (File.ofText s) (File.ofText t)) :=
  ⟨sameButLine_of_textsIn_eq, fun h => sameButLine_of_textsIn_eq (textsIn_eq_of_relayouts h)⟩

/-- A version line and a record that is cut off. -/
def plainContent : String := "2|apnic|1|1|1|1|+0000\napnic|JP|ipv4|1.0.0.0\n"

/-- The same behind a comment, with blanks around the lines and no line feed at the end. -/
def dressedContent : String :=
  "# statistics\r\n \t2|apnic|1|1|1|1|+0000\r\n\r\n  # none\n\tapnic|JP|ipv4|1.0.0.0\r"

/-- A file of one record without a line feed at its end. -/
def terseContent : String := "2|apnic|1|1|1|1|+1000\napnic||ipv4|1.0.16.0|4096||available"

/-- The same with a comment in front of the record and a line feed at the end. -/
def commentedContent : String :=
  "2|apnic|1|1|1|1|+1000\n# blocks\napnic||ipv4|1.0.16.0|4096||available\n"

/-- What is read from both of them. -/
def terseFile : File :=
  ⟨⟨"2", .apnic, "1", 1, "1", "1", "+1000"⟩, [],
    [⟨.apnic, .unknown, .ipv4, 0x01001000, .count 4096, .available⟩], 0⟩

lemma ofText_terseContent : File.ofText terseContent = .ok terseFile := by
  refine ofText_eq_ok_iff.mpr ⟨"2|apnic|1|1|1|1|+1000".toList,
    ["apnic||ipv4|1.0.16.0|4096||available".toList], _, _, by cbv, by cbv, by rfl, ?_⟩
  rfl

lemma relayouts_commentedContent :
    Relation.EqvGen Relayout terseContent.toList commentedContent.toList := by
  have hcomment := @Relayout.skipped ["2|apnic|1|1|1|1|+1000".toList]
    ["apnic||ipv4|1.0.16.0|4096||available".toList] "# blocks".toList (by decide) (.inr (by cbv))
  exact .trans _ _ _ (.rel _ _ hcomment) (.rel _ _ (.ended _))

/-- The record of the former two contents is cut off, and the latter two hold the same file. -/
theorem layout_does_not_matter_dressed :
    textsIn plainContent.toList = textsIn dressedContent.toList ∧
      SameButLine (File.ofText plainContent) (File.ofText dressedContent) ∧
      Relation.EqvGen Relayout terseContent.toList commentedContent.toList ∧
      File.ofText terseContent = .ok terseFile ∧
      File.ofText commentedContent = .ok terseFile := by
  have htexts : textsIn plainContent.toList = textsIn dressedContent.toList := by cbv
  have hsame := (layout_does_not_matter terseContent commentedContent).2 relayouts_commentedContent
  rw [ofText_terseContent] at hsame
  exact ⟨htexts, (layout_does_not_matter plainContent dressedContent).1 htexts,
    relayouts_commentedContent, ofText_terseContent, hsame.eq_ok⟩

end Delegation.Statistics
