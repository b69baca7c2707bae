import Delegation.Statistics.File
import Delegation.Proofs.Sequence
import Mathlib.Data.List.Induction

/-!
# Reading a file line by line

A statistics file is read by skipping some lines and cutting what is left into the version line
and the others.  Here the same is done in one pass over all lines: `Progress` is what has been
read so far, and `Progress.readLine` reads one more line, as the version line if there is none
yet and as an item otherwise.  The two ways of reading agree (`ofLines_eq_read`).

The pass makes it plain what is known in front of every line: the lines before it could be read,
and `Progress` holds what they say (`read_eq_ok_iff`).  So a file is read if and only if its
lines are texts, the first of those that count is a version line and the others are items
(`ofLines_eq_ok_iff`), and otherwise the fault is the one of the first line that has any
(`read_eq_error_iff`).
-/

namespace Delegation.Statistics

open Sequence

/-- The texts of the lines that are not skipped. -/
def significantTexts (lines : List Feed.Line) : List (List Char) :=
  lines.filterMap fun line => line.toOption.bind significantText?

lemma significantTexts_map_ok (lines : List (List Char)) :
    significantTexts (lines.map .ok) = lines.filterMap significantText? := by
  rw [significantTexts, List.filterMap_map]
  rfl

/-- What has been read of a file. -/
structure Progress where
  header : Option Header
  items : List Item

namespace Progress

/-- Nothing has been read. -/
def start : Progress := ⟨none, []⟩

/-- Reads the text of a line that is not skipped. -/
def readText (p : Progress) (text : List Char) : Except LineFlaw Progress :=
  match p.header with
  | none => (Header.read text).map fun header => { p with header := some header }
  | some _ => (Item.read text).map fun item => { p with items := p.items ++ [item] }

/-- Reads one line, which comes with its number. -/
def readLine (p : Progress) (line : Feed.Line × Nat) : Except Fault Progress :=
  match significant? line.1 line.2 with
  | none => .ok p
  | some l => l.read p.readText

/-- Reads lines from the first to the last of them. -/
def read (lines : List Feed.Line) : Except Fault Progress :=
  (lines.zipIdx 1).foldlM readLine start

/-- The file that has been read. -/
def file (p : Progress) : Except Fault File :=
  match p.header with
  | none => .error (.parse 0 "missing version line")
  | some header => .ok (File.ofItems header p.items)

end Progress

/-! ## One pass reads the file -/

lemma NumberedLine.read_map {α β : Type} (l : NumberedLine)
    (reader : List Char → Except LineFlaw α) (g : α → β) :
    l.read (fun text => (reader text).map g) = (l.read reader).map g := by
  rw [NumberedLine.read, NumberedLine.read]
  cases l.line with
  | error problem => rfl
  | ok text => cases h : reader text <;> simp [h, Except.map]

namespace Progress

/-- Skipped lines change nothing. -/
lemma read_eq_foldlM (lines : List Feed.Line) :
    read lines = (significantLines lines).foldlM (fun p l => l.read p.readText) start := by
  rw [significantLines, List.foldlM_filterMap, read]
  congr 1
  funext p ⟨line, number⟩
  simp only [readLine]
  cases significant? line number <;> rfl

/-- Behind the version line the pass reads the items. -/
lemma foldlM_of_header (header : Header) (items : List Item) (lines : List NumberedLine) :
    lines.foldlM (fun p l => l.read p.readText) ⟨some header, items⟩ =
      (lines.mapM (NumberedLine.read Item.read)).map
        fun more => (⟨some header, items ++ more⟩ : Progress) := by
  induction lines generalizing items with
  | nil => simp [pure, Except.pure, Except.map]
  | cons l lines ih =>
    have hread : l.read (readText ⟨some header, items⟩) =
        (l.read Item.read).map fun item => (⟨some header, items ++ [item]⟩ : Progress) :=
      l.read_map Item.read _
    rw [List.foldlM_cons, hread]
    cases hitem : l.read Item.read with
    | error fault =>
      rw [mapM_cons_of_error lines hitem]
      rfl
    | ok item =>
      rw [mapM_cons_of_ok lines hitem]
      refine (ih (items ++ [item])).trans ?_
      cases lines.mapM (NumberedLine.read Item.read) <;> simp [Except.map]

end Progress

/-- A file is read in one pass over its lines. -/
theorem ofLines_eq_read (lines : List Feed.Line) :
    File.ofLines lines = Progress.read lines >>= Progress.file := by
  rw [File.ofLines, Progress.read_eq_foldlM]
  cases significantLines lines with
  | nil => rfl
  | cons first rest =>
    have hread : first.read (Progress.readText .start) =
        (first.read Header.read).map fun header => (⟨some header, []⟩ : Progress) :=
      first.read_map Header.read _
    rw [List.foldlM_cons, hread]
    simp only
    cases first.read Header.read with
    | error fault => rfl
    | ok header =>
      have hrest := Progress.foldlM_of_header header [] rest
      refine Eq.trans ?_ (congrArg (· >>= Progress.file) hrest.symm)
      cases rest.mapM (NumberedLine.read Item.read) <;> rfl

/-! ## What is known in front of a line -/

/-- What texts hold, the first of which is the version line. -/
inductive Holds : List (List Char) → Progress → Prop where
  | nothing : Holds [] .start
  | version {version : List Char} {rest : List (List Char)} {header : Header} {items : List Item}
      (hversion : Header.read version = .ok header) (hrest : rest.mapM Item.read = .ok items) :
      Holds (version :: rest) ⟨some header, items⟩

/-- Another text adds what it holds. -/
lemma holds_concat_iff {texts : List (List Char)} {text : List Char} {q : Progress} :
    Holds (texts ++ [text]) q ↔ ∃ p, Holds texts p ∧ p.readText text = .ok q := by
  constructor
  · intro h
    cases texts with
    | nil =>
      cases h with
      | version hversion hrest =>
        obtain rfl := Except.ok.inj hrest
        exact ⟨.start, .nothing, map_eq_ok_iff.mpr ⟨_, hversion, rfl⟩⟩
    | cons version rest =>
      cases h with
      | version hversion hrest =>
        obtain ⟨items, item, hitems, hitem, rfl⟩ := mapM_concat_eq_ok_iff.mp hrest
        exact ⟨_, .version hversion hitems, map_eq_ok_iff.mpr ⟨item, hitem, rfl⟩⟩
  · rintro ⟨p, hp, hq⟩
    cases hp with
    | nothing =>
      obtain ⟨header, hheader, rfl⟩ := map_eq_ok_iff.mp hq
      exact .version hheader rfl
    | @version version rest header items hversion hrest =>
      obtain ⟨item, hitem, rfl⟩ := map_eq_ok_iff.mp hq
      exact .version hversion (mapM_concat_eq_ok_iff.mpr ⟨items, item, hrest, hitem, rfl⟩)

namespace Progress

lemma read_append (lines more : List Feed.Line) :
    read (lines ++ more) =
      read lines >>= (more.zipIdx (lines.length + 1)).foldlM readLine := by
  rw [read, read, List.zipIdx_append, List.foldlM_append, Nat.add_comm]

/-- The pass over one more line. -/
lemma read_concat (lines : List Feed.Line) (line : Feed.Line) :
    read (lines ++ [line]) = read lines >>= fun p => p.readLine (line, lines.length + 1) := by
  rw [read_append]
  congr
  funext p
  exact bind_pure _

/-- A line that is a text is skipped, or what it says is added. -/
lemma readLine_ok (p : Progress) (s : List Char) (number : Nat) :
    p.readLine (.ok s, number) =
      match significantText? s with
      | none => .ok p
      | some text =>
        match p.readText text with
        | .ok q => .ok q
        | .error flaw => .error (.parse number flaw.text) := by
  rw [readLine, significant?]
  cases significantText? s with
  | none => rfl
  | some text => cases h : p.readText text <;> simp [NumberedLine.read, h]

/-- Nothing is known behind a line that is no text. -/
lemma readLine_error (p : Progress) (problem : StorageProblem) (number : Nat) :
    p.readLine (.error problem, number) = .error (.io problem.text) := rfl

lemma readLine_eq_ok_iff {p q : Progress} {line : Feed.Line} {number : Nat} :
    p.readLine (line, number) = .ok q ↔ ∃ s, line = .ok s ∧
      (significantText? s = none ∧ q = p ∨
        ∃ text, significantText? s = some text ∧ p.readText text = .ok q) := by
  cases line with
  | error problem => simp [readLine_error]
  | ok s =>
    rw [readLine_ok]
    cases htext : significantText? s with
    | none => simp [htext, eq_comm]
    | some text => cases hq : p.readText text <;> simp [htext, hq]

end Progress

lemma significantTexts_concat (lines : List Feed.Line) (s : List Char) :
    significantTexts (lines ++ [.ok s]) =
      significantTexts lines ++ (significantText? s).toList := by
  rw [significantTexts, List.filterMap_append]
  cases h : significantText? s <;> simp [significantTexts, h, Except.toOption]

/-- Lines have been read if and only if they are texts, and then what they say is known. -/
theorem read_eq_ok_iff {lines : List Feed.Line} {p : Progress} :
    Progress.read lines = .ok p ↔
      (∀ line ∈ lines, ∃ s, line = .ok s) ∧ Holds (significantTexts lines) p := by
  induction lines using List.reverseRecOn generalizing p with
  | nil =>
    constructor
    · intro h
      obtain rfl := Except.ok.inj h
      exact ⟨by simp, .nothing⟩
    · rintro ⟨-, h⟩
      cases h
      rfl
  | append_singleton lines line ih =>
    rw [Progress.read_concat, bind_eq_ok_iff]
    simp only [Progress.readLine_eq_ok_iff, ih, List.forall_mem_append, List.forall_mem_singleton]
    constructor
    · rintro ⟨q, ⟨hvalid, hq⟩, s, rfl, ⟨hnone, rfl⟩ | ⟨text, htext, hp⟩⟩
      · rw [significantTexts_concat, hnone]
        exact ⟨⟨hvalid, s, rfl⟩, by simpa using hq⟩
      · rw [significantTexts_concat, htext]
        exact ⟨⟨hvalid, s, rfl⟩, holds_concat_iff.mpr ⟨q, hq, hp⟩⟩
    · rintro ⟨⟨hvalid, s, rfl⟩, h⟩
      rw [significantTexts_concat] at h
      cases htext : significantText? s with
      | none =>
        rw [htext] at h
        exact ⟨p, ⟨hvalid, by simpa using h⟩, s, rfl, .inl ⟨htext, rfl⟩⟩
      | some text =>
        rw [htext] at h
        obtain ⟨q, hq, hp⟩ := holds_concat_iff.mp h
        exact ⟨q, ⟨hvalid, hq⟩, s, rfl, .inr ⟨text, htext, hp⟩⟩

/-- The fault is the one of the first line that has any. -/
theorem read_eq_error_iff {lines : List Feed.Line} {fault : Fault} :
    Progress.read lines = .error fault ↔
      ∃ before line after p, lines = before ++ line :: after ∧ Progress.read before = .ok p ∧
        p.readLine (line, before.length + 1) = .error fault := by
  constructor
  · intro h
    induction lines using List.reverseRecOn with
    | nil => cases h
    | append_singleton lines line ih =>
      rw [Progress.read_concat] at h
      cases hread : Progress.read lines with
      | error fault' =>
        rw [hread] at h
        obtain ⟨before, line', after, p, rfl, hp, hfault⟩ := ih (hread.trans h)
        exact ⟨before, line', after ++ [line], p, by simp, hp, hfault⟩
      | ok p =>
        rw [hread] at h
        exact ⟨lines, line, [], p, rfl, hread, h⟩
  · rintro ⟨before, line, after, p, rfl, hp, hfault⟩
    have hline : Progress.read (before ++ [line]) = .error fault := by
      rw [Progress.read_concat, hp]
      exact hfault
    rw [List.append_cons, Progress.read_append, hline]
    rfl

/-- A file is read if and only if its lines are texts, the first of those that count is a version
line and the others are items. -/
theorem ofLines_eq_ok_iff {lines : List Feed.Line} {file : File} :
    File.ofLines lines = .ok file ↔
      (∀ line ∈ lines, ∃ s, line = .ok s) ∧ ∃ version rest header items,
        significantTexts lines = version :: rest ∧ Header.read version = .ok header ∧
        rest.mapM Item.read = .ok items ∧ file = File.ofItems header items := by
  rw [ofLines_eq_read, bind_eq_ok_iff]
  simp only [read_eq_ok_iff]
  constructor
  · rintro ⟨p, ⟨hvalid, hp⟩, hfile⟩
    refine ⟨hvalid, ?_⟩
    generalize significantTexts lines = texts at hp ⊢
    cases hp with
    | nothing => cases hfile
    | version hversion hrest => exact ⟨_, _, _, _, rfl, hversion, hrest, (Except.ok.inj hfile).symm⟩
  · rintro ⟨hvalid, version, rest, header, items, htexts, hversion, hrest, rfl⟩
    exact ⟨⟨some header, items⟩, ⟨hvalid, htexts ▸ .version hversion hrest⟩, rfl⟩

end Delegation.Statistics
