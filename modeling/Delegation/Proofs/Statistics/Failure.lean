import Delegation.Proofs.Statistics.Accounting
import Delegation.Proofs.Statistics.Compressed
import Delegation.Proofs.Statistics.Loading

/-!
# Which file a fault comes from

Reading a file fails at one of seven stages: its path leads nowhere, its bytes cannot be read or
unpacked to their end, a line is no UTF-8, the version line, a summary or a record breaks the
format, or there is no version line.  `FailsAt` says for each stage what is wrong with the file and
what the fault is, without any pass over the file.  A file fails at one stage only
(`FailsAt.unique`), and reading it ends with the fault of that stage (`read_eq_error_iff_failsAt`).

Most faults begin with the path of the file (`FailsAt.names`).  Bytes that cannot be read, unpacked
or decoded are reported in words that are the same for every path (`FailsAt.other_path`), so that
the fault does not tell which of many files it comes from.

Main result: `fault_of_failing_file`.
-/

namespace Delegation.Statistics

open Sequence

/-! ## Stages -/

/-- Where reading a file can fail. -/
inductive Stage where
  | opening
  /-- Reading or unpacking the bytes. -/
  | reading
  /-- Decoding the bytes of a line. -/
  | decoding
  | versionLine
  | summaryLine
  | recordLine
  /-- The end of a file without a version line. -/
  | versionMissing
  deriving DecidableEq, Repr

/-- Whether the faults of a stage begin with the path of the file. -/
def Stage.namesFile : Stage → Bool
  | .reading | .decoding => false
  | _ => true

/-- The detail of a fault begins with a path. -/
inductive Names (path : String) : Fault → Prop where
  | parse (line : Nat) (detail : String) : Names path (.parse line (path ++ ": " ++ detail))
  | io (detail : String) : Names path (.io (path ++ ": " ++ detail))

/-- Bytes behind given lines cannot be read as a line of the file with a path. -/
inductive LineFailsAt (path : String) (before : List Feed.Line) (line : List UInt8) :
    Stage → Fault → Prop where
  | decoding (hline : ∀ s, line ≠ utf8 s) :
      LineFailsAt path before line .decoding (.io StorageProblem.invalidUtf8.text)
  | versionLine {s text : List Char} {flaw : LineFlaw} (hline : line = utf8 s)
      (htext : significantText? s = some text) (hfirst : significantTexts before = [])
      (hflaw : Header.read text = .error flaw) :
      LineFailsAt path before line .versionLine
        (.parse (before.length + 1) (path ++ ": " ++ flaw.text))
  | summaryLine {s text : List Char} {flaw : LineFlaw} (hline : line = utf8 s)
      (htext : significantText? s = some text) (hbehind : significantTexts before ≠ [])
      (hsummary : isSummary text = true) (hflaw : Summary.read text = .error flaw) :
      LineFailsAt path before line .summaryLine
        (.parse (before.length + 1) (path ++ ": " ++ flaw.text))
  | recordLine {s text : List Char} {flaw : LineFlaw} (hline : line = utf8 s)
      (htext : significantText? s = some text) (hbehind : significantTexts before ≠ [])
      (hrecord : isSummary text = false) (hflaw : readRecord? text = .error flaw) :
      LineFailsAt path before line .recordLine
        (.parse (before.length + 1) (path ++ ": " ++ flaw.text))

/-- Reading the file with a path fails at a stage, where opening the path yields what is given. -/
inductive FailsAt (path : String) : Except StorageProblem Feed → Stage → Fault → Prop where
  | opening (problem : StorageProblem) :
      FailsAt path (.error problem) .opening (.io (path ++ ": " ++ problem.text))
  | line {feed : Feed} {before : List (List UInt8)} {line : List UInt8}
      {after : List (List UInt8)} {stage : Stage} {fault : Fault}
      (hlines : feed.wholeLines = before ++ line :: after)
      (hbefore : AllAccepted (before.map Feed.decodeLine))
      (hline : LineFailsAt path (before.map Feed.decodeLine) line stage fault) :
      FailsAt path (.ok feed) stage fault
  | reading {feed : Feed} {problem : StorageProblem} (hproblem : feed.problem = some problem)
      (hlines : AllAccepted (feed.wholeLines.map Feed.decodeLine)) :
      FailsAt path (.ok feed) .reading (.io problem.text)
  | versionMissing {feed : Feed} (hproblem : feed.problem = none)
      (hlines : AllAccepted (feed.wholeLines.map Feed.decodeLine))
      (hnone : significantTexts (feed.wholeLines.map Feed.decodeLine) = []) :
      FailsAt path (.ok feed) .versionMissing (.parse 0 (path ++ ": " ++ "missing version line"))

variable {source : Source} {path : String} {paths : List String}
  {opened : Except StorageProblem Feed} {feed : Feed} {before : List (List UInt8)}
  {line : List UInt8} {stage stage' : Stage} {fault fault' : Fault}

/-! ## Every failure has a stage -/

lemma checkText_eq_error_iff {before : List Feed.Line} {text : List Char} {flaw : LineFlaw} :
    checkText before text = .error flaw ↔
      (significantTexts before = [] ∧ Header.read text = .error flaw) ∨
      (significantTexts before ≠ [] ∧ isSummary text = true ∧ Summary.read text = .error flaw) ∨
      (significantTexts before ≠ [] ∧ isSummary text = false ∧
        readRecord? text = .error flaw) := by
  rw [checkText, Item.read]
  by_cases hfirst : significantTexts before = []
  · simp [hfirst, map_eq_error_iff]
  · cases isSummary text <;> simp [hfirst, map_eq_error_iff]

lemma rejected_decodeLine_iff {before : List Feed.Line} {flaw : LineFlaw} :
    Rejected before (Feed.decodeLine line) flaw ↔
      ∃ s text, line = utf8 s ∧ significantText? s = some text ∧
        checkText before text = .error flaw := by
  simp only [Rejected, Feed.decodeLine_eq_ok_iff]

/-- A line fails at some stage exactly if reading it behind the others fails. -/
lemma exists_lineFailsAt_iff {before : List Feed.Line} {p : Progress}
    (hbefore : Progress.read before = .ok p) :
    (∃ stage, LineFailsAt path before line stage fault) ↔
      ∃ fault', p.readLine (Feed.decodeLine line, before.length + 1) = .error fault' ∧
        Opened.located path fault' = fault := by
  simp only [readLine_eq_error_iff hbefore, Feed.decodeLine_eq_error_iff, rejected_decodeLine_iff,
    checkText_eq_error_iff]
  constructor
  · rintro ⟨stage, hline⟩
    cases hline with
    | decoding hline => exact ⟨_, .inl ⟨_, ⟨hline, rfl⟩, rfl⟩, rfl⟩
    | versionLine hline htext hfirst hflaw =>
      exact ⟨_, .inr ⟨_, ⟨_, _, hline, htext, .inl ⟨hfirst, hflaw⟩⟩, rfl⟩, rfl⟩
    | summaryLine hline htext hbehind hsummary hflaw =>
      exact ⟨_, .inr ⟨_, ⟨_, _, hline, htext, .inr (.inl ⟨hbehind, hsummary, hflaw⟩)⟩, rfl⟩, rfl⟩
    | recordLine hline htext hbehind hrecord hflaw =>
      exact ⟨_, .inr ⟨_, ⟨_, _, hline, htext, .inr (.inr ⟨hbehind, hrecord, hflaw⟩)⟩, rfl⟩, rfl⟩
  · rintro ⟨_, ⟨_, ⟨hline, rfl⟩, rfl⟩ | ⟨flaw, ⟨s, text, hline, htext, hflaw⟩, rfl⟩, rfl⟩
    · exact ⟨_, .decoding hline⟩
    · rcases hflaw with ⟨hfirst, hflaw⟩ | ⟨hbehind, hsummary, hflaw⟩ | ⟨hbehind, hrecord, hflaw⟩
      · exact ⟨_, .versionLine hline htext hfirst hflaw⟩
      · exact ⟨_, .summaryLine hline htext hbehind hsummary hflaw⟩
      · exact ⟨_, .recordLine hline htext hbehind hrecord hflaw⟩

/-- The pass over the lines that are read to their end stops at the first one that fails. -/
lemma exists_first_lineFailsAt_iff :
    (∃ before line after stage, feed.wholeLines = before ++ line :: after ∧
        AllAccepted (before.map Feed.decodeLine) ∧
        LineFailsAt path (before.map Feed.decodeLine) line stage fault) ↔
      ∃ fault', Progress.read (feed.wholeLines.map Feed.decodeLine) = .error fault' ∧
        Opened.located path fault' = fault := by
  simp only [read_eq_error_iff]
  constructor
  · rintro ⟨before, line, after, stage, hlines, hbefore, hline⟩
    obtain ⟨p, hp⟩ := exists_read_eq_ok_iff.mpr hbefore
    obtain ⟨fault', hfault', hlocated⟩ := (exists_lineFailsAt_iff hp).mp ⟨stage, hline⟩
    refine ⟨fault', ⟨_, _, after.map Feed.decodeLine, p, ?_, hp, hfault'⟩, hlocated⟩
    rw [hlines, List.map_append, List.map_cons]
  · rintro ⟨fault', ⟨_, _, _, p, hlines, hp, hfault'⟩, hlocated⟩
    obtain ⟨before, _, hsplit, rfl, hrest⟩ := List.map_eq_append_iff.mp hlines
    obtain ⟨line, after, rfl, rfl, rfl⟩ := List.map_eq_cons_iff.mp hrest
    obtain ⟨stage, hline⟩ := (exists_lineFailsAt_iff hp).mpr ⟨fault', hfault', hlocated⟩
    exact ⟨before, line, after, stage, hsplit, exists_read_eq_ok_iff.mp ⟨p, hp⟩, hline⟩

/-- What is read behind the lines that are read to their end. -/
lemma ofFeed_eq :
    File.ofFeed feed = Progress.read (feed.wholeLines.map Feed.decodeLine) >>= fun p =>
      match feed.problem with
      | some problem => .error (.io problem.text)
      | none => p.file := by
  rw [File.ofFeed, ofLines_eq_read, Feed.lines_eq]
  cases feed.problem with
  | none => simp
  | some problem =>
    simp only [Option.toList_some, List.map_cons, List.map_nil, Progress.read_concat,
      bind_assoc, Progress.readLine_error]
    rfl

/-- A file fails because of a line that is read to its end, and otherwise because of the problem
behind these lines, or at last because none of them counts. -/
lemma ofFeed_eq_error_iff :
    File.ofFeed feed = .error fault ↔
      Progress.read (feed.wholeLines.map Feed.decodeLine) = .error fault ∨
      AllAccepted (feed.wholeLines.map Feed.decodeLine) ∧
        ((∃ problem, feed.problem = some problem ∧ fault = .io problem.text) ∨
          feed.problem = none ∧
            significantTexts (feed.wholeLines.map Feed.decodeLine) = [] ∧
            fault = .parse 0 "missing version line") := by
  rw [ofFeed_eq, ← exists_read_eq_ok_iff]
  cases hread : Progress.read (feed.wholeLines.map Feed.decodeLine) with
  | error fault' => simp [bind, Except.bind]
  | ok p =>
    have hfile := ofLines_of_read hread
    rw [ofLines_eq_read, hread] at hfile
    cases feed.problem with
    | some problem => simp [bind, Except.bind, @eq_comm _ fault]
    | none =>
      by_cases hnone : significantTexts (feed.wholeLines.map Feed.decodeLine) = []
      · rw [if_pos hnone] at hfile
        simp [hfile, hnone, eq_comm]
      · rw [if_neg hnone] at hfile
        obtain ⟨file, hfile⟩ := hfile
        simp [hfile, hnone]

lemma read_ok_eq_error_iff :
    Opened.read ⟨path, .ok feed⟩ = .error fault ↔
      ∃ fault', File.ofFeed feed = .error fault' ∧ Opened.located path fault' = fault := by
  rw [Opened.read]
  cases h : File.ofFeed feed <;> simp [h]

/-- Reading a file fails exactly if it fails at some stage, and with the fault of that stage. -/
theorem read_eq_error_iff_failsAt :
    Opened.read ⟨path, opened⟩ = .error fault ↔ ∃ stage, FailsAt path opened stage fault := by
  cases opened with
  | error problem =>
    constructor
    · intro h
      obtain rfl := Except.error.inj h
      exact ⟨_, .opening problem⟩
    · rintro ⟨_, ⟨⟩⟩
      rfl
  | ok feed =>
    rw [read_ok_eq_error_iff]
    simp only [ofFeed_eq_error_iff]
    constructor
    · rintro ⟨fault', hline | ⟨hlines, ⟨problem, hproblem, rfl⟩ | ⟨hproblem, hnone, rfl⟩⟩, rfl⟩
      · obtain ⟨before, line, after, stage, hsplit, hbefore, hline⟩ :=
          exists_first_lineFailsAt_iff.mpr ⟨fault', hline, rfl⟩
        exact ⟨stage, .line hsplit hbefore hline⟩
      · exact ⟨_, .reading hproblem hlines⟩
      · exact ⟨_, .versionMissing hproblem hlines hnone⟩
    · rintro ⟨stage, h⟩
      cases h with
      | line hlines hbefore hline =>
        obtain ⟨fault', hread, hlocated⟩ :=
          exists_first_lineFailsAt_iff.mp ⟨_, _, _, _, hlines, hbefore, hline⟩
        exact ⟨fault', .inl hread, hlocated⟩
      | reading hproblem hlines => exact ⟨_, .inr ⟨hlines, .inl ⟨_, hproblem, rfl⟩⟩, rfl⟩
      | versionMissing hproblem hlines hnone =>
        exact ⟨_, .inr ⟨hlines, .inr ⟨hproblem, hnone, rfl⟩⟩, rfl⟩

/-! ## A file fails at one stage only -/

/-- The stage of a line behind given ones, if it fails. -/
def lineStage (before : List Feed.Line) (line : Feed.Line) : Stage :=
  match line.toOption.bind significantText? with
  | none => .decoding
  | some text =>
    if significantTexts before = [] then .versionLine
    else if isSummary text then .summaryLine
    else .recordLine

lemma LineFailsAt.eq_lineStage {before : List Feed.Line}
    (h : LineFailsAt path before line stage fault) :
    stage = lineStage before (Feed.decodeLine line) := by
  rw [lineStage]
  cases h with
  | decoding hline => rw [Feed.decodeLine_eq_error_iff.mpr ⟨hline, rfl⟩]; rfl
  | versionLine hline htext hfirst =>
    simp [hline, Feed.decodeLine_utf8, Except.toOption, htext, hfirst]
  | summaryLine hline htext hbehind hsummary =>
    simp [hline, Feed.decodeLine_utf8, Except.toOption, htext, hbehind, hsummary]
  | recordLine hline htext hbehind hrecord =>
    simp [hline, Feed.decodeLine_utf8, Except.toOption, htext, hbehind, hrecord]

/-- Lines of which one fails behind accepted ones are not all accepted. -/
lemma LineFailsAt.not_allAccepted {lines after : List (List UInt8)}
    (h : LineFailsAt path (before.map Feed.decodeLine) line stage fault)
    (hlines : lines = before ++ line :: after)
    (hbefore : AllAccepted (before.map Feed.decodeLine)) :
    ¬ AllAccepted (lines.map Feed.decodeLine) := by
  intro hall
  obtain ⟨p, hp⟩ := exists_read_eq_ok_iff.mpr hbefore
  obtain ⟨fault', hfault', -⟩ := (exists_lineFailsAt_iff hp).mp ⟨stage, h⟩
  rw [hlines, List.map_append, List.map_cons] at hall
  obtain ⟨q, hq⟩ := (exists_readLine_eq_ok_iff hp).mpr (hall _ _ _ rfl)
  rw [hq] at hfault'
  cases hfault'

/-- There is only one line that fails behind accepted ones. -/
lemma LineFailsAt.eq_of_append {before' after after' : List (List UInt8)} {line' : List UInt8}
    (h : LineFailsAt path (before.map Feed.decodeLine) line stage fault)
    (h' : LineFailsAt path (before'.map Feed.decodeLine) line' stage' fault')
    (hbefore : AllAccepted (before.map Feed.decodeLine))
    (hbefore' : AllAccepted (before'.map Feed.decodeLine))
    (hsplit : before ++ line :: after = before' ++ line' :: after') :
    before = before' ∧ line = line' := by
  -- if one of both lines came first, it would be among the accepted ones before the other
  rcases List.append_eq_append_iff.mp hsplit with ⟨more, hmore, hrest⟩ | ⟨more, hmore, hrest⟩
  · cases more with
    | nil => exact ⟨by simpa using hmore.symm, (List.cons.inj hrest).1⟩
    | cons other more =>
      obtain ⟨rfl, -⟩ := List.cons.inj hrest
      exact absurd hbefore' (h.not_allAccepted hmore hbefore)
  · cases more with
    | nil => exact ⟨by simpa using hmore, (List.cons.inj hrest).1.symm⟩
    | cons other more =>
      obtain ⟨rfl, -⟩ := List.cons.inj hrest
      exact absurd hbefore (h'.not_allAccepted hmore hbefore')

/-- The stage and the fault are determined by the path and what is behind it. -/
theorem FailsAt.unique (h : FailsAt path opened stage fault)
    (h' : FailsAt path opened stage' fault') : stage' = stage ∧ fault' = fault := by
  constructor
  · cases h with
    | opening => cases h'; rfl
    | line hlines hbefore hline =>
      cases h' with
      | line hlines' hbefore' hline' =>
        obtain ⟨rfl, rfl⟩ :=
          hline.eq_of_append hline' hbefore hbefore' (hlines.symm.trans hlines')
        rw [hline.eq_lineStage, hline'.eq_lineStage]
      | reading _ hall => exact absurd hall (hline.not_allAccepted hlines hbefore)
      | versionMissing _ hall => exact absurd hall (hline.not_allAccepted hlines hbefore)
    | reading hproblem hall =>
      cases h' with
      | line hlines hbefore hline => exact absurd hall (hline.not_allAccepted hlines hbefore)
      | reading => rfl
      | versionMissing hnone => rw [hproblem] at hnone; cases hnone
    | versionMissing hnone hall =>
      cases h' with
      | line hlines hbefore hline => exact absurd hall (hline.not_allAccepted hlines hbefore)
      | reading hproblem => rw [hproblem] at hnone; cases hnone
      | versionMissing => rfl
  · have hread := read_eq_error_iff_failsAt.mpr ⟨stage, h⟩
    have hread' := read_eq_error_iff_failsAt.mpr ⟨stage', h'⟩
    exact Except.error.inj (hread'.symm.trans hread)

/-! ## Faults and paths -/

lemma isInfix_append (words path detail : String) :
    path.toList <:+: (words ++ (path ++ ": " ++ detail)).toList := by
  rw [String.toList_append, String.toList_append, String.toList_append, List.append_assoc]
  exact List.infix_append' _ _ _

/-- The path stands in the words of a fault that begins with it. -/
lemma Names.isInfix_message (h : Names path fault) : path.toList <:+: fault.message.toList := by
  cases h with
  | parse number detail => exact isInfix_append _ path detail
  | io detail => exact isInfix_append _ path detail

/-- The faults of most stages begin with the path. -/
lemma FailsAt.names (h : FailsAt path opened stage fault) (hstage : stage.namesFile = true) :
    Names path fault := by
  cases h with
  | opening => exact .io _
  | line _ _ hline =>
    cases hline with
    | decoding => cases hstage
    | versionLine => exact .parse _ _
    | summaryLine => exact .parse _ _
    | recordLine => exact .parse _ _
  | reading => cases hstage
  | versionMissing => exact .parse _ _

/-- At the other stages the fault is the same whatever the path is. -/
lemma FailsAt.other_path (h : FailsAt path opened stage fault) (hstage : stage.namesFile = false)
    (path' : String) : FailsAt path' opened stage fault := by
  cases h with
  | opening => cases hstage
  | line hlines hbefore hline =>
    cases hline with
    | decoding hline => exact .line hlines hbefore (.decoding hline)
    | versionLine => cases hstage
    | summaryLine => cases hstage
    | recordLine => cases hstage
  | reading hproblem hlines => exact .reading hproblem hlines
  | versionMissing => cases hstage

/-- At the other stages the fault has the words of a problem with the bytes, and nothing else. -/
lemma FailsAt.exists_problem (h : FailsAt path opened stage fault)
    (hstage : stage.namesFile = false) :
    ∃ feed problem, opened = .ok feed ∧ fault = .io problem.text ∧
      (problem = .invalidUtf8 ∨ feed.problem = some problem) := by
  cases h with
  | opening => cases hstage
  | line _ _ hline =>
    cases hline with
    | decoding => exact ⟨_, .invalidUtf8, rfl, rfl, .inl rfl⟩
    | versionLine => cases hstage
    | summaryLine => cases hstage
    | recordLine => cases hstage
  | reading hproblem => exact ⟨_, _, rfl, rfl, .inr hproblem⟩
  | versionMissing => cases hstage

/-- No problem looks like a path with a colon behind it, unless it is told in the machine's own
words. -/
lemma Names.exists_other {problem : StorageProblem} (h : Names path (.io problem.text)) :
    ∃ text, problem = .other text := by
  have hcolon : ∀ detail, Names path (.io detail) → ':' ∈ detail.toList := by
    rintro _ ⟨⟩
    simp [String.toList_append]
  cases problem with
  | other text => exact ⟨text, rfl⟩
  | _ => exact absurd (hcolon _ h) (by simp [StorageProblem.text])

/-- Reading files fails with the fault of the first file that fails, and that file fails at one
stage.  The fault begins with the path of the file unless its bytes cannot be read, unpacked or
decoded.  Then it has the words of the problem, which are the same for every path, and begins with
none unless the machine's own words do. -/
theorem fault_of_failing_file (source : Source) {paths : List String} (hpaths : "-" ∉ paths) :
    (∀ outcome journal, LoadedSideBySide source paths outcome journal →
      outcome = loadAll source paths) ∧
    (∀ fault, loadAll source paths = .error fault ↔
      ∃ before path after stage, paths = before ++ path :: after ∧
        (∀ earlier ∈ before, ∃ file, load source earlier = .ok file) ∧
        FailsAt path (source.openPath path) stage fault) ∧
    ∀ path stage fault, FailsAt path (source.openPath path) stage fault →
      (∀ stage' fault', FailsAt path (source.openPath path) stage' fault' →
        stage' = stage ∧ fault' = fault) ∧
      (stage.namesFile = true → Names path fault ∧ path.toList <:+: fault.message.toList) ∧
      (stage.namesFile = false → ∃ feed problem, source.openPath path = .ok feed ∧
        fault = .io problem.text ∧ (problem = .invalidUtf8 ∨ feed.problem = some problem) ∧
        ∀ path', FailsAt path' (source.openPath path) stage fault ∧
          (Names path' fault → ∃ text, problem = .other text)) := by
  refine ⟨fun outcome journal h => (h.eq_and_perm hpaths).1, fun fault => ?first,
    fun path stage fault h => ⟨fun _ _ => h.unique, fun hstage => ?named, fun hstage => ?unnamed⟩⟩
  case first =>
    rw [loadAll_eq_error_iff hpaths]
    simp only [load, read_eq_error_iff_failsAt, exists_and_left]
  case named => exact ⟨h.names hstage, (h.names hstage).isInfix_message⟩
  case unnamed =>
    obtain ⟨feed, problem, hopen, hfault, hproblem⟩ := h.exists_problem hstage
    refine ⟨feed, problem, hopen, hfault, hproblem, fun path' => ⟨h.other_path hstage path', ?_⟩⟩
    rw [hfault]
    exact Names.exists_other

/-! ## Two files that fail -/

/-- A file that can be read, one whose version line is too short, and one that is no text. -/
def mixedTree : FileTree :=
  ⟨[(["north".toList], encodeUtf8 firstText), (["torn".toList], utf8 "2|arin".toList),
    (["binary".toList], [0xff])]⟩

/-- The files of `mixedTree` and an empty standard input. -/
def mixedSource : Source := ⟨mixedTree.openFeed, []⟩

lemma load_north : load mixedSource "north" = .ok firstFile :=
  (load_plain_eq_ok_iff (by cbv) rfl).mpr ofText_firstText

lemma failsAt_torn : FailsAt "torn" (mixedSource.openPath "torn") .versionLine
    (.parse 1 "torn: version line needs 7 fields, found 2") := by
  have hopen : mixedTree.openFeed "torn" = .ok (Feed.ofBytes (utf8 "2|arin".toList)) :=
    openFeed_plain (by cbv) rfl
  have hlines : (Feed.ofBytes (utf8 "2|arin".toList)).wholeLines =
      [] ++ utf8 "2|arin".toList :: [] := rfl
  have htext : significantText? "2|arin".toList = some "2|arin".toList := by cbv
  show FailsAt "torn" (mixedTree.openFeed "torn") _ _
  rw [hopen]
  exact .line hlines (exists_read_eq_ok_iff.mp ⟨.start, rfl⟩) (.versionLine rfl htext rfl rfl)

lemma failsAt_binary : FailsAt "binary" (mixedSource.openPath "binary") .decoding
    (.io "stream did not contain valid UTF-8") := by
  have hopen : mixedTree.openFeed "binary" = .ok (Feed.ofBytes [0xff]) :=
    openFeed_plain (by cbv) rfl
  have hlines : (Feed.ofBytes [0xff]).wholeLines = [] ++ [0xff] :: [] := rfl
  have hnone : decodeUtf8? [0xff] = none := by cbv
  show FailsAt "binary" (mixedTree.openFeed "binary") _ _
  rw [hopen]
  refine .line hlines (exists_read_eq_ok_iff.mp ⟨.start, rfl⟩) (.decoding fun s hs => ?_)
  rw [decodeUtf8?_eq_some_iff.mpr hs] at hnone
  cases hnone

/-- The second file fails with a fault that begins with its path. -/
theorem fault_of_failing_file_torn :
    "-" ∉ ["north", "torn", "binary"] ∧
      loadAll mixedSource ["north", "torn", "binary"] =
        .error (.parse 1 "torn: version line needs 7 fields, found 2") ∧
      Names "torn" (.parse 1 "torn: version line needs 7 fields, found 2") := by
  have hpaths : "-" ∉ ["north", "torn", "binary"] := by decide
  obtain ⟨-, hfault, hstage⟩ := fault_of_failing_file mixedSource hpaths
  refine ⟨hpaths, (hfault _).mpr ⟨["north"], "torn", ["binary"], _, rfl, ?_, failsAt_torn⟩,
    ((hstage _ _ _ failsAt_torn).2.1 rfl).1⟩
  simp [load_north]

/-- The words of the fault have no path in them if a file is no text. -/
theorem fault_of_failing_file_binary :
    "-" ∉ ["north", "binary"] ∧ load mixedSource "north" = .ok firstFile ∧
      load mixedSource "binary" = .error (.io "stream did not contain valid UTF-8") ∧
      loadAll mixedSource ["north", "binary"] =
        .error (.io "stream did not contain valid UTF-8") ∧
      ¬ "binary".toList <:+: (Fault.io "stream did not contain valid UTF-8").message.toList := by
  have hpaths : "-" ∉ ["north", "binary"] := by decide
  have hbinary : load mixedSource "binary" = .error (.io "stream did not contain valid UTF-8") :=
    read_eq_error_iff_failsAt.mpr ⟨_, failsAt_binary⟩
  refine ⟨hpaths, load_north, hbinary,
    (loadAll_eq_error_iff hpaths).mpr ⟨["north"], "binary", [], rfl, ?_, hbinary⟩, by decide⟩
  simp [load_north]

end Delegation.Statistics
