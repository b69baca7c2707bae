import Delegation.Proofs.Statistics.Progress
import Delegation.Proofs.Storage.Lines
import Mathlib.Data.List.ReduceOption

/-!
# Which lines of a file are accounted for

Every line of a file is skipped, accepted or rejected, and which of them does not depend on the
lines behind it.  `Accepted` and `Rejected` say so without any pass over the file: the first line
that counts must be a version line, and any other one a summary or a record.

Main result: `lines_accounted_for`.  If a file is read, each line that counts is the version
line, a summary, a record with addresses or a record of system numbers, and nothing is out of
order.  If it is not, the fault names the first line that is rejected, or there is no line that
counts, or one that is no text before any rejected one.
-/

namespace Delegation.Statistics

open Sequence Text

/-! ## Lines that are accepted or rejected -/

/-- Reads the text of a line behind given ones only for its flaws: as the version line if none of
the others counts, and as a summary or record otherwise. -/
def checkText (before : List Feed.Line) (text : List Char) : Except LineFlaw Unit :=
  if significantTexts before = [] then (Header.read text).map fun _ => ()
  else (Item.read text).map fun _ => ()

/-- A line behind given ones is not skipped and has a flaw. -/
def Rejected (before : List Feed.Line) (line : Feed.Line) (flaw : LineFlaw) : Prop :=
  ∃ s text, line = .ok s ∧ significantText? s = some text ∧ checkText before text = .error flaw

/-- A line behind given ones is a text, and is skipped or has no flaw. -/
def Accepted (before : List Feed.Line) (line : Feed.Line) : Prop :=
  ∃ s, line = .ok s ∧ ∀ text, significantText? s = some text → checkText before text = .ok ()

/-- Each line is accepted behind those before it. -/
def AllAccepted (lines : List Feed.Line) : Prop :=
  ∀ before line after, lines = before ++ line :: after → Accepted before line

/-- No line is rejected behind those before it. -/
def NoneRejected (lines : List Feed.Line) : Prop :=
  ∀ before line after flaw, lines = before ++ line :: after → ¬ Rejected before line flaw

/-- The line with the given number is rejected, and all lines before it are accepted. -/
def FirstRejected (lines : List Feed.Line) (number : Nat) (flaw : LineFlaw) : Prop :=
  ∃ before line after, lines = before ++ line :: after ∧ before.length + 1 = number ∧
    AllAccepted before ∧ Rejected before line flaw

section Lines

variable {lines : List Feed.Line} {line : Feed.Line} {flaw : LineFlaw} {p : Progress}

lemma Accepted.not_rejected (h : Accepted lines line) : ¬ Rejected lines line flaw := by
  rintro ⟨s, text, rfl, htext, hflaw⟩
  obtain ⟨s', hs, hcheck⟩ := h
  obtain rfl := Except.ok.inj hs
  rw [hcheck text htext] at hflaw
  cases hflaw

lemma AllAccepted.noneRejected (h : AllAccepted lines) : NoneRejected lines :=
  fun before line after _ hsplit => (h before line after hsplit).not_rejected

/-- What a text is read as depends on whether any text before it counts. -/
lemma readText_map_eq_checkText (h : Progress.read lines = .ok p) (text : List Char) :
    (p.readText text).map (fun _ => ()) = checkText lines text := by
  have hholds := (read_eq_ok_iff.mp h).2
  rw [checkText]
  generalize significantTexts lines = texts at hholds ⊢
  cases hholds with
  | nothing =>
    rw [Progress.readText, if_pos rfl]
    dsimp only [Progress.start]
    cases Header.read text <;> rfl
  | version =>
    rw [Progress.readText, if_neg (List.cons_ne_nil _ _)]
    dsimp only
    cases Item.read text <;> rfl

/-- Behind lines that have been read, a line can be read exactly if it is accepted. -/
lemma exists_readLine_eq_ok_iff (h : Progress.read lines = .ok p) {number : Nat} :
    (∃ q, p.readLine (line, number) = .ok q) ↔ Accepted lines line := by
  cases line with
  | error problem => simp [Progress.readLine_error, Accepted]
  | ok s =>
    rw [Progress.readLine_ok, Accepted]
    cases htext : significantText? s with
    | none => simp [htext]
    | some text =>
      simp only [Except.ok.injEq, exists_eq_left', htext, Option.some.injEq, forall_eq',
        ← readText_map_eq_checkText h]
      cases p.readText text <;> simp [Except.map]

/-- Behind lines that have been read, a line fails if it is no text or is rejected. -/
lemma readLine_eq_error_iff (h : Progress.read lines = .ok p) {number : Nat} {fault : Fault} :
    p.readLine (line, number) = .error fault ↔
      (∃ problem, line = .error problem ∧ fault = .io problem.text) ∨
        ∃ flaw, Rejected lines line flaw ∧ fault = .parse number flaw.text := by
  cases line with
  | error problem => simp [Progress.readLine_error, Rejected, eq_comm]
  | ok s =>
    rw [Progress.readLine_ok]
    cases htext : significantText? s with
    | none => simp [Rejected, htext]
    | some text =>
      simp only [Rejected, Except.ok.injEq, exists_and_left, exists_eq_left', htext,
        Option.some.injEq, ← readText_map_eq_checkText h]
      cases p.readText text <;> simp [Except.map, eq_comm]

/-- Lines have been read exactly if all of them are accepted. -/
theorem exists_read_eq_ok_iff : (∃ p, Progress.read lines = .ok p) ↔ AllAccepted lines := by
  constructor
  · rintro ⟨p, hp⟩ before line after rfl
    rw [List.append_cons, Progress.read_append] at hp
    obtain ⟨q, hq, -⟩ := bind_eq_ok_iff.mp hp
    rw [Progress.read_concat] at hq
    obtain ⟨p', hp', hline⟩ := bind_eq_ok_iff.mp hq
    exact (exists_readLine_eq_ok_iff hp').mp ⟨q, hline⟩
  · intro h
    cases hread : Progress.read lines with
    | ok p => exact ⟨p, rfl⟩
    | error fault =>
      obtain ⟨before, line, after, p, rfl, hp, hfault⟩ := read_eq_error_iff.mp hread
      obtain ⟨q, hq⟩ := (exists_readLine_eq_ok_iff hp).mpr (h before line after rfl)
      rw [hq] at hfault
      cases hfault

/-! ## Faults -/

/-- The pass stops at the first line that is no text or is rejected. -/
lemma read_eq_error_iff_rejected {fault : Fault} :
    Progress.read lines = .error fault ↔
      (∃ (before : List Feed.Line) (problem : StorageProblem) (after : List Feed.Line),
        lines = before ++ .error problem :: after ∧ AllAccepted before ∧
        fault = .io problem.text) ∨
      ∃ number flaw, FirstRejected lines number flaw ∧ fault = .parse number flaw.text := by
  rw [read_eq_error_iff]
  constructor
  · rintro ⟨before, line, after, p, rfl, hp, hfault⟩
    have hbefore := exists_read_eq_ok_iff.mp ⟨p, hp⟩
    rcases (readLine_eq_error_iff hp).mp hfault with ⟨problem, rfl, rfl⟩ | ⟨flaw, hflaw, rfl⟩
    · exact .inl ⟨before, problem, after, rfl, hbefore, rfl⟩
    · exact .inr ⟨_, flaw, ⟨before, line, after, rfl, rfl, hbefore, hflaw⟩, rfl⟩
  · rintro (⟨before, problem, after, rfl, hbefore, rfl⟩ |
      ⟨number, flaw, ⟨before, line, after, rfl, rfl, hbefore, hflaw⟩, rfl⟩)
    · obtain ⟨p, hp⟩ := exists_read_eq_ok_iff.mpr hbefore
      exact ⟨before, _, after, p, rfl, hp, rfl⟩
    · obtain ⟨p, hp⟩ := exists_read_eq_ok_iff.mpr hbefore
      exact ⟨before, line, after, p, rfl, hp,
        (readLine_eq_error_iff hp).mpr (.inr ⟨flaw, hflaw, rfl⟩)⟩

/-- Lines that have been read make a file unless none of them counts. -/
lemma ofLines_of_read (h : Progress.read lines = .ok p) :
    if significantTexts lines = [] then
      File.ofLines lines = .error (.parse 0 "missing version line")
    else ∃ file, File.ofLines lines = .ok file := by
  have hholds := (read_eq_ok_iff.mp h).2
  rw [ofLines_eq_read, h]
  generalize significantTexts lines = texts at hholds ⊢
  cases hholds with
  | nothing => rw [if_pos rfl]; rfl
  | version => rw [if_neg (List.cons_ne_nil _ _)]; exact ⟨_, rfl⟩

/-- A file is not read if nothing in it counts, or else because of a line that is no text or is
rejected, the first of its kind. -/
theorem ofLines_eq_error_iff {fault : Fault} :
    File.ofLines lines = .error fault ↔
      (AllAccepted lines ∧ significantTexts lines = [] ∧
        fault = .parse 0 "missing version line") ∨
      (∃ (before : List Feed.Line) (problem : StorageProblem) (after : List Feed.Line),
        lines = before ++ .error problem :: after ∧ AllAccepted before ∧
        fault = .io problem.text) ∨
      ∃ number flaw, FirstRejected lines number flaw ∧ fault = .parse number flaw.text := by
  rw [← read_eq_error_iff_rejected]
  cases hread : Progress.read lines with
  | error fault' =>
    have hnot : ¬ AllAccepted lines := by
      rw [← exists_read_eq_ok_iff, hread]
      simp
    rw [ofLines_eq_read, hread]
    simp [hnot, bind, Except.bind]
  | ok p =>
    have hall := exists_read_eq_ok_iff.mp ⟨p, hread⟩
    have hfile := ofLines_of_read hread
    by_cases htexts : significantTexts lines = []
    · rw [if_pos htexts] at hfile
      simp [hfile, hall, htexts, eq_comm]
    · rw [if_neg htexts] at hfile
      obtain ⟨file, hfile⟩ := hfile
      simp [hfile, htexts]

end Lines

/-! ## A file that is read -/

/-- A file holds what a version line and the texts behind it say, in their order. -/
structure Accounts (version : List Char) (rest : List (List Char)) (file : File) : Prop where
  header : Header.read version = .ok file.header
  summaries : (rest.filter isSummary).mapM Summary.read = .ok file.summaries
  records : ∃ found, (rest.filter (!isSummary ·)).mapM readRecord? = .ok found ∧
    found.reduceOption = file.records ∧ found.countP Option.isNone = file.asnCount

/-- Items come from the summaries and records among the texts. -/
lemma accounts_of_items {version : List Char} {rest : List (List Char)} {header : Header}
    {items : List Item} (hversion : Header.read version = .ok header)
    (hrest : rest.mapM Item.read = .ok items) :
    Accounts version rest (File.ofItems header items) := by
  induction rest generalizing items with
  | nil =>
    obtain rfl := Except.ok.inj hrest
    exact ⟨hversion, rfl, [], rfl, rfl, rfl⟩
  | cons text rest ih =>
    obtain ⟨item, items, hitem, hitems, rfl⟩ := mapM_cons_eq_ok_iff.mp hrest
    obtain ⟨-, hsummaries, found, hfound, hrecords, hasn⟩ := ih hitems
    rw [Item.read] at hitem
    split at hitem
    · obtain ⟨s, hs, rfl⟩ := map_eq_ok_iff.mp hitem
      refine ⟨hversion, ?_, found, ?_, hrecords, hasn⟩
      · rw [List.filter_cons_of_pos ‹_›]
        exact mapM_cons_eq_ok_iff.mpr ⟨s, _, hs, hsummaries, rfl⟩
      · rwa [List.filter_cons_of_neg (by simp [*])]
    · obtain ⟨r?, hr, rfl⟩ := map_eq_ok_iff.mp hitem
      have hfound' :
          ((text :: rest).filter (!isSummary ·)).mapM readRecord? = .ok (r? :: found) := by
        rw [List.filter_cons_of_pos (by simp [*])]
        exact mapM_cons_eq_ok_iff.mpr ⟨r?, found, hr, hfound, rfl⟩
      have hsummaries' : (text :: rest).filter isSummary = rest.filter isSummary :=
        List.filter_cons_of_neg ‹_›
      cases r? with
      | some r =>
        refine ⟨hversion, hsummaries' ▸ hsummaries, _, hfound', ?_, hasn⟩
        rw [List.reduceOption_cons_of_some, hrecords]
        rfl
      | none =>
        refine ⟨hversion, hsummaries' ▸ hsummaries, _, hfound', hrecords, ?_⟩
        rw [List.countP_cons_of_pos rfl, hasn]
        simp [File.ofItems]

section Accounts

variable {version : List Char} {rest : List (List Char)} {file : File}

/-- The texts that are no summaries are counted as records by their types. -/
lemma Accounts.length_filter (h : Accounts version rest file) :
    (rest.filter (!isSummary ·)).length = file.records.length + file.asnCount := by
  obtain ⟨found, hfound, hrecords, hasn⟩ := h.records
  rw [← length_of_mapM hfound, ← hrecords, ← hasn, List.countP_eq_length_filter]
  exact List.length_eq_reduceOption_length_add_filter_none

/-- Each text behind the version line is counted. -/
lemma Accounts.length_rest (h : Accounts version rest file) :
    rest.length = file.summaries.length + file.records.length + file.asnCount := by
  rw [List.length_eq_length_filter_add isSummary, h.length_filter, length_of_mapM h.summaries,
    Nat.add_assoc]

end Accounts

/-- The records of a file are counted by their types. -/
lemma count_add_count (file : File) :
    file.count .asn + file.count .ipv4 + file.count .ipv6 =
      file.records.length + file.asnCount := by
  have hfamilies : file.records.length =
      file.records.countP (·.family = .ipv4) + file.records.countP (·.family = .ipv6) := by
    rw [List.length_eq_countP_add_countP (·.family = .ipv4)]
    congr 2
    funext r
    cases r.family <;> rfl
  rw [hfamilies, File.count, File.count, File.count, File.countFamily, File.countFamily]
  omega

/-! ## All lines of a file -/

/-- Lines none of which counts are accepted if they are texts. -/
lemma allAccepted_of_significantTexts_eq_nil {lines : List Feed.Line}
    (hnone : significantTexts lines = []) :
    AllAccepted lines ↔ ∀ line ∈ lines, ∃ s, line = .ok s := by
  rw [← exists_read_eq_ok_iff]
  simp only [read_eq_ok_iff, hnone, exists_and_left, and_iff_left_iff_imp]
  exact fun _ => ⟨_, .nothing⟩

/-- Before a line that is no text nothing is rejected exactly if it, or one before it, is the
first such line behind accepted ones. -/
lemma exists_noneRejected_iff {lines : List Feed.Line} :
    (∃ (before : List Feed.Line) (problem : StorageProblem) (after : List Feed.Line),
        lines = before ++ .error problem :: after ∧ NoneRejected before) ↔
      ∃ (before : List Feed.Line) (problem : StorageProblem) (after : List Feed.Line),
        lines = before ++ .error problem :: after ∧ AllAccepted before := by
  constructor
  · rintro ⟨before, problem, after, rfl, hnone⟩
    cases hread : Progress.read before with
    | ok p => exact ⟨before, problem, after, rfl, exists_read_eq_ok_iff.mp ⟨p, hread⟩⟩
    | error fault =>
      rcases read_eq_error_iff_rejected.mp hread with ⟨before', problem', after', rfl, hall, -⟩ |
        ⟨number, flaw, ⟨before', line, after', rfl, -, -, hflaw⟩, -⟩
      · exact ⟨before', problem', after' ++ .error problem :: after, by simp, hall⟩
      · exact absurd hflaw (hnone before' line after' flaw rfl)
  · rintro ⟨before, problem, after, rfl, hall⟩
    exact ⟨before, problem, after, rfl, hall.noneRejected⟩

/-- Which line is rejected first depends on the lines up to it only. -/
lemma FirstRejected.take_append {lines : List Feed.Line} {number : Nat} {flaw : LineFlaw}
    (h : FirstRejected lines number flaw) (more : List Feed.Line) :
    number ≤ lines.length ∧ FirstRejected (lines.take number ++ more) number flaw := by
  obtain ⟨before, line, after, rfl, rfl, hbefore, hflaw⟩ := h
  refine ⟨by simp, before, line, more, ?_, rfl, hbefore, hflaw⟩
  rw [List.append_cons, List.take_left' (by simp), List.append_assoc]
  rfl

/-- The faults of a file with the number of a line are those of its rejected lines. -/
lemma ofLines_eq_parse_iff {lines : List Feed.Line} {number : Nat} (hnumber : number ≠ 0)
    {detail : String} :
    File.ofLines lines = .error (.parse number detail) ↔
      ∃ flaw, flaw.text = detail ∧ FirstRejected lines number flaw := by
  rw [ofLines_eq_error_iff]
  constructor
  · rintro (⟨-, -, hfault⟩ | ⟨_, _, _, -, -, hfault⟩ | ⟨number', flaw, hflaw, hfault⟩)
    · exact absurd (Fault.parse.inj hfault).1 hnumber
    · cases hfault
    · obtain ⟨rfl, rfl⟩ := Fault.parse.inj hfault
      exact ⟨flaw, rfl, hflaw⟩
  · rintro ⟨flaw, rfl, hflaw⟩
    exact .inr (.inr ⟨number, flaw, hflaw, rfl⟩)

/-- The fault without a line is that of texts none of which counts. -/
lemma exists_ofLines_eq_parse_zero_iff {lines : List Feed.Line} :
    (∃ detail, File.ofLines lines = .error (.parse 0 detail)) ↔
      (∀ line ∈ lines, ∃ s, line = .ok s) ∧ significantTexts lines = [] := by
  simp only [ofLines_eq_error_iff]
  constructor
  · rintro ⟨detail, ⟨hall, hnone, -⟩ | ⟨_, _, _, -, -, hfault⟩ |
      ⟨number, flaw, ⟨_, _, _, -, hnumber, -⟩, hfault⟩⟩
    · exact ⟨(allAccepted_of_significantTexts_eq_nil hnone).mp hall, hnone⟩
    · cases hfault
    · obtain ⟨rfl, -⟩ := Fault.parse.inj hfault
      cases hnumber
  · rintro ⟨hvalid, hnone⟩
    exact ⟨_, .inl ⟨(allAccepted_of_significantTexts_eq_nil hnone).mpr hvalid, hnone, rfl⟩⟩

/-- Reading fails at a line that is no text if no line before it is rejected. -/
lemma exists_ofLines_eq_io_iff {lines : List Feed.Line} :
    (∃ detail, File.ofLines lines = .error (.io detail)) ↔
      ∃ (before : List Feed.Line) (problem : StorageProblem) (after : List Feed.Line),
        lines = before ++ .error problem :: after ∧ NoneRejected before := by
  rw [exists_noneRejected_iff]
  simp only [ofLines_eq_error_iff]
  constructor
  · rintro ⟨detail, ⟨-, -, hfault⟩ | ⟨before, problem, after, hlines, hall, -⟩ |
      ⟨_, _, -, hfault⟩⟩
    · cases hfault
    · exact ⟨before, problem, after, hlines, hall⟩
    · cases hfault
  · rintro ⟨before, problem, after, hlines, hall⟩
    exact ⟨_, .inr (.inl ⟨before, problem, after, hlines, hall, rfl⟩)⟩

/-- Every line that counts is accounted for, and a fault tells the first line that is rejected,
whatever comes behind it. -/
theorem lines_accounted_for (bytes : List UInt8) :
    let lines := (Feed.ofBytes bytes).lines
    (∀ file, File.ofBytes bytes = .ok file →
      ∃ version rest, significantTexts lines = version :: rest ∧ Accounts version rest file ∧
        (significantTexts lines).length =
          1 + file.summaries.length + file.records.length + file.asnCount ∧
        file.count .asn + file.count .ipv4 + file.count .ipv6 =
          (rest.filter (!isSummary ·)).length) ∧
    (∀ number detail, number ≠ 0 →
      (File.ofBytes bytes = .error (.parse number detail) ↔
        ∃ flaw, flaw.text = detail ∧ FirstRejected lines number flaw)) ∧
    (∀ number detail, number ≠ 0 → File.ofBytes bytes = .error (.parse number detail) →
      (bytes = Feed.firstLines bytes number ∨
        ∃ rest, bytes = Feed.firstLines bytes number ++ 10 :: rest) ∧
      ∀ other, File.ofBytes (Feed.firstLines bytes number ++ 10 :: other) =
        .error (.parse number detail)) ∧
    ((∃ detail, File.ofBytes bytes = .error (.parse 0 detail)) ↔
      (∀ line ∈ lines, ∃ s, line = .ok s) ∧ significantTexts lines = []) ∧
    ((∃ detail, File.ofBytes bytes = .error (.io detail)) ↔
      ∃ (before : List Feed.Line) (problem : StorageProblem) (after : List Feed.Line),
        lines = before ++ .error problem :: after ∧ NoneRejected before) ∧
    ∀ fault, File.ofBytes bytes = .error fault →
      (∃ number detail, fault = .parse number detail) ∨ ∃ detail, fault = .io detail := by
  intro lines
  refine ⟨fun file hfile => ?read, fun number detail hnumber => ofLines_eq_parse_iff hnumber,
    fun number detail hnumber hfault => ?others, exists_ofLines_eq_parse_zero_iff,
    exists_ofLines_eq_io_iff, fun fault hfault => ?faults⟩
  case read =>
    obtain ⟨-, version, rest, header, items, htexts, hversion, hrest, rfl⟩ :=
      ofLines_eq_ok_iff.mp hfile
    have haccounts := accounts_of_items hversion hrest
    refine ⟨version, rest, htexts, haccounts, ?_, ?_⟩
    · rw [htexts, List.length_cons, haccounts.length_rest]
      omega
    · rw [count_add_count, haccounts.length_filter]
  case others =>
    refine ⟨Feed.eq_firstLines_or_append bytes hnumber, fun other => ?_⟩
    obtain ⟨flaw, rfl, hflaw⟩ := (ofLines_eq_parse_iff hnumber).mp hfault
    obtain ⟨hlength, hflaw⟩ := hflaw.take_append (Feed.ofBytes other).lines
    rw [File.ofBytes, File.ofFeed, Feed.lines_firstLines_append hnumber hlength]
    exact (ofLines_eq_parse_iff hnumber).mpr ⟨flaw, rfl, hflaw⟩
  case faults =>
    rcases ofLines_eq_error_iff.mp hfault with ⟨-, -, rfl⟩ | ⟨_, _, _, -, -, rfl⟩ |
      ⟨_, _, -, rfl⟩
    · exact .inl ⟨_, _, rfl⟩
    · exact .inr ⟨_, rfl⟩
    · exact .inl ⟨_, _, rfl⟩

/-- A comment, a version line, a blank line, a record and a line that ends too early. -/
def flawedTexts : List (List Char) :=
  ["# corrections".toList, "2|arin|1|2|1|1|-0400".toList, "  ".toList,
    "arin|US|ipv4|3.0.0.0|256|19881201|allocated".toList, "arin|US|ipv4|3.0.1.0".toList]

/-- The record before the flawed line. -/
def soundRecord : Record :=
  ⟨.arin, ⟨'U', 'S', rfl, rfl⟩, .ipv4, 3 * 2 ^ 24, .count 256, .allocated⟩

theorem lines_accounted_for_flawed :
    File.ofBytes (utf8 (joined '\n' flawedTexts)) =
        .error (.parse 5 (LineFlaw.recordFields 4).text) ∧
      ∀ other, File.ofBytes (Feed.firstLines (utf8 (joined '\n' flawedTexts)) 5 ++ 10 :: other) =
        .error (.parse 5 (LineFlaw.recordFields 4).text) := by
  have hlines : (Feed.ofBytes (utf8 (joined '\n' flawedTexts ++ []))).lines = flawedTexts.map .ok :=
    Feed.lines_utf8_joined (by decide) (by decide) (.inl rfl)
  have hsignificant : significantLines (flawedTexts.map .ok) =
      [⟨2, .ok "2|arin|1|2|1|1|-0400".toList⟩,
        ⟨4, .ok "arin|US|ipv4|3.0.0.0|256|19881201|allocated".toList⟩,
        ⟨5, .ok "arin|US|ipv4|3.0.1.0".toList⟩] := by cbv
  have hheader : Header.read "2|arin|1|2|1|1|-0400".toList =
      .ok ⟨"2", .arin, "1", 2, "1", "1", "-0400"⟩ := by cbv
  have hrecord : Item.read "arin|US|ipv4|3.0.0.0|256|19881201|allocated".toList =
      .ok (.record soundRecord) := rfl
  have hflaw : Item.read "arin|US|ipv4|3.0.1.0".toList = .error (.recordFields 4) := rfl
  have hfault : File.ofBytes (utf8 (joined '\n' flawedTexts)) =
      .error (.parse 5 (LineFlaw.recordFields 4).text) := by
    rw [List.append_nil] at hlines
    rw [File.ofBytes, File.ofFeed, hlines, File.ofLines, hsignificant]
    simp only [NumberedLine.read, hheader, hrecord, hflaw, List.mapM_cons, bind, Except.bind]
  exact ⟨hfault, ((lines_accounted_for _).2.2.1 5 _ (by decide) hfault).2⟩

end Delegation.Statistics
