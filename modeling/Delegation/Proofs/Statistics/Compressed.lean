import Delegation.Proofs.Gzip.Stored
import Delegation.Proofs.Statistics.Layout
import Delegation.Statistics.Reading
import Delegation.Storage.Tree

/-!
# Reading compressed files

A gzip file is read like a plain file with the content of its first member (`load_eq_of_members`).
So a file of one member is read like its content, but the contents of further members are lost: if
the first content ends with a line, what is read of the file is the beginning of all that is in it,
and all of it only if no line of the other contents counts.

Main result: `load_gzip`.
-/

namespace Delegation.Statistics

open Gzip Sequence

variable {t t' : FileTree} {path plain : String} {input bytes : List UInt8} {m : Member}
  {ms : List Member} {file whole : File}

/-! ## One path -/

lemma load_eq_of_openFeed {feed : Feed} (h : t.openFeed path = .ok feed) :
    load ⟨t.openFeed, input⟩ path = Opened.read ⟨path, .ok feed⟩ := by
  rw [load]
  exact congrArg (fun feed => Opened.read ⟨path, feed⟩) h

lemma read_eq_ok_iff_ofBytes :
    Opened.read ⟨path, .ok (Feed.ofBytes bytes)⟩ = .ok file ↔ File.ofBytes bytes = .ok file := by
  rw [Opened.read, File.ofBytes]
  cases h : File.ofFeed (Feed.ofBytes bytes) <;> simp [h]

/-- A path without the ending of gzip files is read as it is. -/
lemma openFeed_plain (hplain : Path.isGzip plain = false)
    (hread : t.read plain = .ok (Feed.ofBytes bytes)) :
    t.openFeed plain = .ok (Feed.ofBytes bytes) := by
  rw [FileTree.openFeed, hread]
  refine congrArg Except.ok (if_neg ?_)
  rw [hplain]
  exact Bool.false_ne_true

lemma load_plain_eq_ok_iff (hplain : Path.isGzip plain = false)
    (hread : t.read plain = .ok (Feed.ofBytes bytes)) :
    load ⟨t.openFeed, input⟩ plain = .ok file ↔ File.ofBytes bytes = .ok file := by
  rw [load_eq_of_openFeed (openFeed_plain hplain hread), read_eq_ok_iff_ofBytes]

/-- Only the first member of a gzip file is read. -/
lemma load_eq_of_members (hgzip : Path.isGzip path = true)
    (hread : t.read path = .ok (Feed.ofBytes ((m :: ms).flatMap Member.bytes))) :
    load ⟨t.openFeed, input⟩ path = Opened.read ⟨path, .ok (Feed.ofBytes m.content)⟩ := by
  have hopen : t.openFeed path = .ok (Feed.ofBytes m.content) := by
    rw [FileTree.openFeed, hread]
    refine congrArg Except.ok ((if_pos ?_).trans (feed_append m (ms.flatMap Member.bytes)))
    rw [hgzip]
    rfl
  exact load_eq_of_openFeed hopen

/-! ## Beginnings of files -/

/-- A file has what another one begins with. -/
structure File.Begins (file whole : File) : Prop where
  header_eq : file.header = whole.header
  summaries : file.summaries <+: whole.summaries
  records : file.records <+: whole.records
  asnCount : file.asnCount ≤ whole.asnCount

lemma File.begins_ofItems (header : Header) (items more : List Item) :
    (File.ofItems header items).Begins (File.ofItems header (items ++ more)) := by
  refine ⟨rfl, ?_, ?_, ?_⟩
  · exact (List.prefix_append items more).filterMap _
  · exact (List.prefix_append items more).filterMap _
  · exact (List.prefix_append items more).sublist.countP_le

lemma File.length_ofItems (header : Header) (items : List Item) :
    (File.ofItems header items).summaries.length + (File.ofItems header items).records.length +
      (File.ofItems header items).asnCount = items.length := by
  induction items with
  | nil => rfl
  | cons item items ih =>
    rw [List.length_cons, ← ih]
    cases item <;> simp [File.ofItems] <;> omega

/-- Each item shows in its file. -/
lemma File.ofItems_append_eq_iff {header : Header} {items more : List Item} :
    File.ofItems header (items ++ more) = File.ofItems header items ↔ more = [] := by
  constructor
  · intro h
    have hlength := File.length_ofItems header (items ++ more)
    rw [h, File.length_ofItems, List.length_append] at hlength
    exact List.length_eq_zero_iff.mp (by omega)
  · rintro rfl
    rw [List.append_nil]

lemma significantTexts_append (lines more : List Feed.Line) :
    significantTexts (lines ++ more) = significantTexts lines ++ significantTexts more :=
  List.filterMap_append

section Lines

variable {lines more : List Feed.Line}

/-- If all lines of a file can be read, then so can its first lines, unless no text among them
counts. -/
lemma ofLines_of_append (hwhole : File.ofLines (lines ++ more) = .ok whole) :
    ((∀ file, File.ofLines lines ≠ .ok file) ∧ significantTexts more ≠ []) ∨
      ∃ header items others, File.ofLines lines = .ok (File.ofItems header items) ∧
        whole = File.ofItems header (items ++ others) ∧
        others.length = (significantTexts more).length := by
  obtain ⟨hvalid, version, rest, header, items, htexts, hheader, hitems, rfl⟩ :=
    ofLines_eq_ok_iff.mp hwhole
  rw [significantTexts_append] at htexts
  cases hlines : significantTexts lines with
  | nil =>
    rw [hlines, List.nil_append] at htexts
    refine .inl ⟨fun file hfile => ?_, by simp [htexts]⟩
    obtain ⟨-, _, _, _, _, htexts', -⟩ := ofLines_eq_ok_iff.mp hfile
    rw [hlines] at htexts'
    cases htexts'
  | cons version' texts =>
    rw [hlines, List.cons_append, List.cons.injEq] at htexts
    obtain ⟨rfl, rfl⟩ := htexts
    rw [List.mapM_append] at hitems
    obtain ⟨first, hfirst, hmore⟩ := bind_eq_ok_iff.mp hitems
    obtain ⟨others, hothers, hsum⟩ := bind_eq_ok_iff.mp hmore
    obtain rfl := Except.ok.inj hsum
    refine .inr ⟨header, first, others, ofLines_eq_ok_iff.mpr ⟨?_, ?_⟩, rfl,
      length_of_mapM hothers⟩
    · exact fun line hline => hvalid line (List.mem_append_left more hline)
    · exact ⟨version', texts, header, first, hlines, hheader, hfirst, rfl⟩

/-- What is read of the first lines of a file is its beginning. -/
lemma begins_of_ofLines (hfile : File.ofLines lines = .ok file)
    (hwhole : File.ofLines (lines ++ more) = .ok whole) : file.Begins whole := by
  rcases ofLines_of_append hwhole with ⟨hnone, -⟩ | ⟨header, items, others, hlines, rfl, -⟩
  · exact absurd hfile (hnone file)
  · obtain rfl := Except.ok.inj (hfile.symm.trans hlines)
    exact File.begins_ofItems header items others

/-- The first lines of a file are all of it if no other line counts. -/
lemma ofLines_eq_ok_iff_of_append (hwhole : File.ofLines (lines ++ more) = .ok whole) :
    File.ofLines lines = .ok whole ↔ significantTexts more = [] := by
  rcases ofLines_of_append hwhole with
    ⟨hnone, hmore⟩ | ⟨header, items, others, hlines, rfl, hothers⟩
  · exact iff_of_false (hnone whole) hmore
  · rw [hlines, Except.ok.injEq, eq_comm, File.ofItems_append_eq_iff, ← List.length_eq_zero_iff,
      hothers, List.length_eq_zero_iff]

end Lines

/-- A gzip file is read like a plain file with the content of its first member, and if it has only
one member, then like its whole content.  Of more members, if the content of the first one ends with
a line, the beginning of all contents is read, and this is all of them exactly if the others have no
line that counts. -/
theorem load_gzip (input input' : List UInt8) (hgzip : Path.isGzip path = true)
    (hread : t.read path = .ok (Feed.ofBytes ((m :: ms).flatMap Member.bytes)))
    (hplain : Path.isGzip plain = false)
    (hread' : t'.read plain = .ok (Feed.ofBytes ((m :: ms).flatMap Member.content))) :
    (∀ file, load ⟨t.openFeed, input⟩ path = .ok file ↔ File.ofBytes m.content = .ok file) ∧
    (ms = [] → ∀ file,
      load ⟨t.openFeed, input⟩ path = .ok file ↔ load ⟨t'.openFeed, input'⟩ plain = .ok file) ∧
    (m.content.getLast? = some 10 → ∀ whole, load ⟨t'.openFeed, input'⟩ plain = .ok whole →
      (∀ file, load ⟨t.openFeed, input⟩ path = .ok file → file.Begins whole) ∧
      (load ⟨t.openFeed, input⟩ path = .ok whole ↔
        significantTexts (Feed.ofBytes (ms.flatMap Member.content)).lines = [])) := by
  have hfirst : ∀ file,
      load ⟨t.openFeed, input⟩ path = .ok file ↔ File.ofBytes m.content = .ok file := by
    intro file
    rw [load_eq_of_members hgzip hread, read_eq_ok_iff_ofBytes]
  refine ⟨hfirst, ?_, ?_⟩
  · rintro rfl file
    rw [hfirst, load_plain_eq_ok_iff hplain hread', List.flatMap_singleton]
  · intro hline whole hwhole
    rw [load_plain_eq_ok_iff hplain hread', List.flatMap_cons, File.ofBytes, File.ofFeed,
      Feed.lines_append_of_getLast? hline] at hwhole
    refine ⟨fun file hfile => ?_, ?_⟩
    · exact begins_of_ofLines ((hfirst file).mp hfile) hwhole
    · rw [hfirst]
      exact ofLines_eq_ok_iff_of_append hwhole

/-! ## A file in two parts -/

/-- A statistics file of one record. -/
def firstText : String := "2|apnic|1|2|1|1|+1000\napnic||ipv4|1.0.16.0|4096||available\n"

/-- The line of another record. -/
def secondText : String := "apnic||ipv4|1.0.32.0|4096||available\n"

/-- What is read from the first text. -/
def firstFile : File :=
  ⟨⟨"2", .apnic, "1", 2, "1", "1", "+1000"⟩, [],
    [⟨.apnic, .unknown, .ipv4, 0x01001000, .count 4096, .available⟩], 0⟩

/-- What is read from both texts. -/
def wholeFile : File :=
  { firstFile with
    records := firstFile.records ++
      [⟨.apnic, .unknown, .ipv4, 0x01002000, .count 4096, .available⟩] }

lemma ofText_firstText : File.ofText firstText = .ok firstFile := by
  refine ofText_eq_ok_iff.mpr ⟨"2|apnic|1|2|1|1|+1000".toList,
    ["apnic||ipv4|1.0.16.0|4096||available".toList], _, _, by cbv, by cbv, by rfl, ?_⟩
  rfl

lemma ofText_wholeText : File.ofText (firstText ++ secondText) = .ok wholeFile := by
  refine ofText_eq_ok_iff.mpr ⟨"2|apnic|1|2|1|1|+1000".toList,
    ["apnic||ipv4|1.0.16.0|4096||available".toList,
      "apnic||ipv4|1.0.32.0|4096||available".toList], _, _, by cbv, by cbv, by rfl, ?_⟩
  rfl

/-- The member with the first text. -/
def firstMember : Member := .stored (encodeUtf8 firstText) (by rw [encodeUtf8_eq]; decide)

/-- The member with the second text. -/
def secondMember : Member := .stored (encodeUtf8 secondText) (by rw [encodeUtf8_eq]; decide)

/-- A gzip file of two members, and a plain file with their contents. -/
def partsTree : FileTree :=
  ⟨[(["all.gz".toList], [firstMember, secondMember].flatMap Member.bytes),
    (["all".toList], [firstMember, secondMember].flatMap Member.content)]⟩

lemma read_partsTree_gzip :
    partsTree.read "all.gz" =
      .ok (Feed.ofBytes ([firstMember, secondMember].flatMap Member.bytes)) := rfl

lemma read_partsTree_plain :
    partsTree.read "all" =
      .ok (Feed.ofBytes ([firstMember, secondMember].flatMap Member.content)) := rfl

lemma ofBytes_parts :
    File.ofBytes ([firstMember, secondMember].flatMap Member.content) = .ok wholeFile := by
  have hcontents : [firstMember, secondMember].flatMap Member.content =
      encodeUtf8 (firstText ++ secondText) := by
    rw [encodeUtf8_eq, String.toList_append, utf8_append, ← encodeUtf8_eq, ← encodeUtf8_eq,
      List.flatMap_cons, List.flatMap_singleton]
    rfl
  rw [hcontents]
  exact ofText_wholeText

/-- The beginning of both contents is read. -/
theorem load_gzip_begins :
    Path.isGzip "all.gz" = true ∧ Path.isGzip "all" = false ∧
      load ⟨partsTree.openFeed, []⟩ "all.gz" = .ok firstFile ∧
      load ⟨partsTree.openFeed, []⟩ "all" = .ok wholeFile ∧ firstFile.Begins wholeFile := by
  have hgzip : Path.isGzip "all.gz" = true := by cbv
  have hplain : Path.isGzip "all" = false := by cbv
  have hline : firstMember.content.getLast? = some 10 := by
    show (encodeUtf8 firstText).getLast? = some 10
    rw [encodeUtf8_eq]
    decide
  obtain ⟨hfirst, -, hmore⟩ := load_gzip [] [] hgzip read_partsTree_gzip hplain
    read_partsTree_plain
  have hfile := (hfirst firstFile).mpr ofText_firstText
  have hwhole : load ⟨partsTree.openFeed, []⟩ "all" = .ok wholeFile :=
    (load_plain_eq_ok_iff hplain read_partsTree_plain).mpr ofBytes_parts
  exact ⟨hgzip, hplain, hfile, hwhole, (hmore hline wholeFile hwhole).1 firstFile hfile⟩

/-- The record of the second member is lost. -/
theorem load_gzip_ne_plain :
    Path.isGzip "all.gz" = true ∧ Path.isGzip "all" = false ∧
      partsTree.read "all.gz" =
        .ok (Feed.ofBytes ([firstMember, secondMember].flatMap Member.bytes)) ∧
      partsTree.read "all" =
        .ok (Feed.ofBytes ([firstMember, secondMember].flatMap Member.content)) ∧
      load ⟨partsTree.openFeed, []⟩ "all" = .ok wholeFile ∧
      load ⟨partsTree.openFeed, []⟩ "all.gz" ≠ .ok wholeFile := by
  have hgzip : Path.isGzip "all.gz" = true := by cbv
  have hplain : Path.isGzip "all" = false := by cbv
  refine ⟨hgzip, hplain, read_partsTree_gzip, read_partsTree_plain,
    (load_plain_eq_ok_iff hplain read_partsTree_plain).mpr ofBytes_parts, fun hload => ?_⟩
  rw [load_eq_of_members hgzip read_partsTree_gzip, read_eq_ok_iff_ofBytes] at hload
  have hfile : firstFile = wholeFile := Except.ok.inj (ofText_firstText.symm.trans hload)
  cases congrArg (fun file => file.records.length) hfile

end Delegation.Statistics
