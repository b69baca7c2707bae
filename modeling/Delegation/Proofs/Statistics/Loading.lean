import Delegation.Proofs.Build.Workers
import Delegation.Proofs.Storage.Lines
import Delegation.Statistics.Reading

/-!
# Reading many files

Files are read side by side by workers that write to one journal, each of which hands over what
is in its file, or why it cannot be read.  The workers may do so in any order, and none of them
stops because another one has failed; the results are put together only when all are there
(`LoadedSideBySide`).

The standard input is not among the files: what a worker gets from it depends on who reads first.
Without it a path leads to the same content whenever it is opened (`opened_of_not_mem`), and each
file can be taken by itself.

Main result: `loadAll_outcome`.
-/

namespace Delegation.Statistics

open Delegation.Text Sequence Relation

variable {source : Source} {paths : List String} {outcome : Except Fault (List Record)}
  {journal : List Note}

/-- The records of files one after another, or the fault of the first one that has any. -/
def gather (results : List (Except Fault File)) : Except Fault (List Record) :=
  (results.mapM id).map fun files => files.flatMap (·.records)

/-- An outcome and notes of reading files side by side. -/
inductive LoadedSideBySide (source : Source) (paths : List String) :
    Except Fault (List Record) → List Note → Prop where
  | gathered {p : Pool String (Except Fault File)} {results : List (Except Fault File)}
      (hrun : ReflTransGen (Pool.Step (load source)) (Pool.start (loadNotes source) paths) p)
      (hends : p.Ends results) : LoadedSideBySide source paths (gather results) p.journal

/-! ## One file at a time -/

/-- Away from the standard input each path is opened by itself. -/
lemma opened_of_not_mem (hpaths : "-" ∉ paths) :
    source.opened paths = paths.map fun path => ⟨path, source.openPath path⟩ := by
  rw [Source.opened]
  generalize source.input = input
  induction paths with
  | nil => rfl
  | cons path paths ih =>
    obtain ⟨hpath, hpaths⟩ := not_or.mp (List.mem_cons.not.mp hpaths)
    rw [Source.opened.go, if_neg (Ne.symm hpath), ih hpaths, List.map_cons]

/-- The files are read one by one in the order of their paths. -/
lemma loadAll_eq (hpaths : "-" ∉ paths) :
    loadAll source paths =
      (paths.mapM (load source)).map fun files => files.flatMap (·.records) := by
  rw [loadAll, opened_of_not_mem hpaths, List.mapM_map]
  rfl

lemma loadAllNotes_eq (hpaths : "-" ∉ paths) :
    loadAllNotes source paths = paths.flatMap (loadNotes source) := by
  rw [loadAllNotes, opened_of_not_mem hpaths, List.flatMap_map]
  rfl

/-- All records are there exactly if every file can be read: those of each file as often as its
path is listed, in the order of the paths. -/
theorem loadAll_eq_ok_iff (hpaths : "-" ∉ paths) {records : List Record} :
    loadAll source paths = .ok records ↔
      ∃ files, List.Forall₂ (fun path file => load source path = .ok file) paths files ∧
        files.flatMap (·.records) = records := by
  simp only [loadAll_eq hpaths, map_eq_ok_iff, mapM_eq_ok_iff]

lemma exists_loadAll_eq_ok_iff (hpaths : "-" ∉ paths) :
    (∃ records, loadAll source paths = .ok records) ↔
      ∀ path ∈ paths, ∃ file, load source path = .ok file := by
  rw [← exists_mapM_eq_ok_iff, loadAll_eq hpaths]
  cases paths.mapM (load source) <;> simp [Except.map]

/-- The fault is the one of the first path that cannot be read. -/
theorem loadAll_eq_error_iff (hpaths : "-" ∉ paths) {fault : Fault} :
    loadAll source paths = .error fault ↔
      ∃ before path after, paths = before ++ path :: after ∧
        (∀ earlier ∈ before, ∃ file, load source earlier = .ok file) ∧
        load source path = .error fault := by
  rw [loadAll_eq hpaths, map_eq_error_iff, mapM_eq_error_iff]

/-! ## Side by side -/

/-- Whatever the workers do first, they end with the result of reading the files in turn. -/
lemma LoadedSideBySide.eq_and_perm (hpaths : "-" ∉ paths)
    (h : LoadedSideBySide source paths outcome journal) :
    outcome = loadAll source paths ∧ journal.Perm (loadAllNotes source paths) := by
  cases h with
  | gathered hrun hends =>
    obtain ⟨rfl, hnotes⟩ := Pool.ends_of_run hrun hends
    rw [gather, List.mapM_map, loadAll_eq hpaths, loadAllNotes_eq hpaths]
    exact ⟨rfl, hnotes⟩

/-- Workers can always bring the reading to its end. -/
lemma exists_loadedSideBySide (source : Source) (paths : List String) :
    ∃ outcome journal, LoadedSideBySide source paths outcome journal := by
  obtain ⟨p, results, hrun, hends⟩ := Pool.exists_ends (load source)
    (Pool.start (loadNotes source) paths)
  exact ⟨_, _, .gathered hrun hends⟩

/-- Reading files side by side ends in one way, whatever the order in which the files are done.
It succeeds if each file by itself can be read, and the records are then those of the files in the
order of their paths.  Otherwise the fault is the one of the first path that cannot be read. -/
theorem loadAll_outcome (source : Source) {paths : List String} (hpaths : "-" ∉ paths) :
    (∃ outcome journal, LoadedSideBySide source paths outcome journal) ∧
      ∀ outcome journal, LoadedSideBySide source paths outcome journal →
        outcome = loadAll source paths ∧ journal.Perm (loadAllNotes source paths) ∧
        ((∃ records, outcome = .ok records) ↔
          ∀ path ∈ paths, ∃ file, load source path = .ok file) ∧
        (∀ records, outcome = .ok records ↔
          ∃ files, List.Forall₂ (fun path file => load source path = .ok file) paths files ∧
            files.flatMap (·.records) = records) ∧
        ∀ fault, outcome = .error fault ↔
          ∃ before path after, paths = before ++ path :: after ∧
            (∀ earlier ∈ before, ∃ file, load source earlier = .ok file) ∧
            load source path = .error fault := by
  refine ⟨exists_loadedSideBySide source paths, fun outcome journal h => ?_⟩
  obtain ⟨rfl, hnotes⟩ := h.eq_and_perm hpaths
  exact ⟨rfl, hnotes, exists_loadAll_eq_ok_iff hpaths, fun _ => loadAll_eq_ok_iff hpaths,
    fun _ => loadAll_eq_error_iff hpaths⟩

/-- The lines of two files that can be read, and of one that breaks off. -/
def shelfLines : String → Option (List (List Char))
  | "north" => some ["2|apnic|1|1|1|1|+1000".toList,
      "apnic||ipv4|1.0.16.0|4096||available".toList]
  | "south" => some ["2|lacnic|1|1|1|1|-0300".toList,
      "lacnic|ZZ|ipv6|2800::|12||reserved".toList]
  | "torn" => some ["2|arin".toList]
  | _ => none

/-- A source with the files of `shelfLines` and no others. -/
def shelf : Source where
  openPath path := match shelfLines path with
    | some lines => .ok (Feed.ofBytes (utf8 (joined '\n' lines ++ ['\n'])))
    | none => .error .notFound
  input := []

/-- The record in the north. -/
def northRecord : Record :=
  ⟨.apnic, .unknown, .ipv4, 2 ^ 24 + 2 ^ 12, .count 4096, .available⟩

/-- The record in the south. -/
def southRecord : Record :=
  ⟨.lacnic, .unknown, .ipv6, 0x2800 * 2 ^ 112, .length 12, .reserved⟩

lemma load_shelf {path : String} {version line : List Char} {header : Header} {r : Record}
    (hpath : shelfLines path = some [version, line])
    (hfree : ∀ text ∈ [version, line], '\n' ∉ text)
    (hlines : significantLines [.ok version, .ok line] = [⟨1, .ok version⟩, ⟨2, .ok line⟩])
    (hheader : Header.read version = .ok header) (hrecord : Item.read line = .ok (.record r)) :
    load shelf path = .ok ⟨header, [], [r], 0⟩ := by
  have hne : ∀ text ∈ [version, line], text ≠ [] := by
    rintro text htext rfl
    rcases List.mem_pair.mp htext with rfl | rfl
    · cases hheader
    · cases hrecord
  have hread := Feed.lines_utf8_joined hne hfree (.inr ⟨rfl, List.cons_ne_nil _ _⟩)
  rw [load, Opened.read, shelf]
  simp only [hpath, File.ofFeed, hread, File.ofLines, List.map_cons, List.map_nil, hlines,
    NumberedLine.read, hheader, hrecord, List.mapM_cons, List.mapM_nil, bind, Except.bind, pure,
    Except.pure]
  rfl

theorem loadAll_outcome_listed :
    "-" ∉ ["north", "south", "north"] ∧ "-" ∉ ["north", "lost", "torn"] ∧
      (∃ outcome journal,
        LoadedSideBySide shelf ["north", "south", "north"] outcome journal ∧
        outcome = .ok [northRecord, southRecord, northRecord]) ∧
      ∀ outcome journal, LoadedSideBySide shelf ["north", "lost", "torn"] outcome journal →
        outcome = .error (.io "lost: No such file or directory (os error 2)") := by
  have hnorth : load shelf "north" =
      .ok ⟨⟨"2", .apnic, "1", 1, "1", "1", "+1000"⟩, [], [northRecord], 0⟩ :=
    load_shelf rfl (by decide) (by cbv) (by cbv) rfl
  have hsouth : load shelf "south" =
      .ok ⟨⟨"2", .lacnic, "1", 1, "1", "1", "-0300"⟩, [], [southRecord], 0⟩ :=
    load_shelf rfl (by decide) (by cbv) (by cbv) rfl
  have hlost : load shelf "lost" = .error (.io "lost: No such file or directory (os error 2)") :=
    rfl
  have hread : "-" ∉ ["north", "south", "north"] := by decide
  have hfail : "-" ∉ ["north", "lost", "torn"] := by decide
  obtain ⟨⟨outcome, journal, hloaded⟩, hall⟩ := loadAll_outcome shelf hread
  refine ⟨hread, hfail, ⟨outcome, journal, hloaded, ?_⟩, fun outcome journal h => ?_⟩
  · obtain ⟨-, -, -, hok, -⟩ := hall outcome journal hloaded
    exact (hok _).mpr ⟨_, .cons hnorth (.cons hsouth (.cons hnorth .nil)), rfl⟩
  · obtain ⟨-, -, -, -, herror⟩ := (loadAll_outcome shelf hfail).2 outcome journal h
    refine (herror _).mpr ⟨["north"], "lost", ["torn"], rfl, fun earlier hearlier => ?_, hlost⟩
    rw [List.mem_singleton.mp hearlier]
    exact ⟨_, hnorth⟩

end Delegation.Statistics
