import Delegation.Statistics.File

/-!
# Reading statistics files

Reads one or several statistics files by their paths.  Several files are independent of each
other: all of them are read, the records are put together in the order of the paths, and if
files fail, the fault is the one of the first path that failed.
-/

namespace Delegation.Statistics

/-- Where files are read from: what opening a path yields, and the standard input, which the
path `-` stands for. -/
structure Source where
  openPath : String → Except StorageProblem Feed
  input : List UInt8

/-- A path with what opening it yields. -/
structure Opened where
  path : String
  feed : Except StorageProblem Feed

/-- Opens paths in their order.  The standard input is read to its end where it is named
first, and nothing is left of it afterwards. -/
def Source.opened (source : Source) (paths : List String) : List Opened :=
  go source.input paths
where
  /-- Opens paths while `input` is what the standard input still holds. -/
  go (input : List UInt8) : List String → List Opened
    | [] => []
    | path :: paths =>
      if path = "-" then ⟨path, .ok (Feed.ofBytes input)⟩ :: go [] paths
      else ⟨path, source.openPath path⟩ :: go input paths

namespace Opened

/-- The fault of a file, which names its path where a line breaks the format. -/
def located (path : String) : Fault → Fault
  | .parse line detail => .parse line (path ++ ": " ++ detail)
  | fault => fault

/-- Reads a file. -/
def read (o : Opened) : Except Fault File :=
  match o.feed with
  | .error problem => .error (.io (o.path ++ ": " ++ problem.text))
  | .ok feed =>
    match File.ofFeed feed with
    | .ok file => .ok file
    | .error fault => .error (located o.path fault)

/-- The notes of reading a file. -/
def notes (o : Opened) : List Note :=
  match o.read with
  | .error _ => []
  | .ok file =>
    file.notes ++ [.info ("Read " ++ toString file.records.length ++ " records from " ++ o.path ++
      " (" ++ file.header.registry.name ++ ")")]

end Opened

/-- Reads the file with a path. -/
def load (source : Source) (path : String) : Except Fault File :=
  Opened.read ⟨path, source.openPath path⟩

/-- The notes of reading the file with a path. -/
def loadNotes (source : Source) (path : String) : List Note :=
  Opened.notes ⟨path, source.openPath path⟩

/-- Reads the files with the given paths and puts their records together. -/
def loadAll (source : Source) (paths : List String) : Except Fault (List Record) :=
  ((source.opened paths).mapM Opened.read).map fun files => files.flatMap (·.records)

/-- The notes of reading files: those of every file, also of the ones behind a failing one. -/
def loadAllNotes (source : Source) (paths : List String) : List Note :=
  (source.opened paths).flatMap Opened.notes

end Delegation.Statistics
