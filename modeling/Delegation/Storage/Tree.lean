import Delegation.Gzip.Member
import Delegation.Storage.Path

/-!
# File trees

A file tree is the content of one directory.  It holds files only; a directory exists where a
file lies below it.  Paths are resolved name by name from the top of the tree, and a path
that leaves the tree finds nothing outside.
-/

namespace Delegation

open Delegation.Text

/-- What reading a file yields when it is unpacked if its path says so. -/
def Feed.unpacked (path : String) (feed : Feed) : Feed :=
  if Path.isGzip path && feed.problem.isNone then Gzip.feed feed.bytes else feed

/-- The files of a directory, by the names on the way to them. -/
structure FileTree where
  files : List (List (List Char) × List UInt8)
  deriving DecidableEq, Repr

namespace FileTree

/-- What a path leads to. -/
inductive Node where
  | file (bytes : List UInt8)
  | directory (path : List (List Char))
  /-- A directory above the top of the tree. -/
  | outside

/-- The tree without files. -/
def empty : FileTree := ⟨[]⟩

/-- The bytes of the file at a place. -/
def file? (t : FileTree) (place : List (List Char)) : Option (List UInt8) := t.files.lookup place

/-- Whether there is a directory at a place. -/
def isDirectory (t : FileTree) (place : List (List Char)) : Bool :=
  place.isEmpty || t.files.any fun (path, _) => place.isPrefixOf path && path != place

/-- Puts a file at a place, instead of the one that was there. -/
def put (t : FileTree) (place : List (List Char)) (bytes : List UInt8) : FileTree :=
  ⟨(place, bytes) :: t.files.filter (·.1 != place)⟩

/-- The tree with the given files. -/
def ofFiles (files : List (String × List UInt8)) : FileTree :=
  files.foldl (fun t (path, bytes) => t.put (Path.components path.toList) bytes) empty

/-- The longest name, in bytes. -/
def maxNameLength : Nat := 255

/-- The longest path, in bytes. -/
def maxPathLength : Nat := 4095

/-- The number of bytes of a name or path. -/
def byteLength (s : List Char) : Nat := s.foldl (fun n c => n + c.utf8Size) 0

/-- Follows one name of a path. -/
def step (t : FileTree) (node : Node) (name : List Char) : Except StorageProblem Node :=
  match node with
  | .file _ => .error .notDirectory
  | .outside =>
    if name = [] ∨ name = ['.'] ∨ name = ['.', '.'] then .ok .outside
    else if maxNameLength < byteLength name then .error .nameTooLong
    else .error .notFound
  | .directory place =>
    if name = [] ∨ name = ['.'] then .ok (.directory place)
    else if name = ['.', '.'] then
      .ok (if place.isEmpty then .outside else .directory place.dropLast)
    else if maxNameLength < byteLength name then .error .nameTooLong
    else match t.file? (place ++ [name]) with
      | some bytes => .ok (.file bytes)
      | none =>
        if t.isDirectory (place ++ [name]) then .ok (.directory (place ++ [name]))
        else .error .notFound

/-- Accepts the paths that can be resolved at all. -/
def checkPath (path : List Char) : Except StorageProblem Unit :=
  if '\x00' ∈ path then .error .nullInName
  else if path = [] then .error .notFound
  else if maxPathLength < byteLength path then .error .nameTooLong
  else .ok ()

/-- Where a path starts: a path that begins with a slash starts outside. -/
def origin (path : List Char) : Node :=
  if path.head? = some '/' then .outside else .directory []

/-- What a path leads to. -/
def resolve (t : FileTree) (path : List Char) : Except StorageProblem Node := do
  checkPath path
  (pieces '/' path).foldlM t.step (origin path)

/-- What reading a path yields. -/
def read (t : FileTree) (path : String) : Except StorageProblem Feed :=
  (t.resolve path.toList).map fun
    | .file bytes => Feed.ofBytes bytes
    | _ => ⟨[], some .isDirectory⟩

/-- What reading a path yields when gzip files are unpacked. -/
def openFeed (t : FileTree) (path : String) : Except StorageProblem Feed :=
  (t.read path).map (Feed.unpacked path)

/-- Writes a file, which is made if it is missing, in a directory that exists.  With a slash
behind its last name a path can only mean a directory, whether there is one or not. -/
def write (t : FileTree) (path : String) (bytes : List UInt8) : Except StorageProblem FileTree :=
  let path := path.toList
  let names := pieces '/' (path.reverse.dropWhile (· == '/')).reverse
  let name := names.getLast?.getD []
  match checkPath path with
  | .error problem => .error problem
  | .ok () =>
    match names.dropLast.foldlM t.step (origin path) with
    | .error problem => .error problem
    | .ok (.file _) => .error .notDirectory
    | .ok parent =>
      if path.getLast? = some '/' then .error .isDirectory
      else match t.step parent name, parent with
        | .ok (.file _), .directory place => .ok (t.put (place ++ [name]) bytes)
        | .error .notFound, .directory place => .ok (t.put (place ++ [name]) bytes)
        | .ok _, _ => .error .isDirectory
        | .error problem, _ => .error problem

end FileTree

end Delegation
