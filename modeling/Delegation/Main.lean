import Delegation.Command.Run

/-!
# The program

Reads the files that a command needs, runs the command, and writes what it leaves behind.
Everything that is decided is decided by `Request.plan`.
-/

namespace Delegation.Command

open Delegation.Statistics

/-- The code of the system for an error. -/
def systemCode : IO.Error → Nat
  | .noFileOrDirectory _ code _ => code.toNat
  | .inappropriateType _ code _ => code.toNat
  | .permissionDenied _ code _ => code.toNat
  | .invalidArgument _ code _ => code.toNat
  | _ => 0

/-- Why a file could not be read or written. -/
def problemOf (e : IO.Error) : StorageProblem :=
  match systemCode e with
  | 2 => .notFound
  | 13 => .other "Permission denied (os error 13)"
  | 20 => .notDirectory
  | 21 => .isDirectory
  | 36 => .nameTooLong
  | _ => .other (toString e)

/-- What reading a path yields.  A directory is opened, and fails when it is read. -/
def readFromDisk (path : String) : IO (Except StorageProblem Feed) := do
  try
    let bytes ← IO.FS.readBinFile path
    return .ok (Feed.ofBytes bytes.toList)
  catch e =>
    match problemOf e with
    | .isDirectory => return .ok ⟨[], some .isDirectory⟩
    | problem => return .error problem

/-- The statistics files that a command reads. -/
def Request.files : Request → List String
  | .build inputs _ _ _ _ => inputs
  | .lookup _ inputs _ _ => inputs
  | .cidr _ _ => []

/-- The file with the country table of a command. -/
def Request.countryFile? : Request → Option String
  | .build _ _ _ countries _ => countries
  | .lookup _ _ countries _ => countries
  | .cidr _ _ => none

/-- The inputs of a command, read from disk. -/
def Request.load (request : Request) : IO Inputs := do
  let mut contents := []
  for path in request.countryFile?.toList ++ request.files do
    contents := (path, ← readFromDisk path) :: contents
  let input ←
    if request.files.contains "-" then (← IO.getStdin).readBinToEnd else pure ByteArray.empty
  let read := fun path => (contents.lookup path).getD (.error .notFound)
  return ⟨⟨fun path => (read path).map (Feed.unpacked path), input.toList⟩, read⟩

/-- Prints an outcome. -/
def Outcome.print (o : Outcome) : IO UInt32 := do
  IO.print o.stdout
  IO.eprint o.stderr
  return o.code.toUInt32

/-- Carries a plan out on disk. -/
def Plan.perform : Plan → IO UInt32
  | .finish o => o.print
  | .save path text o => do
    try
      IO.FS.writeFile path text
      o.print
    catch e => (saveFailure path (problemOf e).text).print

end Delegation.Command

/-- Runs the program. -/
def main (arguments : List String) : IO UInt32 := do
  match Delegation.Command.Request.read arguments with
  | .error stop => stop.outcome.print
  | .ok request => (request.plan (← request.load)).perform
