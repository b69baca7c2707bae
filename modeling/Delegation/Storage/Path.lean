import Delegation.Text.Pieces

/-!
# Paths

A path is a list of names with slashes between them.  Empty names and `.` lead nowhere.
-/

namespace Delegation.Path

open Delegation.Text

/-- The names of a path, without those that lead nowhere. -/
def components (path : List Char) : List (List Char) :=
  (pieces '/' path).filter fun name => name ≠ [] ∧ name ≠ ['.']

/-- The last name of a path, unless it leads back to the parent. -/
def fileName? (path : List Char) : Option (List Char) :=
  (components path).getLast?.filter (· ≠ ['.', '.'])

/-- What stands behind the last point of a name, if something stands before it. -/
def extension? (name : List Char) : Option (List Char) :=
  let backwards := name.reverse
  let extension := backwards.takeWhile (· != '.')
  match backwards.drop extension.length with
  | [] => none
  | [_] => none
  | _ => some extension.reverse

/-- Whether a path names a gzip file: its extension is `gz` in letters of either case. -/
def isGzip (path : String) : Bool :=
  match (fileName? path.toList).bind extension? with
  | some extension => extension.map Char.toLower == ['g', 'z']
  | none => false

end Delegation.Path
