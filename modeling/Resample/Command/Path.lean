/-!
# Paths

Names of files and directories, as texts of components with slashes between them. Repeated slashes,
slashes at the end and components `.` after the first one do not count.
-/

namespace Resample.Path

/-- Splits off what a path begins with before its components: the root, or a component `.`. -/
def lead (path : List Char) : List Char × List Char :=
  match path with
  | '/' :: rest => (['/'], rest)
  | ['.'] => (['.'], [])
  | '.' :: '/' :: rest => (['.'], '/' :: rest)
  | _ => ([], path)

/-- Components in reverse, without the slashes and the components `.` at their end. -/
def dropTrailing : List Char → List Char
  | '/' :: rest => dropTrailing rest
  | '.' :: '/' :: rest => dropTrailing rest
  | ['.'] => []
  | reversed => reversed

/-- What a path begins with, and its components in reverse. -/
def parts (path : String) : List Char × List Char :=
  let (start, rest) := lead path.toList
  (start, dropTrailing rest.reverse)

/-- The path without its last component; none of the empty path and of the root. -/
def parent? (path : String) : Option String :=
  let (start, reversed) := parts path
  -- without components: the root has no parent, and that of `.` is the empty path
  if reversed.isEmpty then if start = ['.'] then some "" else none
  else
    let above := dropTrailing (reversed.dropWhile (· ≠ '/'))
    some (String.ofList (start ++ above.reverse))

/-- The last component, unless that leads upwards. -/
def fileName? (path : String) : Option (List Char) :=
  let name := ((parts path).2.takeWhile (· ≠ '/')).reverse
  if name.isEmpty || name = ['.', '.'] then none else some name

/-- What follows the last dot of the last component, in lower case. A dot at its start does not
count. -/
def extension? (path : String) : Option String := do
  let reversed := (← fileName? path).reverse
  let ending := reversed.takeWhile (· ≠ '.')
  -- a name that is only a dot and letters has no extension
  let stem := (reversed.dropWhile (· ≠ '.')).drop 1
  if stem.isEmpty then none
  else return String.ofList (ending.reverse.map Char.toLower)

/-- A name inside a directory. -/
def join (directory name : String) : String :=
  if directory.toList.getLast? = some '/' then directory ++ name else directory ++ "/" ++ name

/-- The directory of a path, if the path names one. -/
def directory? (path : String) : Option String :=
  (parent? path).filter fun above => !above.isEmpty

/-- Where the description of an output is written: beside it. -/
def metaPath (path : String) : String :=
  match directory? path with
  | some above => join above "meta.json"
  | none => "meta.json"

end Resample.Path
