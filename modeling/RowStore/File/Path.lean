/-!
# Paths

The names that a path goes through.

Names are divided by slashes, and slashes in a row divide like one. The name "."
stays where it is and ".." goes one directory up. A path that starts with a slash
is read from the root, and any other from where its reader is. A slash at the end
asks for a directory, as "." does.

## Main definitions

* `Path.names`: The names of a path.
* `Path.steps`: The names to follow, the demand of a final slash included.
* `Path.join`: A path taken up from a directory.
* `Path.fileName`: The last name.
* `Path.key`: The names that tell two paths apart when neither leads anywhere.
-/

namespace RowStore

namespace Path

/-- The parts of a text between slashes. -/
def parts : List Char → List (List Char)
  | [] => [[]]
  | c :: rest =>
    if c = '/' then [] :: parts rest
    else
      match parts rest with
      | [] => [[c]]
      | p :: ps => (c :: p) :: ps

/-- Whether a path starts with a slash. -/
def isAbsolute (path : String) : Bool := path.toList.head? = some '/'

/-- Whether a path ends with a slash. -/
def endsInSlash (path : String) : Bool := path.toList.getLast? = some '/'

/-- The names of a path. -/
def names (path : String) : List String :=
  ((parts path.toList).filter fun p => !p.isEmpty).map String.ofList

/-- The names to follow. -/
def steps (path : String) : List String :=
  if endsInSlash path then names path ++ ["."] else names path

/-- Whether a path holds a character that no file system takes. -/
def hasZero (path : String) : Bool := path.toList.contains '\x00'

/-- Whether a path is longer than any path may be that an operation is given. -/
def isTooLong (path : String) : Bool := 4095 < path.utf8ByteSize

/-- A path taken up from a directory, unless it starts with a slash itself. -/
def join (dir path : String) : String :=
  if isAbsolute path then path
  else if endsInSlash dir then dir ++ path
  else dir ++ "/" ++ path

/-- The path of some names from the root. -/
def ofNames (names : List String) : String := "/" ++ String.intercalate "/" names

/-- The last name of a path. -/
def fileName (path : String) : String := (names path).getLast?.getD ""

/-- The names that tell two paths apart when neither leads anywhere. A "." counts only as the
    first name of a path that starts without a slash. -/
def key (path : String) : List String :=
  match names path with
  | [] => []
  | n :: rest =>
    let tail := rest.filter (· ≠ ".")
    if n = "." && isAbsolute path then tail else n :: tail

end Path

end RowStore
