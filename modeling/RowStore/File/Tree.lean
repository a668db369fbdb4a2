import RowStore.Assoc
import RowStore.Disk
import RowStore.Error
import RowStore.File.Path

/-!
# Directories

Which paths lead where.

Everything has a place, the names from the root to it, and a place holds a
directory or a file. To follow a path each name has to be found in the directory
reached so far; only then do "." and ".." mean anything. One place is where paths
are read from that do not start with a slash. A name may have 255 bytes at most,
and a path that an operation on files or directories is given may have 4095. The
length of a path does not matter where it is only followed, name by name, to the
place it leads to.

The same file can be reached by many paths but has one place. `identity` tells
files apart by their places, and paths that lead nowhere by their names.

## Main definitions

* `Node`: A directory or a file.
* `Tree`: What is at which place.
* `Tree.locate`: The place a path leads to.
* `Tree.checkPath`: The paths that operations take.
* `Tree.createFile`, `Tree.openFile`: The file at a path, made if need be or as it is.
* `Tree.makeDir`, `Tree.makeDirs`: A directory, and all directories on a path.
* `Tree.identity`: What a path stands for.
-/

namespace RowStore

/-- What is at a place. -/
inductive Node
  | directory
  | file (number : FileNo)
  deriving DecidableEq, Repr

/-- What is at which place, and the place that paths without a slash at their start are read from.
    The root is a directory. -/
structure Tree where
  nodes : Assoc (List String) Node := ∅
  nextFile : Nat := 0
  here : List String := []
  deriving DecidableEq, Repr, Inhabited

namespace Tree

/-- What is at a place. -/
def node? (t : Tree) (place : List String) : Option Node :=
  if place = [] then some .directory else t.nodes.get? place

/-- Refuse a place that is no directory. -/
def checkDirectory (t : Tree) (place : List String) : Except IoFault Unit :=
  match t.node? place with
  | some .directory => .ok ()
  | some (.file _) => .error .notADirectory
  | none => .error .notFound

/-- Follow names from a place. -/
def walk (t : Tree) (place : List String) : List String → Except IoFault (List String)
  | [] => if (t.node? place).isSome then .ok place else .error .notFound
  | name :: rest => do
    t.checkDirectory place
    if name = "." then t.walk place rest
    else if name = ".." then t.walk place.dropLast rest
    else if 255 < name.utf8ByteSize then .error .invalidFilename
    else t.walk (place ++ [name]) rest

/-- The names from the root to where the reading of a path begins. -/
def origin (t : Tree) (path : String) : List String :=
  if Path.isAbsolute path then [] else t.here

/-- The names of a path, from the root on. -/
def names (t : Tree) (path : String) : List String := t.origin path ++ Path.names path

/-- The place that a path leads to. -/
def locate (t : Tree) (path : String) : Except IoFault (List String) :=
  if Path.hasZero path then .error .invalidInput
  else if path = "" then .error .notFound
  else t.walk [] (t.origin path ++ Path.steps path)

/-- Refuse a path that no operation takes. -/
def checkPath (path : String) : Except IoFault Unit :=
  if Path.hasZero path then .error .invalidInput
  else if Path.isTooLong path then .error .invalidFilename
  else .ok ()

/-- The place of what an operation is to work on. -/
def find (t : Tree) (path : String) : Except IoFault (List String) := do
  checkPath path
  t.locate path

/-- Whether there is anything at a path. -/
def exists? (t : Tree) (path : String) : Bool := (t.find path).isOk

/-- The place for something new: the last name in the directory that the others lead to. -/
def vacancy (t : Tree) (names : List String) : Except IoFault (List String) := do
  let place ← t.walk [] names.dropLast
  t.checkDirectory place
  match names.getLast? with
  | none => .error .alreadyExists
  | some "." | some ".." => .error .isADirectory
  | some name =>
    if 255 < name.utf8ByteSize then .error .invalidFilename else .ok (place ++ [name])

/-- The file at a path. -/
def openFile (t : Tree) (path : String) : Except IoFault FileNo := do
  match t.node? (← t.find path) with
  | some (.file n) => .ok n
  | some .directory => .error .isADirectory
  | none => .error .notFound

/-- The file at a path, made if there is none. A path that ends in a slash can only be that of a
    directory. -/
def createFile (t : Tree) (path : String) : Except IoFault (Tree × FileNo) :=
  if Path.endsInSlash path then do
    checkPath path
    t.checkDirectory (← t.walk [] (t.names path).dropLast)
    .error .isADirectory
  else if path = "" then .error .notFound
  else
    match t.openFile path with
    | .ok n => .ok (t, n)
    | .error .notFound => do
      let place ← t.vacancy (t.names path)
      .ok ({ t with
          nodes := t.nodes.insert place (.file ⟨t.nextFile⟩)
          nextFile := t.nextFile + 1 }, ⟨t.nextFile⟩)
    | .error fault => .error fault

/-- Make the directory that names lead to. -/
def makeDirAt (t : Tree) (names : List String) : Except IoFault Tree :=
  match t.walk [] names with
  | .ok _ => .error .alreadyExists
  | .error .notFound => do
    let place ← t.vacancy names
    .ok { t with nodes := t.nodes.insert place .directory }
  | .error fault => .error fault

/-- Make the directory at a path. -/
def makeDir (t : Tree) (path : String) : Except IoFault Tree := do
  checkPath path
  if path = "" then .error .notFound else t.makeDirAt (t.names path)

/-- Whether names lead to a directory. -/
def isDirectory (t : Tree) (names : List String) : Bool :=
  match t.walk [] names with
  | .ok place => t.node? place = some .directory
  | .error _ => false

/-- The names before the last one, all of them given last first. A "." is no name of its own. -/
def before (names : List String) : List String :=
  ((names.dropWhile (· = ".")).tail).dropWhile (· = ".")

theorem length_before_lt (name : String) (rest : List String) :
    (before (name :: rest)).length < (name :: rest).length := by
  have h1 := (List.dropWhile_sublist (l := name :: rest) (· = ".")).length_le
  have h2 := (List.dropWhile_sublist
    (l := ((name :: rest).dropWhile (· = ".")).tail) (· = ".")).length_le
  simp only [before, List.length_tail, List.length_cons] at *
  omega

/-- Make a directory, and before it those on the way to it that are missing. The names are given
    last first. A directory that is there already will do. -/
def makeDirsFrom (t : Tree) (names : List String) : Except IoFault Tree :=
  match names with
  | [] => .ok t
  | name :: rest =>
    match t.makeDirAt (name :: rest).reverse with
    | .ok t' => .ok t'
    -- Something on the way is missing.
    | .error .notFound => do
      let t' ← t.makeDirsFrom (before (name :: rest))
      match t'.makeDirAt (name :: rest).reverse with
      | .ok t'' => .ok t''
      | .error fault => if t'.isDirectory (name :: rest).reverse then .ok t' else .error fault
    | .error fault => if t.isDirectory (name :: rest).reverse then .ok t else .error fault
termination_by names.length
decreasing_by exact length_before_lt name rest

/-- Make the directory at a path, and those on the way to it. -/
def makeDirs (t : Tree) (path : String) : Except IoFault Tree := do
  checkPath path
  t.makeDirsFrom (t.names path).reverse

/-- What a path stands for: the place it leads to, or its own names if it leads nowhere. -/
def identity (t : Tree) (path : String) : List String :=
  match t.locate path with
  | .ok place => place
  | .error _ => Path.key path

end Tree

end RowStore
