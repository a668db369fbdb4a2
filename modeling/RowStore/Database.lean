import RowStore.Engine
import RowStore.File.Tree
import RowStore.Sizing
import RowStore.Text.Quoted

/-!
# Databases

A directory of table files that share one pool.

A table is kept in the file of its name with ".tbl" after it. Its id is computed
from what the path of the file stands for; which function computes it is part of
the database, and the function may send two paths to one id. A table whose id is
that of another is refused, because the pool tells pages apart by their tables'
ids.

The width of the rows is not kept in the file. A table that was opened stays open
with the width it was opened with.

## Main definitions

* `CatalogError`: Why there is no such database or table.
* `Database`: The directory, the open tables, and the engine that works on them.
* `Database.openAt`: A database in a directory, made if need be.
* `Database.makeFile`, `Database.takeFile`: A table file that starts anew, and one that is there.
* `Database.makeTable`, `Database.takeTable`: What is done for a new table, and for one that is
  there.
* `Database.createTable`, `Database.openTable`: The table, if there is one.
-/

namespace RowStore

/-- Why there is no such database or table. -/
inductive CatalogError
  | tableExists (name : String)
  | tableMissing (name : String)
  | idTaken (name : String) (table : TableId)
  | directoryRefused (path : String)
  | directoryLost (path : String)
  | createFailed (path : String) (cause : StoreError)
  | openFailed (path : String) (cause : StoreError)
  | refused (cause : StoreError)
  deriving DecidableEq, Repr

namespace CatalogError

/-- The error of the store behind it, if there is one. -/
def cause? : CatalogError → Option StoreError
  | .createFailed _ cause | .openFailed _ cause | .refused cause => some cause
  | _ => none

/-- How it reads, with tables called as `names` says. -/
def message (names : TableId → String) : CatalogError → String
  | .tableExists name => s!"Table '{name}' already exists"
  | .tableMissing name => s!"Table '{name}' does not exist"
  | .idTaken name table => s!"Table '{name}' collides with an existing {table.text names}"
  | .directoryRefused path => s!"Failed to create data directory {Text.quote path}"
  | .directoryLost path => s!"Failed to resolve {Text.quote path}"
  | .createFailed path _ => s!"Failed to create table file {Text.quote path}"
  | .openFailed path _ => s!"Failed to open table file {Text.quote path}"
  | .refused cause => cause.message names

end CatalogError

/-- A directory of tables that share one pool. -/
structure Database (ρ : Type) where
  sizing : Sizing
  dir : String
  idOf : List String → TableId
  tables : Assoc String TableFile := ∅
  tree : Tree
  engine : Engine ρ

namespace Database

variable {ρ : Type}

/-- A database in a directory. The directory, and those on the way to it, are made if they are
    missing. The files are those that are there. -/
def openAt (idOf : List String → TableId) (order : ρ) (tree : Tree) (disk : Disk) (dir : String)
    (sizing : Sizing) : Except CatalogError (Database ρ) :=
  match tree.makeDirs dir with
  | .error _ => .error (.directoryRefused dir)
  | .ok tree =>
    match tree.locate dir with
    | .error _ => .error (.directoryLost dir)
    | .ok place =>
      match sizing.check with
      | .error e => .error (.refused e)
      | .ok () =>
        .ok { sizing, dir := Path.ofNames place, idOf, tree
              engine := { pool := Pool.ofFrames sizing.frames order disk } }

/-- The path of a table's file. -/
def tablePath (db : Database ρ) (name : String) : String := Path.join db.dir (name ++ ".tbl")

/-- An open table. -/
def table? (db : Database ρ) (name : String) : Option TableFile := db.tables.get? name

/-- The names of the open tables. -/
def tableNames (db : Database ρ) : List String := db.tables.keys

/-- The id of a table, unless another open table has it. -/
def tableId (db : Database ρ) (name : String) : Except CatalogError TableId :=
  let id := db.idOf (db.tree.identity (db.tablePath name))
  if db.tables.entries.any fun e => e.1 ≠ name && e.2.table = id then .error (.idTaken name id)
  else .ok id

/-- The layout of a table with rows of the given width. -/
def layout (db : Database ρ) (rowWidth : Nat) : Except CatalogError Layout :=
  (Layout.make db.sizing.pageSize rowWidth).mapError .refused

/-- Change the pool. -/
def mapPool (db : Database ρ) (change : Pool ρ → Pool ρ) : Database ρ :=
  { db with engine := { db.engine with pool := change db.engine.pool } }

/-- Make a table known under its name. -/
def register (db : Database ρ) (name : String) (f : TableFile) : Database ρ :=
  { db.mapPool (·.register f) with tables := db.tables.insert name f }

/-- A table file that starts anew at a path. -/
def makeFile (db : Database ρ) (id : TableId) (path : String) (layout : Layout) :
    Except StoreError (TableFile × Database ρ) :=
  match db.tree.createFile path with
  | .error fault => .error (.io fault)
  | .ok (tree, file) =>
    let f : TableFile := ⟨id, file, path, layout⟩
    .ok (f, { db.mapPool fun P => { P with disk := f.pages.create P.disk } with tree })

/-- A table file that is there at a path, taken up as it is. -/
def takeFile (db : Database ρ) (id : TableId) (path : String) (layout : Layout) :
    Except StoreError TableFile :=
  match db.tree.openFile path with
  | .error fault => .error (.io fault)
  | .ok file =>
    let f : TableFile := ⟨id, file, path, layout⟩
    (f.pages.openFile db.engine.pool.disk).map fun _ => f

/-- The layout of a table and its id, if neither is refused. -/
def prepare (db : Database ρ) (name : String) (rowWidth : Nat) :
    Except CatalogError (Layout × TableId) := do
  let layout ← db.layout rowWidth
  let id ← db.tableId name
  return (layout, id)

/-- Make a new table, in a file that is not there yet. -/
def makeTable (db : Database ρ) (name : String) (rowWidth : Nat) :
    Database ρ × Except CatalogError TableFile :=
  let path := db.tablePath name
  if db.tables.contains name || db.tree.exists? path then (db, .error (.tableExists name))
  else
    match db.prepare name rowWidth with
    | .error e => (db, .error e)
    | .ok (layout, id) =>
      match db.makeFile id path layout with
      | .error cause => (db, .error (.createFailed path cause))
      | .ok (f, db) => (db.register name f, .ok f)

/-- Take up a table whose file is there, or that is open already. -/
def takeTable (db : Database ρ) (name : String) (rowWidth : Nat) :
    Database ρ × Except CatalogError TableFile :=
  match db.table? name with
  | some f => (db, .ok f)
  | none =>
    let path := db.tablePath name
    if !db.tree.exists? path then (db, .error (.tableMissing name))
    else
      match db.prepare name rowWidth with
      | .error e => (db, .error e)
      | .ok (layout, id) =>
        match db.takeFile id path layout with
        | .error cause => (db, .error (.openFailed path cause))
        | .ok f => (db.register name f, .ok f)

/-- A new table, and the database that has it. -/
def createTable (db : Database ρ) (name : String) (rowWidth : Nat) :
    Except CatalogError (TableFile × Database ρ) :=
  let (db, made) := db.makeTable name rowWidth
  made.map (·, db)

/-- A table whose file is there, or that is open already, and the database that has it. -/
def openTable (db : Database ρ) (name : String) (rowWidth : Nat) :
    Except CatalogError (TableFile × Database ρ) :=
  let (db, taken) := db.takeTable name rowWidth
  taken.map (·, db)

end Database

end RowStore
