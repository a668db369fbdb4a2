import RowStore.Workload

/-!
# The Program

Runs the workload on a directory of the machine.

The directory is made if it is missing, and the table's file is read as a whole
before the run and written as a whole after it, also when the run went wrong. All
that lies between is `Workload.run`.

## Main definitions

* `main`: The program.
-/

namespace RowStore

namespace Program

/-- The path of the table's file. -/
def tablePath (dir : String) : String := Path.join dir (Workload.tableName ++ ".tbl")

/-- The directory as a tree that holds nothing but the table's file, if there is one. What cannot
    be read as a file stands in the tree as a directory. -/
def load (dir : String) : IO (Tree × Disk) := do
  let tree := (({} : Tree).makeDirs dir).toOption.getD {}
  let path := tablePath dir
  try
    let bytes ← IO.FS.readBinFile path
    match tree.createFile path with
    | .ok (tree, n) => return (tree, ({} : Disk).put n (.ofBytes bytes.data))
    | .error _ => return (tree, {})
  catch
    | .noFileOrDirectory .. => return (tree, {})
    | _ => return ((tree.makeDirs path).toOption.getD tree, {})

/-- Write the table's file out, if there is one. -/
def store (dir : String) (tree : Tree) (disk : Disk) : IO Unit := do
  match tree.openFile (tablePath dir) with
  | .ok n => IO.FS.writeBinFile (tablePath dir) ⟨(disk.image n).contents⟩
  | .error _ => return ()

/-- Say why a run went wrong. -/
def complain (failure : Workload.Failure) : IO UInt32 := do
  IO.eprintln s!"Error: {failure.message}"
  match failure.cause? with
  | some cause => IO.eprintln s!"\nCaused by:\n    {cause}"
  | none => return 1
  return 1

/-- Say how a run went that went well. -/
def summarize (o : Options) (r : Workload.Report) (milliseconds : Nat) : IO UInt32 := do
  let t := r.tally
  if o.debug then
    IO.eprintln s!"{Workload.tableName} started with {r.initialRows} rows"
  IO.println s!"Workload finished in {milliseconds} ms"
  IO.println s!"   - Data directory: {o.dataDir}"
  IO.println s!"   - Committed: {t.committed}"
  IO.println s!"   - Aborted: {t.aborted}"
  IO.println s!"   - Deadlock retries: {t.retries}"
  IO.println s!"   - Rows: {t.inserted} inserted, {t.deleted} deleted, {r.rows} in table"
  IO.println s!"   - Buffer pool: {r.resident}/{r.frames} pages resident"
  return 0

/-- Run the workload. A directory that cannot be made is a database that cannot be opened. -/
def run (o : Options) : IO UInt32 := do
  if let .error failure := Workload.check o then return ← complain failure
  let made ← try IO.FS.createDirAll o.dataDir; pure true catch _ => pure false
  if !made then return ← complain (.notOpened (.directoryRefused o.dataDir))
  let dir := toString (← IO.FS.realPath o.dataDir)
  let (tree, disk) ← load dir
  let started ← IO.monoMsNow
  let (tree, disk, report) := Workload.run { o with dataDir := dir } tree disk
  store dir tree disk
  match report with
  | .ok r => summarize o r ((← IO.monoMsNow) - started)
  | .error failure => complain failure

/-- The program, given its arguments. -/
def start (arguments : List String) : IO UInt32 :=
  match Options.parse arguments with
  | .ok o => run o
  | .error stop => do
    match stop with
    | .help => IO.println Options.help
    | .version => IO.println "rowstore 0.1.0"
    | .misused cause => IO.eprintln s!"error: {cause.message}\n\nFor more, try '--help'."
    return UInt32.ofNat stop.status

end Program

end RowStore

/-- The program. -/
def main (arguments : List String) : IO UInt32 := RowStore.Program.start arguments
