import RowStore.Database
import RowStore.File.Fingerprint
import RowStore.Recency
import RowStore.Worker

/-!
# The Workload

Several workers that run transactions against one table at the same time.

The workers take turns. In its turn a worker does one thing: it begins a
transaction, makes a call, ends its transaction or rests. A worker whose call has
to wait for a lock passes until the call has ended. After each turn all calls go
on as far as they can.

Rows are counted before and after the run. The difference has to be what the
committed transactions account for.

## Main definitions

* `Workload`: The engine, the table, and the workers.
* `Workload.turn`: A worker takes its turn.
* `Workload.play`: Turns are taken until every worker is through or has given up.
* `Workload.Report`: What a run that went well has to report.
* `Workload.Failure`: Why a run went wrong.
* `Workload.run`: A whole run, on the files that are there.
-/

namespace RowStore

/-- An engine with a table that workers work on. -/
structure Workload where
  options : Options
  file : TableFile
  engine : Engine Recency
  workers : List Worker

namespace Workload

/-- The name of the table. -/
def tableName : String := "workload"

/-- More steps than the calls in progress can take before they end or wait. -/
def patience : Nat := UInt64.size / 4

/-- Why a run went wrong. -/
inductive Failure
  | rowsTooNarrow
  | notOpened (cause : CatalogError)
  | notCreated (cause : CatalogError)
  | notCounted (cause : StoreError)
  | countStalled
  | workerFailed (worker txn : Nat) (cause : StoreError)
  | rowsDisagree (found expected : Nat)
  deriving DecidableEq, Repr

namespace Failure

/-- How a failure reads. -/
def message : Failure → String
  | .rowsTooNarrow => s!"--row-width must be at least {Worker.headerBytes} bytes"
  | .notOpened _ => "Failed to open database"
  | .notCreated _ => "Failed to create workload table"
  | .notCounted cause => cause.message TableId.digits
  | .countStalled => "the rows cannot be counted while others write them"
  | .workerFailed worker txn _ => s!"worker {worker} failed on transaction {txn}"
  | .rowsDisagree found expected =>
    s!"Workload verification failed: table holds {found} rows, committed work accounts for " ++
      toString expected

/-- What lies behind it, if it is not told by the failure itself. -/
def cause? : Failure → Option String
  | .notOpened cause | .notCreated cause => some (cause.message TableId.digits)
  | .workerFailed _ _ cause => some (cause.message TableId.digits)
  | .rowsTooNarrow | .notCounted _ | .countStalled | .rowsDisagree _ _ => none

end Failure

/-- What a run that went well has to report. -/
structure Report where
  tally : Tally
  initialRows : Nat
  rows : Nat
  resident : Nat
  frames : Nat
  deriving DecidableEq, Repr

/-! ## Turns -/

/-- The worker in its turn. -/
def act (W : Workload) (w : Worker) : Engine Recency × Worker :=
  let E := W.engine
  match w.stage with
  | .resting (turns + 1) => (E, { w with stage := .resting turns })
  | .resting 0 =>
    if w.through < W.options.transactions then
      let (t, pool) := E.pool.nextTxn
      ({ E with pool }, w.begin W.options t)
    else (E, { w with stage := .finished })
  | .ready t step =>
    let (task, random) := w.task W.options W.file t step
    let (call, E') := E.submit t task
    (E', { w with random, stage := .waiting t step call })
  | .ending t inserted deleted =>
    let (e, random) := w.verdict W.options
    let w := { w with random }
    match E.pool.close t e with
    | (pool, .ok ()) => ({ E with pool }, w.conclude e inserted deleted)
    | (pool, .error cause) => ({ E with pool }, w.stumble cause)
  -- The call goes on without the worker.
  | .waiting _ _ _ | .finished | .failed _ => (E, w)

/-- The worker is told how its call ended. A transaction whose call failed is rolled back. -/
def hear (W : Workload) (w : Worker) (outcome : Outcome) : Engine Recency × Worker :=
  let E := W.engine
  match w.stage with
  | .waiting t step _ =>
    match outcome.failure? with
    | none => (E, w.proceed W.options t step outcome)
    | some cause =>
      match E.pool.rollback t with
      | (pool, .ok ()) => ({ E with pool }, w.stumble cause)
      | (pool, .error cause') => ({ E with pool }, w.stumble cause')
  | _ => (E, w)

/-- Something happens to the worker at a position. -/
def onWorker (W : Workload) (i : Nat)
    (change : Workload → Worker → Engine Recency × Worker) : Workload :=
  match W.workers[i]? with
  | none => W
  | some w =>
    let (engine, w') := change W w
    { W with engine, workers := W.workers.set i w' }

/-- The worker that made a call is told how it ended. -/
def deliver (W : Workload) (ended : CallNo × Outcome) : Workload :=
  match W.workers.findIdx? fun w => w.awaits ended.1 with
  | none => W
  | some i => W.onWorker i fun W w => W.hear w ended.2

/-- All calls go on as far as they can. -/
def settle (W : Workload) : Workload :=
  let (engine, ended) := W.engine.settle patience
  ended.foldl deliver { W with engine }

/-- A worker takes its turn. -/
def turn (W : Workload) (i : Nat) : Workload := (W.onWorker i act).settle

/-- Every worker takes a turn. -/
def round (W : Workload) : Workload := (List.range W.workers.length).foldl turn W

/-- Whether no worker takes a turn any more. -/
def isOver (W : Workload) : Bool := W.workers.all Worker.isOver

/-- Turns are taken for at most so many rounds. -/
def play (W : Workload) : Nat → Workload
  | 0 => W
  | rounds + 1 => if W.isOver then W else W.round.play rounds

/-- More rounds than are needed. In each of them at least one worker gets on, as not all that are
    left can wait; and a worker gets on no more often than its calls, its ends of transactions
    and its turns of rest add up to. -/
def maxRounds (o : Options) : Nat :=
  let rest := 5 * Worker.maxRetries
  let attempt := o.rowsPerTxn + rest + 5
  o.workers * (o.transactions * ((Worker.maxRetries + 1) * attempt) + 1) + 1

/-! ## A whole run -/

/-- What is to be said of a worker that gave up. -/
def blame? (w : Worker) : Option Failure :=
  match w.stage with
  | .failed cause => some (.workerFailed w.number w.through cause)
  | _ => none

/-- What all workers did, unless one of them gave up; the first of those is to blame. -/
def result (W : Workload) : Except Failure Tally :=
  match W.workers.findSome? blame? with
  | some failure => .error failure
  | none => .ok (W.workers.foldl (fun sum w => sum.add w.tally) {})

/-- Count the rows of a table, in a transaction of its own. -/
def countRows (E : Engine Recency) (file : TableFile) : Engine Recency × Except Failure Nat :=
  let (t, pool) := E.pool.nextTxn
  let cursor : Cursor := { file, txn := t }
  let (call, E) := { E with pool }.submit t (.advance cursor.start (.drain []))
  let (E, ended) := E.settle patience
  match ended.lookup call with
  | some (.moved _ (.ok (.rows rows))) =>
    match E.pool.commit t with
    | (pool, .ok ()) => ({ E with pool }, .ok rows.length)
    | (pool, .error cause) => ({ E with pool }, .error (.notCounted cause))
  | outcome =>
    let failure := match outcome.bind Outcome.failure? with
      | some cause => .notCounted cause
      | none => .countStalled
    ({ E with pool := E.pool.abandon t }, .error failure)

/-- The table: the one that is there, or a new one. -/
def table (o : Options) (db : Database Recency) :
    Except Failure (TableFile × Database Recency) :=
  match db.openTable tableName o.rowWidth with
  | .ok opened => .ok opened
  | .error _ => (db.createTable tableName o.rowWidth).mapError .notCreated

/-- Count the rows, let the workers work, and count again. -/
def measure (o : Options) (file : TableFile) (E : Engine Recency) :
    Engine Recency × Except Failure Report :=
  match countRows E file with
  | (E, .error failure) => (E, .error failure)
  | (E, .ok initialRows) =>
    let W : Workload :=
      { options := o, file, engine := E, workers := (List.range o.workers).map (Worker.start o) }
    let W := W.play (maxRounds o)
    match W.result with
    | .error failure => (W.engine, .error failure)
    | .ok tally =>
      match countRows W.engine file with
      | (E, .error failure) => (E, .error failure)
      | (E, .ok rows) =>
        let expected := initialRows + tally.inserted - tally.deleted
        let cache := E.pool.cache
        if rows = expected then
          (E, .ok ⟨tally, initialRows, rows, cache.resident.keys.length, cache.capacity⟩)
        else (E, .error (.rowsDisagree rows expected))

/-- Refuse rows that have no room for their header. -/
def check (o : Options) : Except Failure Unit :=
  if o.rowWidth < Worker.headerBytes then .error .rowsTooNarrow else .ok ()

/-- A whole run on the files that are there, and the files after it. -/
def run (o : Options) (tree : Tree) (disk : Disk) : Tree × Disk × Except Failure Report :=
  match check o with
  | .error failure => (tree, disk, .error failure)
  | .ok () =>
    match Database.openAt fingerprint {} tree disk o.dataDir o.sizing with
    | .error cause => (tree, disk, .error (.notOpened cause))
    | .ok db =>
      match table o db with
      | .error failure => (db.tree, db.engine.pool.disk, .error failure)
      | .ok (file, db) =>
        let (E, report) := measure o file db.engine
        (db.tree, E.pool.disk, report)

end Workload

end RowStore
