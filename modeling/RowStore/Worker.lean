import RowStore.Options
import RowStore.Random
import RowStore.Task

/-!
# Workers

What one worker of the workload does, and in which order.

A worker runs its transactions one after the other. Each of them inserts some
rows, reads the whole table, sometimes deletes one of the rows it inserted, and
ends by commit or by rollback. The first bytes of a row tell the worker, the
transaction and the number of the row within it; all others are random.

A transaction that was refused a lock because of a deadlock is run again, after a
rest that is longer the more often this has happened to it. After so many times,
and after any other error, the worker gives up.

The worker only says what it wants to do and is told what came of it. Carrying it
out is up to the workload.

## Main definitions

* `Step`, `Stage`: Where a worker stands in a transaction, and in its work.
* `Worker`: A worker.
* `Worker.task`: The call for a step.
* `Worker.proceed`: The step after a call that went well.
* `Worker.stumble`: What becomes of the worker after an error.
* `Tally`: What was done.
-/

namespace RowStore

/-- What was done: the ends of transactions, the times one was run again, and the rows that
    committed transactions inserted and deleted. -/
structure Tally where
  committed : Nat := 0
  aborted : Nat := 0
  retries : Nat := 0
  inserted : Nat := 0
  deleted : Nat := 0
  deriving DecidableEq, Repr

/-- What two workers did together. -/
def Tally.add (a b : Tally) : Tally where
  committed := a.committed + b.committed
  aborted := a.aborted + b.aborted
  retries := a.retries + b.retries
  inserted := a.inserted + b.inserted
  deleted := a.deleted + b.deleted

/-- The next call of a transaction. The rows it has put in place come with it, latest first. -/
inductive Step
  | insert (placed : List RowId)
  | scan (placed : List RowId)
  | delete (placed : List RowId) (row : RowId)
  deriving DecidableEq

/-- Where a worker stands. -/
inductive Stage
  /-- Before a transaction, with so many turns of rest to go. -/
  | resting (turns : Nat)
  /-- In a transaction, with a call to make. -/
  | ready (txn : TxnId) (step : Step)
  /-- In a transaction, with a call in progress. -/
  | waiting (txn : TxnId) (step : Step) (call : CallNo)
  /-- At the end of a transaction. -/
  | ending (txn : TxnId) (inserted deleted : Nat)
  | finished
  | failed (cause : StoreError)
  deriving DecidableEq

/-- A worker: how many transactions it is through with, how often the present one was refused a
    lock, and where it stands. -/
structure Worker where
  number : Nat
  random : Random
  through : Nat := 0
  attempts : Nat := 0
  stage : Stage := .resting 0
  tally : Tally := {}
  deriving DecidableEq

/-- The rows that an outcome put in place. -/
def Outcome.placed : Outcome → List RowId
  | .inserted rows _ => rows
  | _ => []

namespace Worker

/-- The bytes at the start of a row that tell where it comes from. -/
def headerBytes : Nat := 16

/-- How often a transaction is run again. -/
def maxRetries : Nat := 32

/-- The low bytes of a number, lowest first. -/
def lowBytes (n : Nat) : Nat → List UInt8
  | 0 => []
  | count + 1 => UInt8.ofNat n :: lowBytes (n / 256) count

/-- A worker at its start. Each has random choices of its own. -/
def start (o : Options) (number : Nat) : Worker where
  number
  random := .ofSeed (o.seed + number)

/-- Whether the worker will not take a turn any more. -/
def isOver (w : Worker) : Bool :=
  match w.stage with
  | .finished | .failed _ => true
  | _ => false

/-- Whether the worker waits for the end of a call. -/
def awaits (w : Worker) (c : CallNo) : Bool :=
  match w.stage with
  | .waiting _ _ call => call = c
  | _ => false

/-- A new row: its number within the transaction follows the worker's and the transaction's. -/
def makeRow (w : Worker) (o : Options) (number : Nat) : Bytes × Random :=
  let (bytes, random) := w.random.bytes (o.rowWidth - headerBytes)
  ((lowBytes w.number 4 ++ lowBytes w.through 4 ++ lowBytes number 8).toArray ++ bytes, random)

/-- The step after some rows were put in place. -/
def afterRows (o : Options) (placed : List RowId) : Step :=
  if placed.length < o.rowsPerTxn then .insert placed else .scan placed

/-- The worker has begun a transaction. -/
def begin (w : Worker) (o : Options) (t : TxnId) : Worker :=
  { w with stage := .ready t (afterRows o []) }

/-- The task for a step. -/
def task (w : Worker) (o : Options) (file : TableFile) (t : TxnId) : Step → Task × Random
  | .insert placed =>
    let (row, random) := w.makeRow o placed.length
    (.insert { table := file.table, rows := [row] }, random)
  | .scan _ => (.advance ({ file, txn := t } : Cursor).start (.drain []), w.random)
  | .delete _ row => (.delete (some row), w.random)

/-- Delete one of the rows in one of four cases; else the transaction ends. -/
def choose (w : Worker) (t : TxnId) (placed : List RowId) : Worker :=
  if placed.isEmpty then { w with stage := .ending t 0 0 }
  else
    let (wanted, random) := w.random.chance 25
    let (pick, random) := if wanted then random.below placed.length else (placed.length, random)
    match placed[pick]? with
    | some row => { w with random, stage := .ready t (.delete placed row) }
    | none => { w with random, stage := .ending t placed.length 0 }

/-- The worker after a call that went well. -/
def proceed (w : Worker) (o : Options) (t : TxnId) (step : Step) (outcome : Outcome) : Worker :=
  match step with
  | .insert placed => { w with stage := .ready t (afterRows o (outcome.placed ++ placed)) }
  | .scan placed => w.choose t placed
  | .delete placed _ => { w with stage := .ending t placed.length 1 }

/-- The worker after its transaction failed and was rolled back. -/
def stumble (w : Worker) (cause : StoreError) : Worker :=
  if cause.isDeadlock && w.attempts < maxRetries then
    let attempts := w.attempts + 1
    let (extra, random) := w.random.below (5 * attempts)
    { w with
      attempts, random
      stage := .resting (extra + 1)
      tally := { w.tally with retries := w.tally.retries + 1 } }
  else { w with stage := .failed cause }

/-- How the worker ends its transaction. -/
def verdict (w : Worker) (o : Options) : Ending × Random :=
  let (aborted, random) := w.random.chance o.abortPercent
  (if aborted then .rollback else .commit, random)

/-- The worker after its transaction ended. -/
def conclude (w : Worker) (e : Ending) (inserted deleted : Nat) : Worker :=
  { w with
    through := w.through + 1
    attempts := 0
    stage := .resting 0
    tally := w.tally.add (match e with
      | .commit => { committed := 1, inserted, deleted }
      | .rollback => { aborted := 1 }) }

end Worker

end RowStore
