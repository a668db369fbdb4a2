import RowStore.Database

/-!
# Sessions

A database in the hands of someone who gives names to transactions, handles and
cursors, and has several calls in progress at once.

A name can be given again. What it stood for is then let go: a handle is taken
off its frame, a cursor is forgotten, and a transaction is abandoned. But a call
that was made by the name of a transaction keeps the transaction going. A
transaction that lost its name in the meantime is abandoned when that call has
ended, whatever came of it.

Who begins a call says what it is for: under which name the handle is to be kept
that it fetches, or which cursor it moves. A tag of the caller's own goes with
that and comes back with the outcome.

## Main definitions

* `Errand`: What a call is for.
* `Session`: A database, the names given, and the errands of the calls in progress.
* `Session.begin`, `Session.conclude`: A transaction gets a name, and comes to its end.
* `Session.call`: A call begins.
* `Session.settle`: Calls go on as long as any can, and transactions without names end.
* `Session.giveUp`: The calls in progress are given up.
-/

namespace RowStore

/-- A cursor of a session. It can be in use when its name stands for another one. -/
structure CursorNo where
  val : Nat
  deriving DecidableEq, Repr, Inhabited

/-- What a call is for. The owner is the transaction by whose name it was made. -/
structure Errand (τ : Type) where
  tag : τ
  owner : Option TxnId := none
  handle : Option String := none
  cursor : Option CursorNo := none

/-- A database, the names given, and what the calls in progress are for. -/
structure Session (ρ τ : Type) where
  db : Database ρ
  txns : Assoc String TxnId := ∅
  handles : Assoc String HandleNo := ∅
  cursors : Assoc String CursorNo := ∅
  places : Assoc CursorNo Cursor := ∅
  nextCursor : Nat := 0
  errands : Assoc CallNo (Errand τ) := ∅
  /-- Transactions that lost their names and are not abandoned yet. -/
  nameless : List TxnId := []

namespace Session

variable {ρ τ : Type}

/-- The pool of the database. -/
def pool (S : Session ρ τ) : Pool ρ := S.db.engine.pool

/-- Change the pool. -/
def setPool (S : Session ρ τ) (P : Pool ρ) : Session ρ τ := { S with db := S.db.mapPool fun _ => P }

/-- Whether a transaction has a call in progress. -/
def isBusy (S : Session ρ τ) (t : TxnId) : Bool := S.db.engine.isBusy t

/-! ## Names -/

/-- Begin a transaction under a name. One that had the name loses it. -/
def begin (S : Session ρ τ) (name : String) : TxnId × Session ρ τ :=
  let (t, P) := S.pool.nextTxn
  (t, { S.setPool P with
    txns := S.txns.insert name t
    nameless := (S.txns.get? name).toList ++ S.nameless })

/-- Take a handle off its frame, and its name away. -/
def dropHandle (S : Session ρ τ) (name : String) : Session ρ τ :=
  match S.handles.get? name with
  | none => S
  | some n =>
    { S.setPool { S.pool with cache := S.pool.cache.unpin n } with handles := S.handles.erase name }

/-- Keep a handle under a name, in place of one that has it. -/
def keepHandle (S : Session ρ τ) (name : String) (n : HandleNo) : Session ρ τ :=
  let S := S.dropHandle name
  { S with handles := S.handles.insert name n }

/-- What a name of a handle stands for. -/
def handle? (S : Session ρ τ) (name : String) : Option Handle :=
  (S.handles.get? name).bind S.pool.cache.handles.get?

/-- Keep a closed cursor under a name. -/
def addCursor (S : Session ρ τ) (name : String) (file : TableFile) (t : TxnId) : Session ρ τ :=
  { S with
    cursors := S.cursors.insert name ⟨S.nextCursor⟩
    places := S.places.insert ⟨S.nextCursor⟩ { file, txn := t }
    nextCursor := S.nextCursor + 1 }

/-- Have a cursor be where it is now. -/
def setCursor (S : Session ρ τ) (n : CursorNo) (c : Cursor) : Session ρ τ :=
  { S with places := S.places.insert n c }

/-- What a name of a cursor stands for. -/
def cursor? (S : Session ρ τ) (name : String) : Option (CursorNo × Cursor) := do
  let n ← S.cursors.get? name
  return (n, ← S.places.get? n)

/-! ## Calls -/

/-- Begin a call. -/
def call (S : Session ρ τ) (t : TxnId) (task : Task) (errand : Errand τ) : Session ρ τ :=
  let (c, engine) := S.db.engine.submit t task
  { S with db := { S.db with engine }, errands := S.errands.insert c errand }

/-- Keep what a call brought, as its errand says. -/
def keep (S : Session ρ τ) (errand : Errand τ) : Outcome → Session ρ τ
  | .fetched (some n) =>
    match errand.handle with
    | some name => S.keepHandle name n
    | none => S
  | .moved cursor _ =>
    match errand.cursor with
    | some n => S.setCursor n cursor
    | none => S
  | _ => S

/-- A call has ended. -/
def finish (S : Session ρ τ) (c : CallNo) (outcome : Outcome) :
    Session ρ τ × List (τ × Outcome) :=
  match S.errands.get? c with
  | none => (S, [])
  | some errand =>
    ({ S.keep errand outcome with errands := S.errands.erase c }, [(errand.tag, outcome)])

/-- Calls have ended, one after the other. -/
def finishAll (S : Session ρ τ) : List (CallNo × Outcome) → Session ρ τ × List (τ × Outcome)
  | [] => (S, [])
  | (c, outcome) :: rest =>
    let (S, first) := S.finish c outcome
    let (S, others) := S.finishAll rest
    (S, first ++ others)

variable [EvictionOrder ρ]

/-- Let the calls go on, for at most so many steps, until all that are left sleep. -/
def runCalls (S : Session ρ τ) (steps : Nat) : Session ρ τ × List (τ × Outcome) :=
  let (engine, ended) := S.db.engine.settle steps
  { S with db := { S.db with engine } }.finishAll ended

/-! ## Ends of transactions -/

/-- Bring the transaction of a name to its end, and take the name away. Without a wish for how it is
    to end it is abandoned. -/
def conclude (S : Session ρ τ) (name : String) (t : TxnId) (e : Option Ending) :
    Session ρ τ × Except StoreError Unit :=
  let S := { S with txns := S.txns.erase name }
  match e with
  | some e =>
    let (P, result) := S.pool.close t e
    (S.setPool P, result)
  | none => (S.setPool (S.pool.abandon t), .ok ())

/-- Whether a call keeps a transaction going. -/
def isKept (S : Session ρ τ) (t : TxnId) : Bool := S.errands.values.any fun e => e.owner = some t

/-- Abandon the transactions without a name that no call keeps going. -/
def abandonNameless (S : Session ρ τ) : Session ρ τ :=
  let (kept, free) := S.nameless.partition S.isKept
  { S.setPool (free.foldl Pool.abandon S.pool) with nameless := kept }

/-- Let calls go on and transactions without names end, in so many rounds. A call that ends may set
    its transaction free, and the end of a transaction may wake calls. -/
def settleRounds (S : Session ρ τ) (steps : Nat) : Nat → Session ρ τ × List (τ × Outcome)
  | 0 => S.abandonNameless.runCalls steps
  | rounds + 1 =>
    let (S, ended) := S.abandonNameless.runCalls steps
    if S.nameless.all S.isKept then (S, ended)
    else
      let (S, later) := S.settleRounds steps rounds
      (S, ended ++ later)

/-- Let calls go on and transactions without names end, until nothing is left that can: the calls
    that ended. Each round but the first ends a transaction. -/
def settle (S : Session ρ τ) (steps : Nat) : Session ρ τ × List (τ × Outcome) :=
  S.settleRounds steps S.nameless.length

/-- Give the calls in progress up: all locks are taken away, which lets the calls go on as far as
    they can. -/
def giveUp (S : Session ρ τ) (steps : Nat) : Session ρ τ :=
  ((S.setPool (S.pool.locks.held.keys.foldl Pool.releaseLocks S.pool)).settle steps).1

end Session

end RowStore
