import RowStore.Task
import RowStore.Transaction

/-!
# Calls in Progress

A pool together with the calls that are at work on it.

Calls interleave at the points of their tasks. One step takes one call from its
point to the next: it asks for the lock that the point demands, and if that is
granted does the work there. A call whose request has to wait stays at its point.
It can step again when the lock table has woken it.

Any order of steps is a possible run. `settle` is one of them: it lets the call
that is under way go on until it ends or waits, then the woken calls in the order
in which they began to wait, until every call that is left sleeps.

## Main definitions

* `Call`: A transaction and the point of its task.
* `Engine`: A pool and its calls.
* `Engine.submit`: A call begins.
* `Engine.step`: A call goes on to its next point.
* `Engine.settle`: Calls go on as long as any can.
-/

namespace RowStore

/-- A call in progress: whose it is, and where it stands. -/
structure Call where
  txn : TxnId
  task : Task
  deriving DecidableEq

/-- A pool and the calls at work on it. -/
structure Engine (ρ : Type) where
  pool : Pool ρ
  calls : Assoc CallNo Call := ∅
  nextCall : Nat := 0

namespace Engine

variable {ρ : Type}

/-- A call begins. It is at its first point and has done nothing yet. -/
def submit (E : Engine ρ) (t : TxnId) (task : Task) : CallNo × Engine ρ :=
  (⟨E.nextCall⟩,
    { E with calls := E.calls.insert ⟨E.nextCall⟩ ⟨t, task⟩, nextCall := E.nextCall + 1 })

/-- Change the locks. -/
def setLocks (E : Engine ρ) (locks : LockTable) : Engine ρ :=
  { E with pool := { E.pool with locks } }

/-- Whether a transaction has a call in progress. -/
def isBusy (E : Engine ρ) (t : TxnId) : Bool := E.calls.values.any fun c => c.txn = t

/-- A call that can go on: one that does not wait, or else the first that was woken. -/
def ready (E : Engine ρ) : Option CallNo :=
  match E.calls.keys.find? fun c => (E.pool.locks.waiterOf c).isNone with
  | some c => some c
  | none => (E.pool.locks.waiters.find? Waiter.woken).map Waiter.call

variable [EvictionOrder ρ]

/-- A call does the work of its point. -/
def work (E : Engine ρ) (c : CallNo) (call : Call) : Engine ρ × Option Outcome :=
  match call.task.run E.pool call.txn with
  | (pool, .inl task) => ({ E with pool, calls := E.calls.insert c { call with task } }, none)
  | (pool, .inr outcome) => ({ E with pool, calls := E.calls.erase c }, some outcome)

/-- A call goes on by the verdict on its request. -/
def obey (E : Engine ρ) (c : CallNo) (call : Call) (page : PageId) :
    LockTable × Verdict → Engine ρ × Option Outcome
  | (locks, .granted) => (E.setLocks locks).work c call
  | (locks, .waits) => (E.setLocks locks, none)
  | (locks, .deadlock) =>
    ({ E.setLocks locks with calls := E.calls.erase c },
      some (call.task.fail (.deadlock call.txn page)))

/-- A call goes on to its next point, if it does not sleep. The outcome is there when it ends. -/
def step (E : Engine ρ) (c : CallNo) : Engine ρ × Option Outcome :=
  match E.calls.get? c with
  | none => (E, none)
  | some call =>
    match call.task.demand with
    | none => E.work c call
    | some (page, mode) =>
      match E.pool.locks.waiterOf c with
      -- The call has no place among those that wait, so it asks for the first time.
      | none => E.obey c call page (E.pool.locks.request c call.txn page mode)
      | some w => if w.woken then E.obey c call page (E.pool.locks.resume w) else (E, none)

/-- Let calls go on until all that are left sleep, for at most so many steps: the calls that
    ended, in order. -/
def settle (E : Engine ρ) : Nat → Engine ρ × List (CallNo × Outcome)
  | 0 => (E, [])
  | fuel + 1 =>
    match E.ready with
    | none => (E, [])
    | some c =>
      match E.step c with
      | (E', none) => E'.settle fuel
      | (E', some outcome) =>
        let (E'', rest) := E'.settle fuel
        (E'', (c, outcome) :: rest)

end Engine

end RowStore
