import RowStore.Lock.Holders
import RowStore.Lock.WaitGraph

/-!
# The Lock Table

Who holds which page, and which calls wait for one.

The table keeps two accounts of what is held, one by page and one by
transaction. The first decides what can be granted; the second says what a
transaction has to give back when it ends. Beside them stand the graph of who
waits for whom, and the waiting calls in the order in which they began to wait.

A call that cannot be granted its lock first puts its edges into the graph. If
they would close a cycle it fails and has no edges; else it waits. It sleeps
until the holders of its page change, which wakes every call that waits for the
page. A woken call looks at the holders afresh: it may be granted its lock now,
or wait again with new edges, or find that its new edges would close a cycle.
Waiting gives no claim to a page. A later reader passes a waiting writer.

A transaction may have several calls waiting at once. A call that is granted its
lock after it waited records the mode it asked for, whatever the transaction has
been granted on the page meanwhile.

## Main definitions

* `Waiter`: A call that waits for a page.
* `LockTable`: The two accounts, the graph and the waiting calls.
* `Verdict`: What becomes of a request.
* `LockTable.request`, `LockTable.resume`: A call asks for a lock; a woken call asks again.
* `LockTable.release`, `LockTable.releaseAll`: Giving back one lock, and all of them.
* `LockTable.mode?`, `LockTable.lockedPages`, `LockTable.exclusivePages`: What a transaction holds.
-/

namespace RowStore

/-- A call in progress. -/
structure CallNo where
  val : Nat
  deriving DecidableEq, Repr, Inhabited

/-- A call that waits for a page. It sleeps until it is woken. -/
structure Waiter where
  call : CallNo
  txn : TxnId
  page : PageId
  mode : LockMode
  woken : Bool := false
  deriving DecidableEq, Repr

/-- The locks held and the calls that wait for one. -/
structure LockTable where
  holders : Assoc PageId Holders := ∅
  held : Assoc TxnId (Assoc PageId LockMode) := ∅
  graph : WaitGraph := {}
  waiters : List Waiter := []
  deriving DecidableEq, Repr, Inhabited

/-- What becomes of a request for a lock. -/
inductive Verdict
  | granted
  | deadlock
  | waits
  deriving DecidableEq, Repr

namespace LockTable

/-- Who holds a page. -/
def holdersOf (l : LockTable) (p : PageId) : Holders := (l.holders.get? p).getD {}

/-- What a transaction holds. -/
def heldBy (l : LockTable) (t : TxnId) : Assoc PageId LockMode := (l.held.get? t).getD ∅

/-- Those in the way of a request. -/
def blockers (l : LockTable) (t : TxnId) (p : PageId) (mode : LockMode) : List TxnId :=
  (l.holdersOf p).blockers t mode

/-- The call's place among those that wait, if it waits. -/
def waiterOf (l : LockTable) (call : CallNo) : Option Waiter :=
  l.waiters.find? fun w => w.call = call

/-- Wake every call that waits for a page. -/
def wake (l : LockTable) (p : PageId) : LockTable :=
  { l with waiters := l.waiters.map fun w => if w.page = p then { w with woken := true } else w }

/-- Record who holds a page. A page that nobody holds needs no record. -/
def setHolders (l : LockTable) (p : PageId) (h : Holders) : LockTable :=
  { l with holders := if h.isFree then l.holders.erase p else l.holders.insert p h }

/-- Let a transaction hold a page, and wake those who wait for it: their edges have to name the
    new holder. The transaction itself waits no more. -/
def grant (l : LockTable) (t : TxnId) (p : PageId) (mode : LockMode) : LockTable :=
  let l' := (l.setHolders p ((l.holdersOf p).grant t mode)).wake p
  { l' with
    graph := l'.graph.clear t
    held := l'.held.insert t ((l'.heldBy t).insert p mode) }

/-- Judge a request by the holders of its page: grant it, have the call wait, or fail because
    waiting would close a cycle. -/
def judge (l : LockTable) (call : CallNo) (t : TxnId) (p : PageId) (mode : LockMode) :
    LockTable × Verdict :=
  match l.blockers t p mode with
  | [] => (l.grant t p mode, .granted)
  | blockers =>
    match l.graph.waitOn t blockers with
    | (graph, true) =>
      ({ l with graph, waiters := l.waiters ++ [{ call, txn := t, page := p, mode }] }, .waits)
    -- The call ends here, so its transaction waits for nobody.
    | (graph, false) => ({ l with graph }, .deadlock)

/-- A call asks for a lock for its transaction. What the transaction holds may be enough. -/
def request (l : LockTable) (call : CallNo) (t : TxnId) (p : PageId) (mode : LockMode) :
    LockTable × Verdict :=
  if (l.holdersOf p).holds t mode then (l, .granted) else l.judge call t p mode

/-- A woken call asks again. -/
def resume (l : LockTable) (w : Waiter) : LockTable × Verdict :=
  { l with waiters := l.waiters.filter fun v => v.call ≠ w.call }.judge w.call w.txn w.page w.mode

/-- Take a transaction off a page, and wake those who wait for it. -/
def vacate (l : LockTable) (t : TxnId) (p : PageId) : LockTable :=
  let h := l.holdersOf p
  if h.isHeldBy t then (l.setHolders p (h.release t)).wake p else l

/-- A transaction gives back its lock on a page. -/
def release (l : LockTable) (t : TxnId) (p : PageId) : LockTable :=
  let rest := (l.heldBy t).erase p
  { l.vacate t p with held := if rest.size = 0 then l.held.erase t else l.held.insert t rest }

/-- A transaction gives back all its locks and leaves the graph. -/
def releaseAll (l : LockTable) (t : TxnId) : LockTable :=
  let l' := (l.heldBy t).keys.foldl (fun l p => l.vacate t p) { l with held := l.held.erase t }
  { l' with graph := l'.graph.forget t }

/-- Whether a transaction holds a page, by the account of the page. -/
def holdsPage (l : LockTable) (t : TxnId) (p : PageId) : Bool := (l.holdersOf p).holds t .shared

/-- How a transaction holds a page, by its own account. -/
def mode? (l : LockTable) (t : TxnId) (p : PageId) : Option LockMode := (l.heldBy t).get? p

/-- The pages a transaction holds. -/
def lockedPages (l : LockTable) (t : TxnId) : List PageId := (l.heldBy t).keys

/-- The pages a transaction holds to write. -/
def exclusivePages (l : LockTable) (t : TxnId) : List PageId :=
  ((l.heldBy t).entries.filter fun e => e.2 = .exclusive).map Prod.fst

end LockTable

end RowStore
