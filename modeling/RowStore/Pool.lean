import RowStore.Cache
import RowStore.Lock.Table
import RowStore.TableFile

/-!
# The Page Pool

Tables, the cache of their pages, and the locks on them.

A page that a transaction changed stays in memory until the transaction ends. To
commit, every page held to be written is flushed to its file; to roll back, it is
restored from the file. Either way its copy is clean then and stays resident, and
the locks are given back. If a page can be neither flushed nor restored the
ending fails there: the locks stay, and the ending can be tried again.

The pages are visited in an order that is an argument of `finishIn`; `finish`
takes them as the lock table lists them. The transfers that a device refuses are
part of the pool, as something that is given: `faults` names them, and no
operation changes it.

## Main definitions

* `Faults`: The transfers of pages that the device refuses.
* `Pool`: Tables, cache, disk, locks and transaction ids.
* `Pool.fetch`: The frame of a page, loaded if it is not resident.
* `Pool.openWrite`, `Pool.setBytes`: Changing a page by way of a handle.
* `Pool.flush`, `Pool.restore`: Bringing a copy and its file together.
* `Pool.finish`: A transaction ends, by commit or by rollback.
-/

namespace RowStore

/-- The transfers that the device refuses, page by page. -/
structure Faults where
  onRead : PageId → Option IoFault := fun _ => none
  onWrite : PageId → Option IoFault := fun _ => none

/-- Tables, the copies of their pages, and the locks on them. -/
structure Pool (ρ : Type) where
  cache : Cache ρ
  disk : Disk := {}
  tables : Assoc TableId TableFile := ∅
  locks : LockTable := {}
  ids : TxnIds := {}
  faults : Faults := {}

/-- The two ways for a transaction to end. -/
inductive Ending
  | commit
  | rollback
  deriving DecidableEq, Repr

namespace Pool

variable {ρ : Type}

/-- A pool of so many frames without tables. -/
def ofFrames (frames : Nat) (order : ρ) (disk : Disk) : Pool ρ :=
  { cache := { capacity := frames, order }, disk }

/-- Make a table known, in place of one known by its id. -/
def register (P : Pool ρ) (f : TableFile) : Pool ρ :=
  { P with tables := P.tables.insert f.table f }

/-- The file of a table. -/
def table (P : Pool ρ) (t : TableId) : Except StoreError TableFile :=
  match P.tables.get? t with
  | some f => .ok f
  | none => .error (.unknownTable t)

/-- Hand out a transaction id. -/
def nextTxn (P : Pool ρ) : TxnId × Pool ρ := (P.ids.take.1, { P with ids := P.ids.take.2 })

/-- The image of a page in its table's file. -/
def loadImage (P : Pool ρ) (p : PageId) : Except StoreError Page := do
  let f ← P.table p.table
  match P.faults.onRead p with
  | some fault => .error (.io fault)
  | none => f.read P.disk p

/-- The disk after a copy was written to its table's file. -/
def storeImage (P : Pool ρ) (page : Page) : Except StoreError Disk := do
  let f ← P.table page.id.table
  match P.faults.onWrite page.id with
  | some fault => .error (.io fault)
  | none => f.write P.disk page

/-- Refuse to write by a handle that was fetched to read, or whose transaction does not hold the
    page to write any more. -/
def checkWrite (P : Pool ρ) (h : Handle) : Except StoreError Unit :=
  if h.access ≠ .readWrite then .error (.readOnlyPage h.page)
  else if P.locks.mode? h.txn h.page ≠ some .exclusive then .error (.lockNotHeld h.txn h.page)
  else .ok ()

/-- Start to write by a handle, which makes the copy dirty. -/
def openWrite (P : Pool ρ) (h : Handle) : Except StoreError (Pool ρ) := do
  P.checkWrite h
  .ok { P with cache := P.cache.updateFrame h.frame (Page.mark · (some h.txn)) }

/-- Give the copy that a handle is on new bytes. -/
def setBytes (P : Pool ρ) (h : Handle) (bytes : Bytes) : Pool ρ :=
  { P with cache := P.cache.updateFrame h.frame (Page.setBytes · bytes) }

/-- The bytes of the copy that a handle is on. -/
def bytesOf (P : Pool ρ) (h : Handle) : Bytes :=
  ((P.cache.frame? h.frame).map Page.bytes).getD #[]

/-- Write a resident copy out if it is dirty, which makes it clean. -/
def flush (P : Pool ρ) (p : PageId) : Except StoreError (Pool ρ) :=
  match P.cache.page? p with
  | none => .ok P
  | some page =>
    if page.isDirty then do
      let disk ← P.storeImage page
      .ok { P with disk, cache := P.cache.updatePage p (Page.mark · none) }
    else .ok P

/-- Bring a resident copy back to the image in the file. -/
def restore (P : Pool ρ) (p : PageId) : Except StoreError (Pool ρ) :=
  if P.cache.isResident p then do
    let image ← P.loadImage p
    .ok { P with cache := P.cache.updatePage p (Page.restore · image) }
  else .ok P

/-- What an ending does to one page. -/
def settle (P : Pool ρ) (e : Ending) (p : PageId) : Except StoreError (Pool ρ) :=
  match e with
  | .commit => P.flush p
  | .rollback => P.restore p

/-- Do something to each of some pages, up to the first that fails. -/
def forEach (P : Pool ρ) (act : Pool ρ → PageId → Except StoreError (Pool ρ)) :
    List PageId → Pool ρ × Except StoreError Unit
  | [] => (P, .ok ())
  | p :: rest =>
    match act P p with
    | .ok P' => forEach P' act rest
    | .error e => (P, .error e)

/-- A transaction ends. The pages it holds to write are visited in the order given. -/
def finishIn (P : Pool ρ) (order : List PageId) (t : TxnId) (e : Ending) :
    Pool ρ × Except StoreError Unit :=
  match P.forEach (fun Q p => Q.settle e p) order with
  | (Q, .ok ()) => ({ Q with locks := Q.locks.releaseAll t }, .ok ())
  | (Q, .error cause) => (Q, .error cause)

/-- A transaction ends. -/
def finish (P : Pool ρ) (t : TxnId) (e : Ending) : Pool ρ × Except StoreError Unit :=
  P.finishIn (P.locks.exclusivePages t) t e

/-- Write every dirty resident copy out. -/
def flushAll (P : Pool ρ) : Pool ρ × Except StoreError Unit :=
  P.forEach flush P.cache.resident.keys

/-- Write out every resident copy that a transaction was the last to change. -/
def flushTxn (P : Pool ρ) (t : TxnId) : Pool ρ × Except StoreError Unit :=
  P.forEach flush (P.cache.resident.keys.filter fun p =>
    (P.cache.page? p).any fun page => page.dirtiedBy = some t)

/-- Give back one lock before the transaction ends. -/
def releasePage (P : Pool ρ) (t : TxnId) (p : PageId) : Pool ρ :=
  { P with locks := P.locks.release t p }

/-- Give back all locks of a transaction without ending it. -/
def releaseLocks (P : Pool ρ) (t : TxnId) : Pool ρ := { P with locks := P.locks.releaseAll t }

variable [EvictionOrder ρ]

/-- The frame of a page, loaded from its file if the page is not resident. -/
def fetch (P : Pool ρ) (p : PageId) : Pool ρ × Except StoreError FrameNo :=
  match P.cache.resident.get? p with
  | some f => ({ P with cache := P.cache.touch p }, .ok f)
  | none =>
    match P.loadImage p with
    | .error e => (P, .error e)
    | .ok image =>
      match P.cache.takeIn image with
      | (cache, some f) => ({ P with cache }, .ok f)
      | (cache, none) => ({ P with cache }, .error (.noEvictableFrame P.cache.capacity))

/-- Make a page leave memory without writing it out. -/
def discard (P : Pool ρ) (p : PageId) : Pool ρ := { P with cache := P.cache.discard p }

end Pool

end RowStore
