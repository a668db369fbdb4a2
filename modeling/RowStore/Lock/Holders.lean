import RowStore.Lock.Mode

/-!
# Holders of a Page

Who holds one page, and how.

A request can be granted when no other transaction holds the page in a mode that
does not go with it. The requester's own lock is not in its way: a reader that is
alone on the page may become its writer.

## Main definitions

* `Holders`: The readers and the writer of a page.
* `Holders.holds`: Whether a transaction's lock is enough for a mode.
* `Holders.blockers`: The others in the way of a request.
* `Holders.grant`, `Holders.release`: The two changes.
-/

namespace RowStore

/-- The readers and the writer of a page. -/
structure Holders where
  shared : List TxnId := []
  exclusive : Option TxnId := none
  deriving DecidableEq, Repr, Inhabited

namespace Holders

/-- Whether what the transaction holds is enough for the mode. A writer may read. -/
def holds (h : Holders) (t : TxnId) : LockMode → Bool
  | .shared => h.exclusive = some t || h.shared.contains t
  | .exclusive => h.exclusive = some t

/-- Everyone who holds the page, with the mode held. -/
def all (h : Holders) : List (TxnId × LockMode) :=
  (h.exclusive.toList.map fun t => (t, .exclusive)) ++ h.shared.map fun t => (t, .shared)

/-- The others that hold the page in a mode that does not go with the one asked for. -/
def blockers (h : Holders) (t : TxnId) (mode : LockMode) : List TxnId :=
  (h.all.filter fun e => e.1 ≠ t && !mode.compatible e.2).map Prod.fst

/-- Let the transaction hold the page. A reader that becomes the writer is no reader any more. -/
def grant (h : Holders) (t : TxnId) : LockMode → Holders
  | .shared => { h with shared := if h.shared.contains t then h.shared else t :: h.shared }
  | .exclusive => ⟨h.shared.filter (· ≠ t), some t⟩

/-- Whether the transaction holds the page in any mode. -/
def isHeldBy (h : Holders) (t : TxnId) : Bool := h.shared.contains t || h.exclusive = some t

/-- Take the transaction's locks off the page. -/
def release (h : Holders) (t : TxnId) : Holders where
  shared := h.shared.filter (· ≠ t)
  exclusive := if h.exclusive = some t then none else h.exclusive

/-- Whether nobody holds the page. -/
def isFree (h : Holders) : Bool := h.exclusive.isNone && h.shared.isEmpty

end Holders

end RowStore
