import RowStore.Pool

/-!
# Ends of a Transaction

What becomes of a transaction that is committed, rolled back, or left alone.

A transaction that is left alone is rolled back. If that fails, its changes are
given up by making the pages it holds to write leave memory, so that they are
loaded again from their files when next wanted; its locks are given back in any
case. A commit or a rollback that fails leaves the transaction alone in the same
sense. So however a transaction ends, it holds nothing afterwards.

## Main definitions

* `Pool.abandon`: A transaction is left alone.
* `Pool.commit`, `Pool.rollback`: A transaction is ended for good.
-/

namespace RowStore

namespace Pool

variable {ρ : Type} [EvictionOrder ρ]

/-- Make the pages leave memory that a transaction holds to write, and give back its locks. -/
def giveUp (P : Pool ρ) (t : TxnId) : Pool ρ :=
  ((P.locks.exclusivePages t).foldl discard P).releaseLocks t

/-- Roll a transaction back, or give its changes up. -/
def abandon (P : Pool ρ) (t : TxnId) : Pool ρ :=
  match P.finish t .rollback with
  | (Q, .ok ()) => Q
  | (Q, .error _) => Q.giveUp t

/-- End a transaction; if that fails, abandon it. -/
def close (P : Pool ρ) (t : TxnId) (e : Ending) : Pool ρ × Except StoreError Unit :=
  match P.finish t e with
  | (Q, .ok ()) => (Q, .ok ())
  | (Q, .error cause) => (Q.abandon t, .error cause)

/-- Commit a transaction for good. -/
def commit (P : Pool ρ) (t : TxnId) : Pool ρ × Except StoreError Unit := P.close t .commit

/-- Roll a transaction back for good. -/
def rollback (P : Pool ρ) (t : TxnId) : Pool ρ × Except StoreError Unit := P.close t .rollback

end Pool

end RowStore
