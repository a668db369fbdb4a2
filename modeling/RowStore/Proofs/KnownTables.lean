import RowStore.Proofs.Run

/-!
# Known Tables

Which file a table is known by does not change while the pool is at work.

A table becomes known by being registered, and nothing else touches the table of
tables: not a call, whatever its task, and no action on the pool, however it ends.
Nothing is assumed here of the state that the pool is in.

## Theorems

* `Pool.tables_act`: Of actions.
* `Engine.tables_exec`: Of everything that can happen to an engine.
-/

namespace RowStore

namespace Pool

variable {ρ : Type}

theorem tables_settles {P Q : Pool ρ} {e : Ending} {p : PageId} (h : P.Settles p e Q) :
    Q.tables = P.tables := by
  cases h <;> rfl

theorem tables_forEach_flush (P : Pool ρ) (l : List PageId) :
    (P.forEach flush l).1.tables = P.tables :=
  forEach_flush_const Pool.tables tables_settles P l

theorem tables_finishIn (P : Pool ρ) (order : List PageId) (t : TxnId) (e : Ending) :
    (P.finishIn order t e).1.tables = P.tables :=
  finishIn_const Pool.tables tables_settles (fun _ _ => rfl) P order t

theorem tables_finish (P : Pool ρ) (t : TxnId) (e : Ending) :
    (P.finish t e).1.tables = P.tables :=
  P.tables_finishIn _ t e

variable [EvictionOrder ρ]

theorem tables_giveUp (P : Pool ρ) (t : TxnId) : (P.giveUp t).tables = P.tables :=
  giveUp_const Pool.tables (fun _ _ => rfl) (fun _ _ => rfl) P t

theorem tables_abandon (P : Pool ρ) (t : TxnId) : (P.abandon t).tables = P.tables :=
  abandon_const Pool.tables tables_settles (fun _ _ => rfl) (fun _ _ => rfl) P t

theorem tables_close (P : Pool ρ) (t : TxnId) (e : Ending) : (P.close t e).1.tables = P.tables :=
  close_const Pool.tables tables_settles (fun _ _ => rfl) (fun _ _ => rfl) P t e

/-- No action makes a table known, or another file known for a table. -/
theorem tables_act (P : Pool ρ) (a : Action) : (P.act a).1.tables = P.tables := by
  cases a with
  | begin => rfl
  | read n => rfl
  | write n e =>
      simp only [act, edit]
      split
      · rfl
      · rename_i h _
        rcases Task.alter_apart P h fun b => .ok ((), e.apply b) with ⟨frames, hf⟩
        simp only [hf]
  | drop n => rfl
  | finish t e => exact P.tables_finish t e
  | close t e => exact P.tables_close t e
  | abandon t => exact P.tables_abandon t
  | grow t =>
      simp only [act, grow]
      split
      · rfl
      · split <;> rfl
  | flushAll => exact P.tables_forEach_flush _
  | flushTxn t => exact P.tables_forEach_flush _
  | discard p => rfl
  | releasePage t p => rfl
  | releaseLocks t => rfl
  | device faults => rfl

end Pool

/-- What happens to an engine leaves the tables that are known as they are. -/
theorem Engine.tables_exec {ρ : Type} [EvictionOrder ρ] (E : Engine ρ) (ev : Event) :
    (E.exec ev).1.pool.tables = E.pool.tables := by
  cases ev with
  | submit t task => rfl
  | act a => exact E.pool.tables_act a
  | step c =>
      rcases E.apart_step c with ⟨_, _, _, hq⟩
      simp only [exec, hq]

end RowStore
