import RowStore.Engine
import RowStore.Proofs.Work
import RowStore.Proofs.Endings

/-!
# Runs

Everything that can be done to a pool and the calls at work on it, as a list of
events.

An event is a call that begins, a call that takes a step, or an action on the pool
that needs no lock. Calls of different transactions take their steps in any order,
so a list of events is a schedule together with what is scheduled. Nothing is
assumed of it here but that calls keep to the table files that the tables are known
by. What a statement rules out beyond that it says of each event in turn, by way of
`Engine.Goes`, and that every table stays countable is asked for at every moment of
the run.

Whatever the events, copies and images stay together as they should.

## Main definitions

* `Edit`: A change of a page's bytes that keeps their number.
* `Action`, `Event`: What can be done to a pool, and to an engine.
* `Pool.act`, `Engine.exec`: Doing it.
* `Engine.run`: The engine after a list of events.
* `Engine.Goes`: A run of which every event is admitted, and in which tables can be counted.
* `Engine.ruling`: What becomes of the request that a call makes before it goes on.
* `Engine.Fresh`: Nothing has been done yet.
* `Engine.Sane`: Coherent, and every call keeps to a known table file.
* `Engine.tiny`: A small pool to try things on.

## Theorems

* `Engine.step_cases`: A call sleeps, goes to work, waits, or ends for a deadlock.
* `Engine.worked_step`, `Engine.apart_step`, `Engine.calls_step`: What a step does to the pool, and
  where calls are then.
* `Pool.act_coherent`, `Pool.act_locks`: What every action keeps, and what it does to the locks.
* `Engine.sane_exec`: Every event keeps an engine sane.
-/

namespace RowStore

/-- A change of a page's bytes that keeps their number. -/
structure Edit where
  apply : Bytes → Bytes
  size_apply : ∀ b, (apply b).size = b.size

/-- Every byte becomes this one. -/
def Edit.fill (value : UInt8) : Edit := ⟨fun b => b.map fun _ => value, fun _ => Array.size_map⟩

/-- What can be done to a pool without asking for a lock. -/
inductive Action
  /-- Hand out a transaction id. -/
  | begin
  /-- Read by a handle that was kept. -/
  | read (n : HandleNo)
  /-- Write by a handle that was kept. -/
  | write (n : HandleNo) (edit : Edit)
  /-- Let a handle go. -/
  | drop (n : HandleNo)
  /-- Try to end a transaction. -/
  | finish (t : TxnId) (e : Ending)
  /-- End a transaction for good. -/
  | close (t : TxnId) (e : Ending)
  /-- Leave a transaction alone. -/
  | abandon (t : TxnId)
  /-- Append a page to the file of a table. -/
  | grow (t : TableId)
  | flushAll
  | flushTxn (t : TxnId)
  | discard (p : PageId)
  | releasePage (t : TxnId) (p : PageId)
  | releaseLocks (t : TxnId)
  /-- The device is of another mind about which transfers to refuse. -/
  | device (faults : Faults)

/-- What can happen to a pool and the calls at work on it. -/
inductive Event
  | submit (t : TxnId) (task : Task)
  | step (c : CallNo)
  | act (a : Action)

/-- What comes back from an event. -/
inductive Answer
  | done
  | begun (t : TxnId)
  | submitted (c : CallNo)
  | stepped (outcome : Option Outcome)
  | bytes (b : Option Bytes)
  | ended (result : Except StoreError Unit)
  | grown (result : Except StoreError PageId)

namespace Pool

variable {ρ : Type}

/-- Append a page to the file of a table. -/
def grow (P : Pool ρ) (t : TableId) : Pool ρ × Except StoreError PageId :=
  match P.table t with
  | .error e => (P, .error e)
  | .ok f =>
    match f.append P.disk with
    | .error e => (P, .error e)
    | .ok (p, disk) => ({ P with disk }, .ok p)

/-- Write by a handle that was kept. -/
def edit (P : Pool ρ) (n : HandleNo) (e : Edit) : Pool ρ × Answer :=
  match P.cache.handles.get? n with
  | none => (P, .done)
  | some h =>
    let (Q, result) := P.alter h fun b => .ok ((), e.apply b)
    (Q, .ended result)

variable [EvictionOrder ρ]

/-- Do something to the pool. -/
def act (P : Pool ρ) : Action → Pool ρ × Answer
  | .begin => (P.nextTxn.2, .begun P.nextTxn.1)
  | .read n => (P, .bytes ((P.cache.handles.get? n).map P.bytesOf))
  | .write n e => P.edit n e
  | .drop n => ({ P with cache := P.cache.unpin n }, .done)
  | .finish t e => ((P.finish t e).1, .ended (P.finish t e).2)
  | .close t e => ((P.close t e).1, .ended (P.close t e).2)
  | .abandon t => (P.abandon t, .done)
  | .grow t => ((P.grow t).1, .grown (P.grow t).2)
  | .flushAll => (P.flushAll.1, .ended P.flushAll.2)
  | .flushTxn t => ((P.flushTxn t).1, .ended (P.flushTxn t).2)
  | .discard p => (P.discard p, .done)
  | .releasePage t p => (P.releasePage t p, .done)
  | .releaseLocks t => (P.releaseLocks t, .done)
  | .device faults => ({ P with faults }, .done)

end Pool

/-- Whether an action may write copies out. -/
def Action.flushes : Action → Bool
  | .finish _ .commit | .close _ .commit | .flushAll | .flushTxn _ => true
  | _ => false

/-- The transaction that may give all its locks back by an action. -/
def Action.leaver? : Action → Option TxnId
  | .finish t _ | .close t _ | .abandon t | .releaseLocks t => some t
  | .begin | .read _ | .write _ _ | .drop _ | .grow _ | .flushAll | .flushTxn _ | .discard _
  | .releasePage _ _ | .device _ => none

/-- Whether an event flushes pages without ending a transaction. -/
def Event.isFlush : Event → Bool
  | .act .flushAll | .act (.flushTxn _) => true
  | _ => false

/-- A call that begins keeps to the table files that the tables are known by. -/
def Event.Fits (tables : Assoc TableId TableFile) : Event → Prop
  | .submit _ task => task.Fits tables
  | .step _ | .act _ => True

instance (tables : Assoc TableId TableFile) (ev : Event) : Decidable (ev.Fits tables) :=
  match ev with
  | .submit _ task => inferInstanceAs (Decidable (task.Fits tables))
  | .step _ | .act _ => inferInstanceAs (Decidable True)

namespace Engine

variable {ρ : Type}

/-- What becomes of the request that a call makes before it goes on: the call, the locks then, and
    the verdict. There is none if the call sleeps. -/
def ruling (E : Engine ρ) (c : CallNo) : Option (Call × LockTable × Verdict) :=
  match E.calls.get? c with
  | none => none
  | some call =>
    match call.task.demand with
    | none => some (call, E.pool.locks, .granted)
    | some (page, mode) =>
      match E.pool.locks.waiterOf c with
      | none => some (call, E.pool.locks.request c call.txn page mode)
      | some w => if w.woken then some (call, E.pool.locks.resume w) else none

variable [EvictionOrder ρ]

/-- Have an event happen. -/
def exec (E : Engine ρ) : Event → Engine ρ × Answer
  | .submit t task => ((E.submit t task).2, .submitted (E.submit t task).1)
  | .step c => ((E.step c).1, .stepped (E.step c).2)
  | .act a => ({ E with pool := (E.pool.act a).1 }, (E.pool.act a).2)

/-- The engine after some events. -/
def run (E : Engine ρ) : List Event → Engine ρ
  | [] => E
  | ev :: rest => (E.exec ev).1.run rest

/-- What comes back from some events. -/
def answers (E : Engine ρ) : List Event → List Answer
  | [] => []
  | ev :: rest => (E.exec ev).2 :: (E.exec ev).1.answers rest

/-- A run of which every event is admitted when it happens, and in which the tables can be counted
    at every moment. -/
def Goes (ok : Engine ρ → Event → Prop) (E : Engine ρ) : List Event → Prop
  | [] => E.pool.Bounded
  | ev :: rest => E.pool.Bounded ∧ ok E ev ∧ Goes ok (E.exec ev).1 rest

instance Goes.decidable (ok : Engine ρ → Event → Prop) [∀ E ev, Decidable (ok E ev)] :
    ∀ (E : Engine ρ) (evs : List Event), Decidable (E.Goes ok evs)
  | E, [] => inferInstanceAs (Decidable E.pool.Bounded)
  | E, ev :: rest =>
    have := Goes.decidable ok (E.exec ev).1 rest
    inferInstanceAs (Decidable (E.pool.Bounded ∧ ok E ev ∧ Goes ok (E.exec ev).1 rest))

/-- Such a run can be cut anywhere. -/
theorem Goes.split {ok : Engine ρ → Event → Prop} {E : Engine ρ} {l l' : List Event}
    (h : E.Goes ok (l ++ l')) : E.Goes ok l ∧ (E.run l).Goes ok l' := by
  induction l generalizing E with
  | nil =>
      refine ⟨?_, h⟩
      cases l' with
      | nil => exact h
      | cons ev rest => exact h.1
  | cons ev rest ih =>
      rcases ih h.2.2 with ⟨hl, hl'⟩
      exact ⟨⟨h.1, h.2.1, hl⟩, hl'⟩

/-- A call sleeps, or goes to work, or waits, or ends because its lock is refused. -/
theorem step_cases (E : Engine ρ) (c : CallNo) :
    (E.ruling c = none ∧ E.step c = (E, none)) ∨
    (∃ call locks, E.ruling c = some (call, locks, .granted) ∧
      E.step c = (E.setLocks locks).work c call) ∨
    (∃ call locks, E.ruling c = some (call, locks, .waits) ∧
      E.step c = (E.setLocks locks, none)) ∨
    (∃ call locks page mode, E.ruling c = some (call, locks, .deadlock) ∧
      call.task.demand = some (page, mode) ∧
      E.step c = ({ E.setLocks locks with calls := E.calls.erase c },
        some (call.task.fail (.deadlock call.txn page)))) := by
  -- However the request came about, what follows depends on the verdict alone.
  have hobey : ∀ (call : Call) (page : PageId) (mode : LockMode) (r : LockTable × Verdict),
      call.task.demand = some (page, mode) →
      (∃ call' locks, some (call, r) = some (call', locks, .granted) ∧
        E.obey c call page r = (E.setLocks locks).work c call') ∨
      (∃ call' locks, some (call, r) = some (call', locks, .waits) ∧
        E.obey c call page r = (E.setLocks locks, none)) ∨
      (∃ call' locks page' mode', some (call, r) = some (call', locks, .deadlock) ∧
        call'.task.demand = some (page', mode') ∧
        E.obey c call page r = ({ E.setLocks locks with calls := E.calls.erase c },
          some (call'.task.fail (.deadlock call'.txn page')))) := by
    rintro call page mode ⟨locks, v⟩ hd
    cases v with
    | granted => exact Or.inl ⟨call, locks, rfl, rfl⟩
    | waits => exact Or.inr (Or.inl ⟨call, locks, rfl, rfl⟩)
    | deadlock => exact Or.inr (Or.inr ⟨call, locks, page, mode, rfl, hd, rfl⟩)
  unfold ruling step
  cases hc : E.calls.get? c with
  | none => exact Or.inl ⟨rfl, rfl⟩
  | some call =>
      simp only
      cases hd : call.task.demand with
      | none => exact Or.inr (Or.inl ⟨call, E.pool.locks, rfl, rfl⟩)
      | some r =>
          rcases r with ⟨page, mode⟩
          simp only
          cases hw : E.pool.locks.waiterOf c with
          | none => exact Or.inr (hobey call page mode _ hd)
          | some w =>
              simp only
              -- A call that waits asks again only when it has been woken.
              by_cases hwoken : w.woken = true
              · rw [if_pos hwoken, if_pos hwoken]
                exact Or.inr (hobey call page mode _ hd)
              · rw [if_neg hwoken, if_neg hwoken]
                exact Or.inl ⟨rfl, rfl⟩

/-- A step follows the ruling on the request that it makes. -/
theorem step_eq (E : Engine ρ) (c : CallNo) :
    E.step c =
      match E.ruling c with
      | none => (E, none)
      | some (call, locks, .granted) => (E.setLocks locks).work c call
      | some (_, locks, .waits) => (E.setLocks locks, none)
      | some (call, locks, .deadlock) =>
        ({ E.setLocks locks with calls := E.calls.erase c },
          call.task.demand.map fun r => call.task.fail (.deadlock call.txn r.1)) := by
  rcases E.step_cases c with ⟨hr, heq⟩ | ⟨call, locks, hr, heq⟩ | ⟨call, locks, hr, heq⟩ |
    ⟨call, locks, page, mode, hr, hd, heq⟩
  · rw [hr, heq]
  · rw [hr, heq]
  · rw [hr, heq]
  · rw [hr, heq]
    simp only [hd, Option.map_some]

omit [EvictionOrder ρ] in
/-- A call that goes on is in progress, and demands no lock, or asks for the one it demands, or was
    woken and asks again. -/
theorem ruling_cases {E : Engine ρ} {c : CallNo} {call : Call} {locks : LockTable} {v : Verdict}
    (h : E.ruling c = some (call, locks, v)) :
    E.calls.get? c = some call ∧
      ((call.task.demand = none ∧ locks = E.pool.locks ∧ v = .granted) ∨
        ∃ page mode, call.task.demand = some (page, mode) ∧
          ((E.pool.locks.waiterOf c = none ∧
              E.pool.locks.request c call.txn page mode = (locks, v)) ∨
            ∃ w, E.pool.locks.waiterOf c = some w ∧ w.woken = true ∧
              E.pool.locks.resume w = (locks, v))) := by
  unfold ruling at h
  split at h
  · cases h
  · rename_i call' hc
    split at h
    · rename_i hd
      cases h
      exact ⟨hc, Or.inl ⟨hd, rfl, rfl⟩⟩
    · rename_i page mode hd
      split at h
      · rename_i hw
        simp only [Option.some.injEq, Prod.mk.injEq] at h
        rcases h with ⟨rfl, h⟩
        exact ⟨hc, Or.inr ⟨page, mode, hd, Or.inl ⟨hw, h⟩⟩⟩
      · rename_i w hw
        split at h
        · rename_i hwoken
          simp only [Option.some.injEq, Prod.mk.injEq] at h
          rcases h with ⟨rfl, h⟩
          exact ⟨hc, Or.inr ⟨page, mode, hd, Or.inr ⟨w, hw, hwoken, h⟩⟩⟩
        · cases h

omit [EvictionOrder ρ] in
/-- A call that makes a request is one in progress. -/
theorem get?_of_ruling {E : Engine ρ} {c : CallNo} {call : Call} {r : LockTable × Verdict}
    (h : E.ruling c = some (call, r)) : E.calls.get? c = some call :=
  (ruling_cases h).1

end Engine

/-! ## Actions -/

namespace Pool

variable {ρ : Type}

/-- Writing by a handle changes no image, whether the page is resident there or not. -/
theorem edit_spares {P : Pool ρ} (hc : P.Coherent) (n : HandleNo) (e : Edit) :
    ∃ t, Spares P t (P.edit n e).1 := by
  unfold edit
  cases hn : P.cache.handles.get? n with
  | none => exact ⟨⟨0⟩, (Performs.nil hc ⟨0⟩).toSpares⟩
  | some h =>
      -- The page may have left since, so the copy that the handle is on need not be resident.
      have hg : P.Grasps h := hc.tidy.handled n h hn
      refine ⟨h.txn, ?_⟩
      simp only
      rcases alter_cases hg fun b => .ok ((), e.apply b) with
        ⟨e', _, heq⟩ | ⟨hw, e', _, heq⟩ | ⟨hw, a, bytes, hwork, heq⟩
      · rw [heq]
        exact (Performs.nil hc h.txn).toSpares
      · rw [heq]
        exact spares_marked hc hg hw
      · rw [heq]
        cases hwork
        exact spares_written hc hg hw (e.size_apply _)

/-- Appending a page does not show. -/
theorem grow_performs {P : Pool ρ} (hc : P.Coherent) (hb : P.Bounded) (t : TableId) (u : TxnId) :
    Performs P u [] (P.grow t).1 := by
  unfold grow table
  cases hf : P.tables.get? t with
  | none => exact Performs.nil hc u
  | some f =>
      simp only
      cases ha : f.append P.disk with
      | error e => exact Performs.nil hc u
      | ok r =>
          have hlt : f.pagesOn P.disk < UInt32.size :=
            Nat.lt_of_lt_of_le (hb t f hf) (Nat.sub_le _ _)
          rcases f.append_eq_ok hlt ha with ⟨_, hd⟩
          simp only [hd]
          exact performs_grown hc hf u

/-- A round of flushes keeps a pool coherent, wherever it stops. -/
theorem forEach_flush_coherent {P : Pool ρ} (hc : P.Coherent) (l : List PageId) :
    (P.forEach flush l).1.Coherent ∧ (P.forEach flush l).1.tables = P.tables := by
  rcases forEach_flush l hc with ⟨Q, _, hf, _, ⟨heq, _⟩ | ⟨e, heq⟩⟩
  · rw [heq]
    exact ⟨hf.coherent, hf.tables⟩
  · rw [heq]
    exact ⟨hf.coherent, hf.tables⟩

/-- So does an ending, in whichever order it visits pages, and a rollback changes no image. -/
theorem finishIn_coherent {P : Pool ρ} (hc : P.Coherent) (order : List PageId) (t : TxnId)
    (e : Ending) :
    (P.finishIn order t e).1.Coherent ∧ (P.finishIn order t e).1.tables = P.tables ∧
      (e = .rollback → (P.finishIn order t e).1.stored = P.stored) := by
  cases e with
  | commit =>
      rcases finishIn_commit hc order t with ⟨Q, _, hf, _, ⟨heq, _⟩ | ⟨e, heq⟩⟩
      · rw [heq]
        exact ⟨hf.coherent.setLocks _, hf.tables, Ending.noConfusion⟩
      · rw [heq]
        exact ⟨hf.coherent, hf.tables, Ending.noConfusion⟩
  | rollback =>
      rcases finishIn_rollback hc order t with ⟨Q, _, ⟨hr, _⟩, _, ⟨heq, _⟩ | ⟨e, heq⟩⟩
      · rw [heq]
        exact ⟨hr.coherent.setLocks _, hr.tables,
          fun _ => (stored_congr rfl rfl).trans hr.stored⟩
      · rw [heq]
        exact ⟨hr.coherent, hr.tables, fun _ => hr.stored⟩

theorem finish_coherent {P : Pool ρ} (hc : P.Coherent) (t : TxnId) (e : Ending) :
    (P.finish t e).1.Coherent ∧ (P.finish t e).1.tables = P.tables ∧
      (e = .rollback → (P.finish t e).1.stored = P.stored) :=
  finishIn_coherent hc _ t e

variable [EvictionOrder ρ]

theorem abandon_coherent {P : Pool ρ} (hc : P.Coherent) (t : TxnId) :
    (P.abandon t).Coherent ∧ (P.abandon t).tables = P.tables ∧
      (P.abandon t).stored = P.stored := by
  rcases abandon_eq hc t with ⟨Q, hr, heq⟩
  rw [heq]
  exact ⟨hr.coherent.setLocks _, hr.tables, (stored_congr rfl rfl).trans hr.stored⟩

theorem close_coherent {P : Pool ρ} (hc : P.Coherent) (t : TxnId) (e : Ending) :
    (P.close t e).1.Coherent ∧ (P.close t e).1.tables = P.tables ∧
      (e = .rollback → (P.close t e).1.stored = P.stored) := by
  have hfin := finish_coherent hc t e
  unfold close
  cases hres : P.finish t e with
  | mk Q r =>
      rw [hres] at hfin
      cases r with
      | ok u => exact hfin
      | error cause =>
          -- What the ending has done so far stays, and the rest is given up.
          rcases abandon_coherent hfin.1 t with ⟨hq, ht, hs⟩
          exact ⟨hq, ht.trans hfin.2.1, fun he => hs.trans (hfin.2.2 he)⟩

/-- Every action keeps a pool coherent and its tables as they are, and only those that are meant to
    write copies out change an image. -/
theorem act_coherent {P : Pool ρ} (hc : P.Coherent) (hb : P.Bounded) (a : Action) :
    (P.act a).1.Coherent ∧ (P.act a).1.tables = P.tables ∧
      (a.flushes = false → (P.act a).1.stored = P.stored) := by
  cases a with
  | begin => exact ⟨hc.congr rfl rfl rfl, rfl, fun _ => stored_congr rfl rfl⟩
  | read n => exact ⟨hc, rfl, fun _ => rfl⟩
  | write n e =>
      rcases edit_spares hc n e with ⟨t, hs⟩
      exact ⟨hs.coherent, hs.tables, fun _ => hs.stored⟩
  | drop n =>
      exact ⟨hc.of_cache (Cache.tidy_unpin hc.tidy n) hc.copies, rfl, fun _ => stored_congr rfl rfl⟩
  | finish t e =>
      rcases finish_coherent hc t e with ⟨hq, ht, hs⟩
      cases e with
      | commit => exact ⟨hq, ht, fun h => by cases h⟩
      | rollback => exact ⟨hq, ht, fun _ => hs rfl⟩
  | close t e =>
      rcases close_coherent hc t e with ⟨hq, ht, hs⟩
      cases e with
      | commit => exact ⟨hq, ht, fun h => by cases h⟩
      | rollback => exact ⟨hq, ht, fun _ => hs rfl⟩
  | abandon t =>
      rcases abandon_coherent hc t with ⟨hq, ht, hs⟩
      exact ⟨hq, ht, fun _ => hs⟩
  | grow t =>
      have hp := grow_performs hc hb t ⟨0⟩
      exact ⟨hp.coherent, hp.tables, fun _ => hp.stored⟩
  | flushAll =>
      rcases forEach_flush_coherent hc P.cache.resident.keys with ⟨hq, ht⟩
      exact ⟨hq, ht, fun h => by cases h⟩
  | flushTxn t =>
      rcases forEach_flush_coherent hc _ with ⟨hq, ht⟩
      exact ⟨hq, ht, fun h => by cases h⟩
  | discard p =>
      have hr := restored_discard hc p
      exact ⟨hr.coherent, hr.tables, fun _ => hr.stored⟩
  | releasePage t p => exact ⟨hc.setLocks _, rfl, fun _ => stored_congr rfl rfl⟩
  | releaseLocks t => exact ⟨hc.setLocks _, rfl, fun _ => stored_congr rfl rfl⟩
  | device faults => exact ⟨hc.congr rfl rfl rfl, rfl, fun _ => stored_congr rfl rfl⟩

/-- An action leaves the locks alone, or its leaver gives all its locks back, or it gives back one
    lock. -/
theorem act_locks_cases {P : Pool ρ} (ht : P.cache.Tidy) (a : Action) :
    (P.act a).1.locks = P.locks ∨
    (∃ t, a.leaver? = some t ∧ (P.act a).1.locks = P.locks.releaseAll t) ∨
    ∃ t p, a = .releasePage t p ∧ (P.act a).1.locks = P.locks.release t p := by
  have hround : ∀ l, (P.forEach flush l).1.locks = P.locks := by
    intro l
    rcases visited_forEach_flush l ht with ⟨_, hv⟩
    exact hv.locks
  cases a with
  | begin => exact Or.inl rfl
  | read n => exact Or.inl rfl
  | write n e =>
      simp only [act, edit]
      split
      · exact Or.inl rfl
      · rename_i h _
        rcases Task.alter_apart P h fun b => .ok ((), e.apply b) with ⟨frames, hf⟩
        exact Or.inl (by simp only [hf])
  | drop n => exact Or.inl rfl
  | finish t e =>
      simp only [act, finish]
      rcases finishIn_visited ht (P.locks.exclusivePages t) t e with
        ⟨Q, _, hv, _, ⟨heq, _⟩ | ⟨cause, heq⟩⟩
      · rw [heq]
        exact Or.inr (Or.inl ⟨t, rfl, rfl⟩)
      · rw [heq]
        exact Or.inl hv.locks
  | close t e =>
      rcases close_cleaned ht t e with ⟨Q, _, _, _, heq⟩
      simp only [act, heq]
      exact Or.inr (Or.inl ⟨t, rfl, rfl⟩)
  | abandon t =>
      rcases abandon_cleaned ht t with ⟨Q, _, _, _, heq⟩
      simp only [act, heq]
      exact Or.inr (Or.inl ⟨t, rfl, rfl⟩)
  | grow t =>
      simp only [act, grow]
      split
      · exact Or.inl rfl
      · split <;> exact Or.inl rfl
  | flushAll => exact Or.inl (hround _)
  | flushTxn t => exact Or.inl (hround _)
  | discard p => exact Or.inl rfl
  | releasePage t p => exact Or.inr (Or.inr ⟨t, p, rfl, rfl⟩)
  | releaseLocks t => exact Or.inr (Or.inl ⟨t, rfl, rfl⟩)
  | device faults => exact Or.inl rfl

/-- An action leaves the locks alone, gives back all those of a transaction, or gives one back. -/
theorem act_locks {P : Pool ρ} (ht : P.cache.Tidy) (a : Action) :
    (P.act a).1.locks = P.locks ∨ (∃ t, (P.act a).1.locks = P.locks.releaseAll t) ∨
      ∃ t p, (P.act a).1.locks = P.locks.release t p := by
  rcases act_locks_cases ht a with hl | ⟨t, _, hl⟩ | ⟨t, p, _, hl⟩
  · exact Or.inl hl
  · exact Or.inr (Or.inl ⟨t, hl⟩)
  · exact Or.inr (Or.inr ⟨t, p, hl⟩)

end Pool

/-! ## Events -/

namespace Engine

variable {ρ : Type} [EvictionOrder ρ]

/-- Copies and images go together, and every call keeps to a known table file. -/
structure Sane (E : Engine ρ) : Prop where
  coherent : E.pool.Coherent
  fits : ∀ c call, E.calls.get? c = some call → call.task.Fits E.pool.tables

/-- Nothing has been done yet: no page is resident, no lock is held, no call is in progress. -/
structure Fresh (E : Engine ρ) : Prop where
  laid : E.pool.Laid
  resident : E.pool.cache.resident = ∅
  frames : E.pool.cache.frames = ∅
  handles : E.pool.cache.handles = ∅
  locks : E.pool.locks = {}
  calls : E.calls = ∅

omit [EvictionOrder ρ] in
theorem Fresh.page? {E : Engine ρ} (h : E.Fresh) (p : PageId) : E.pool.cache.page? p = none := by
  unfold Cache.page?
  rw [h.resident]
  rfl

omit [EvictionOrder ρ] in
theorem Fresh.sane {E : Engine ρ} (h : E.Fresh) : E.Sane where
  coherent := by
    refine ⟨h.laid, ⟨?_, ?_, ?_⟩, ?_⟩
    · intro p f hp
      rw [h.resident] at hp
      cases hp
    · intro n hd hn
      rw [h.handles] at hn
      cases hn
    · intro f page hf
      unfold Cache.frame? at hf
      rw [h.frames] at hf
      cases hf
    · intro p page hp
      rw [h.page?] at hp
      cases hp
  fits c call hc := by
    rw [h.calls] at hc
    cases hc

/-- The pool is the same after the work of a call whether the call goes on or has ended. -/
theorem pool_work (E : Engine ρ) (c : CallNo) (call : Call) :
    (E.work c call).1.pool = (call.task.run E.pool call.txn).1 := by
  unfold work
  split <;> rename_i hr <;> rw [hr]

/-- The work of a call, seen as its accesses. -/
theorem work_performs {E : Engine ρ} (hc : E.pool.Coherent) (hb : E.pool.Bounded) (c : CallNo)
    {call : Call} (hk : call.task.isScan = false → call.task.Fits E.pool.tables) :
    E.pool.Performs call.txn (call.task.accesses E.pool call.txn) (E.work c call).1.pool := by
  rw [pool_work]
  exact Task.run_performs hc hb call.txn hk

/-- A call that worked is at its next point, or has ended. -/
theorem calls_work (E : Engine ρ) (c : CallNo) (call : Call) :
    (∃ task, (call.task.run E.pool call.txn).2 = .inl task ∧ (E.work c call).2 = none ∧
      (E.work c call).1.calls = E.calls.insert c { call with task }) ∨
    (∃ outcome, (call.task.run E.pool call.txn).2 = .inr outcome ∧
      (E.work c call).2 = some outcome ∧ (E.work c call).1.calls = E.calls.erase c) := by
  unfold work
  cases hr : call.task.run E.pool call.txn with
  | mk Q r =>
      cases r with
      | inl task => exact Or.inl ⟨task, rfl, rfl, rfl⟩
      | inr outcome => exact Or.inr ⟨outcome, rfl, rfl, rfl⟩

omit [EvictionOrder ρ] in
/-- A call in progress after one more began is that one or an older one. -/
theorem get?_submit {E : Engine ρ} {t : TxnId} {task : Task} {c : CallNo} {call : Call}
    (h : (E.submit t task).2.calls.get? c = some call) :
    (c = ⟨E.nextCall⟩ ∧ call = ⟨t, task⟩) ∨ E.calls.get? c = some call := by
  simp only [submit, Assoc.get?_insert] at h
  split at h
  · rename_i heq
    exact Or.inl ⟨heq, (Option.some.inj h).symm⟩
  · exact Or.inr h

/-- What the work of a call can do to the pool. -/
theorem work_worked (E : Engine ρ) (c : CallNo) (call : Call) :
    Task.Worked call.txn E.pool (E.work c call).1.pool := by
  rw [pool_work]
  exact call.task.run_worked E.pool call.txn

/-- A step changes the locks as the ruling says, and then does at most the work of the call. -/
theorem worked_step {E : Engine ρ} {c : CallNo} {call : Call} {locks : LockTable} {v : Verdict}
    (h : E.ruling c = some (call, locks, v)) :
    Task.Worked call.txn (E.pool.setLocks locks) (E.step c).1.pool := by
  rw [step_eq, h]
  cases v with
  | granted => exact (E.setLocks locks).work_worked c call
  | waits => exact .same
  | deadlock => exact .same

/-- A step changes the cache, the disk and the locks at most. -/
theorem apart_step (E : Engine ρ) (c : CallNo) :
    ∃ cache disk locks, (E.step c).1.pool = { E.pool with cache, disk, locks } := by
  cases hrule : E.ruling c with
  | none => exact ⟨E.pool.cache, E.pool.disk, E.pool.locks, by rw [step_eq, hrule]⟩
  | some r =>
      rcases (worked_step hrule).apart with ⟨cache, disk, heq⟩
      exact ⟨cache, disk, _, heq⟩

/-- A call in progress after a step was at the same point before, or is the one that took the step
    and is where its work has led it. -/
theorem calls_step {E : Engine ρ} {c c' : CallNo} {call' : Call}
    (h : (E.step c).1.calls.get? c' = some call') :
    E.calls.get? c' = some call' ∨ c' = c ∧ ∃ call locks,
      E.ruling c = some (call, locks, .granted) ∧ call'.txn = call.txn ∧
      (call.task.run (E.setLocks locks).pool call.txn).2 = .inl call'.task := by
  rcases E.step_cases c with ⟨_, heq⟩ | ⟨call, locks, hrule, heq⟩ | ⟨call, locks, _, heq⟩ |
    ⟨call, locks, page, mode, _, _, heq⟩
  · rw [heq] at h
    exact Or.inl h
  · rw [heq] at h
    rcases (E.setLocks locks).calls_work c call with ⟨task, hrun, _, hcalls⟩ | ⟨_, _, _, hcalls⟩
    · rw [hcalls, Assoc.get?_insert] at h
      split at h
      · rename_i hc
        cases h
        exact Or.inr ⟨hc, call, locks, hrule, rfl, hrun⟩
      · exact Or.inl h
    · rw [hcalls, Assoc.get?_erase] at h
      split at h
      · cases h
      · exact Or.inl h
  · rw [heq] at h
    exact Or.inl h
  · rw [heq] at h
    simp only [Assoc.get?_erase] at h
    split at h
    · cases h
    · exact Or.inl h

/-- A call that ends by a step has done its last work, or was refused its lock. -/
theorem ends_cases {E : Engine ρ} {c : CallNo} {call : Call} (hcall : E.calls.get? c = some call)
    {outcome : Outcome} (ho : (E.step c).2 = some outcome) :
    (∃ locks Q, E.ruling c = some (call, locks, .granted) ∧
      call.task.run (E.pool.setLocks locks) call.txn = (Q, .inr outcome)) ∨
    ∃ page, outcome = call.task.fail (.deadlock call.txn page) := by
  rcases E.step_cases c with ⟨_, heq⟩ | ⟨call', locks, hrule, heq⟩ | ⟨_, _, _, heq⟩ |
    ⟨call', locks, page, mode, hrule, _, heq⟩
  · rw [heq] at ho
    cases ho
  · cases hcall.symm.trans (get?_of_ruling hrule)
    rw [heq] at ho
    rcases (E.setLocks locks).calls_work c call with ⟨_, _, hnone, _⟩ | ⟨_, hrun, hsome, _⟩
    · cases hnone.symm.trans ho
    · cases hsome.symm.trans ho
      exact Or.inl ⟨locks, _, hrule, Prod.ext rfl hrun⟩
  · rw [heq] at ho
    cases ho
  · cases hcall.symm.trans (get?_of_ruling hrule)
    rw [heq] at ho
    cases ho
    exact Or.inr ⟨page, rfl⟩

/-- A step of a call performs accesses and changes no image. A cursor may be on any table file. -/
theorem coherent_step {E : Engine ρ} (hc : E.pool.Coherent) (hb : E.pool.Bounded) {c : CallNo}
    (hk : ∀ call, E.calls.get? c = some call → call.task.isScan = false →
      call.task.Fits E.pool.tables) :
    (E.step c).1.pool.Coherent ∧ (E.step c).1.pool.stored = E.pool.stored ∧
      (E.step c).1.pool.tables = E.pool.tables := by
  rcases E.step_cases c with ⟨_, heq⟩ | ⟨call, locks, hrule, heq⟩ | ⟨call, locks, _, heq⟩ |
    ⟨call, locks, page, mode, _, _, heq⟩
  · rw [heq]
    exact ⟨hc, rfl, rfl⟩
  · rw [heq]
    have hp := work_performs (E := E.setLocks locks) (hc.setLocks locks) hb c
      (hk call (get?_of_ruling hrule))
    exact ⟨hp.coherent, hp.stored.trans (Pool.stored_congr rfl rfl), hp.tables⟩
  · rw [heq]
    exact ⟨hc.setLocks locks, Pool.stored_congr rfl rfl, rfl⟩
  · rw [heq]
    exact ⟨hc.setLocks locks, Pool.stored_congr rfl rfl, rfl⟩

/-- A step of a call changes no image. -/
theorem sane_step {E : Engine ρ} (hs : E.Sane) (hb : E.pool.Bounded) (c : CallNo) :
    (E.step c).1.Sane ∧ (E.step c).1.pool.stored = E.pool.stored ∧
      (E.step c).1.pool.tables = E.pool.tables := by
  rcases coherent_step hs.coherent hb fun call hcall _ => hs.fits c call hcall with ⟨hc, hst, ht⟩
  refine ⟨⟨hc, fun c' call' h => ?_⟩, hst, ht⟩
  rw [ht]
  -- The call goes on with a table file that it knew, or looked one up, or is gone.
  rcases calls_step h with hold | ⟨_, call, locks, hrule, _, hrun⟩
  · exact hs.fits c' call' hold
  · have hk := hs.fits c call (get?_of_ruling hrule)
    exact Task.run_fits (P := (E.setLocks locks).pool) (hs.coherent.setLocks locks) hk hrun

/-- Every event keeps an engine sane, if a call that begins keeps to a known table file. -/
theorem sane_exec {E : Engine ρ} (hs : E.Sane) (hb : E.pool.Bounded) {ev : Event}
    (hk : ev.Fits E.pool.tables) :
    (E.exec ev).1.Sane ∧ (E.exec ev).1.pool.tables = E.pool.tables := by
  cases ev with
  | submit t task =>
      refine ⟨⟨hs.coherent, fun c call h => ?_⟩, rfl⟩
      rcases get?_submit h with ⟨_, rfl⟩ | hold
      · exact hk
      · exact hs.fits c call hold
  | step c =>
      rcases sane_step hs hb c with ⟨hs', _, ht⟩
      exact ⟨hs', ht⟩
  | act a =>
      rcases Pool.act_coherent hs.coherent hb a with ⟨hc, ht, _⟩
      -- Calls are as before, and so are the tables that they keep to.
      refine ⟨⟨hc, fun c call h => ?_⟩, ht⟩
      have hk := hs.fits c call h
      simp only [exec, ht]
      exact hk

end Engine

/-! ## A small pool -/

/-- Pages of two bytes, which have one slot for a row of one byte. -/
def Layout.tiny : Layout := ⟨2, 1, by decide, by decide, by decide⟩

/-- A table of such pages. -/
def TableFile.tiny : TableFile := ⟨⟨1⟩, ⟨0⟩, "tiny.tbl", Layout.tiny⟩

namespace Engine

/-- A pool with so many frames, and with one table, of two empty pages. -/
def tiny {ρ : Type} (frames : Nat) (order : ρ) : Engine ρ where
  pool := (Pool.ofFrames frames order (Disk.put {} ⟨0⟩ (FileImage.empty.resize 4))).register .tiny

theorem fresh_tiny {ρ : Type} (frames : Nat) (order : ρ) : (tiny frames order).Fresh := by
  have hl : (tiny 0 ()).pool.Laid := by decide +kernel
  exact ⟨hl.congr rfl rfl, rfl, rfl, rfl, rfl, rfl⟩

end Engine

end RowStore
