import RowStore.Proofs.Moves
import RowStore.Proofs.Ranking

/-!
# The Least Recently Fetched Page Leaves

Exact eviction over whole histories.

A history of a pool can be read as the list of all fetches that succeeded, in the order
in which they were made, whoever made them: a caller that wants a page, an insertion that
looks for room, a deletion, a scan. By this list alone it can be told which page has to
leave when one is fetched and there is no frame to spare. The record with its ticks is
kept right by everything that happens to a pool in between, also by what fails, by pages
that leave without being written out and by transactions that are given up.

The pool is a new one to begin with, and its tables have a whole file each. Afterwards
nothing is asked of tables, files, locks or devices, and the number of frames may be any,
even none. Only the record must not be made another one by others.

## Main definitions

* `Engine.getsBy`, `Engine.fetched`: The fetches that succeed in a move, and in some moves.

## Theorems

* `Task.run_of_fetches`: The work of a point does with residents and record what its fetch does.
* `Engine.sheds_move`: A move that is not a step of a call takes no page in.
* `Engine.ranked_move`, `Engine.ranked_moves`: The record is right after every history.
* `Engine.least_recent_leaves`: What becomes of a fetch that is granted its lock.
-/

namespace RowStore

namespace Task

variable {ρ : Type} [EvictionOrder ρ]

/-- A point that fetches no page leaves the cache alone. -/
theorem cache_run_of_none {task : Task} (hf : task.fetches? = none) (P : Pool ρ) (t : TxnId) :
    (task.run P t).1.cache = P.cache := by
  cases task with
  | lock page access => rfl
  | insert job =>
      simp only [run]
      split
      · rfl
      · split
        · rfl
        · split <;> rfl
  | survey job file row page => rfl
  | seek job file row page count =>
      simp only [run]
      split
      · rfl
      · split <;> rfl
  | delete row =>
      cases row with
      | none => rfl
      | some row =>
          simp only [run]
          split
          · rfl
          · split <;> rfl
  | advance cursor goal =>
      simp only [run]
      split
      · rfl
      · split
        · rfl
        · split <;> rfl
  | fetch page access keep => cases hf
  | inspect job file row page count => cases hf
  | claim job file row page => cases hf
  | remove file row => cases hf
  | load cursor goal => cases hf

/-- A point whose page cannot be fetched does nothing else, and its call ends. If the page can be
    fetched, the work that follows changes copies and handles, but not which pages are resident
    and not the record. -/
theorem run_of_fetches {task : Task} {p : PageId} {access : Access}
    (hf : task.fetches? = some (p, access)) (P : Pool ρ) (t : TxnId) :
    (∃ e, (P.fetch p).2 = .error e ∧ task.run P t = ((P.fetch p).1, .inr (task.fail e))) ∨
    ∃ f frames handles nextHandle, (P.fetch p).2 = .ok f ∧
      (task.run P t).1.cache = { (P.fetch p).1.cache with frames, handles, nextHandle } := by
  cases hres : P.fetch p with
  | mk Q r =>
      cases r with
      | error e =>
          refine Or.inl ⟨e, rfl, ?_⟩
          have hh : fetchHandle P t p access = (Q, .error e) := by simp only [fetchHandle, hres]
          cases task <;> cases hf <;> simp only [run, hh, fail]
      | ok f =>
          have hh : fetchHandle P t p access = (Q, .ok ⟨p, f, t, access⟩) := by
            simp only [fetchHandle, hres]
          -- What is written by the handle goes to the copies.
          have hwrites : ∀ {α : Type} (work : Bytes → Except StoreError (α × Bytes)) R r,
              Q.alter ⟨p, f, t, access⟩ work = (R, r) → ∃ g frames handles nextHandle,
                (.ok f : Except StoreError FrameNo) = .ok g ∧
                  R.cache = { Q.cache with frames, handles, nextHandle } := by
            intro α work R r h
            rcases alter_apart Q ⟨p, f, t, access⟩ work with ⟨frames, heq⟩
            rw [h] at heq
            exact ⟨f, frames, _, _, rfl, congrArg Pool.cache heq⟩
          refine Or.inr ?_
          cases task with
          | fetch page a keep =>
              cases hf
              simp only [run, hh]
              split <;> exact ⟨f, _, _, _, rfl, rfl⟩
          | inspect job file row page count =>
              cases hf
              simp only [run, hh]
              split <;> exact ⟨f, _, _, _, rfl, rfl⟩
          | claim job file row page =>
              cases hf
              simp only [run, hh, putRow_eq]
              split
              · exact hwrites _ _ _ ‹_›
              · exact hwrites _ _ _ ‹_›
          | remove file row =>
              cases hf
              simp only [run, hh, dropRow_eq]
              split
              · exact ⟨f, _, _, _, rfl, rfl⟩
              · split
                · exact hwrites _ _ _ ‹_›
                · exact hwrites _ _ _ ‹_›
          | load cursor goal =>
              cases hf
              simp only [run, hh]
              split <;> exact ⟨f, _, _, _, rfl, rfl⟩
          | lock page a => cases hf
          | insert job => cases hf
          | survey job file row page => cases hf
          | seek job file row page count => cases hf
          | delete row => cases hf
          | advance cursor goal => cases hf

/-- In both cases the resident pages and the record are as the fetch leaves them. -/
theorem record_run_of_fetches {task : Task} {p : PageId} {access : Access}
    (hf : task.fetches? = some (p, access)) (P : Pool ρ) (t : TxnId) :
    (task.run P t).1.cache.resident = (P.fetch p).1.cache.resident ∧
      (task.run P t).1.cache.order = (P.fetch p).1.cache.order := by
  rcases run_of_fetches hf P t with ⟨e, _, hrun⟩ | ⟨f, _, _, _, _, hrun⟩
  · rw [hrun]
    exact ⟨rfl, rfl⟩
  · rw [hrun]
    exact ⟨rfl, rfl⟩

/-- A caller that wants a page gets its copy as the fetch left it. -/
theorem frames_run_fetch (P : Pool ρ) (t : TxnId) (p : PageId) (access : Access) (keep : Bool) :
    (run P t (.fetch p access keep)).1.cache.frames = (P.fetch p).1.cache.frames := by
  cases hres : P.fetch p with
  | mk Q r =>
      cases r with
      | error e => simp only [run, fetchHandle, hres]
      | ok f =>
          simp only [run, fetchHandle, hres]
          split <;> rfl

end Task

/-! ## Moves that are no steps of calls -/

namespace Pool

variable {ρ : Type} [EvictionOrder ρ]

theorem Visited.sheds {P Q : Pool ρ} {l : List PageId} (h : Visited P Q l) :
    P.cache.Sheds Q.cache := .of_eq h.resident h.order h.capacity

theorem sheds_foldl_discard (l : List PageId) (P : Pool ρ) :
    P.cache.Sheds (l.foldl discard P).cache := by
  induction l generalizing P with
  | nil => exact .of_eq rfl rfl rfl
  | cons p rest ih => exact (P.cache.sheds_discard p).trans (ih (P.discard p))

section ending

variable {P : Pool ρ} (ht : P.cache.Tidy)

include ht

theorem sheds_finishIn (order : List PageId) (t : TxnId) (e : Ending) :
    P.cache.Sheds (P.finishIn order t e).1.cache := by
  rcases finishIn_visited ht order t e with ⟨Q, _, hv, _, ⟨heq, _⟩ | ⟨cause, heq⟩⟩ <;> rw [heq]
  · exact hv.sheds
  · exact hv.sheds

theorem sheds_abandon (t : TxnId) : P.cache.Sheds (P.abandon t).cache := by
  have hfin := sheds_finishIn ht (P.locks.exclusivePages t) t .rollback
  unfold abandon finish
  split
  · rename_i heq
    rw [heq] at hfin
    exact hfin
  · rename_i Q _ heq
    rw [heq] at hfin
    exact hfin.trans (sheds_foldl_discard _ Q)

theorem sheds_close (t : TxnId) (e : Ending) : P.cache.Sheds (P.close t e).1.cache := by
  have hfin := sheds_finishIn ht (P.locks.exclusivePages t) t e
  have htidy : (P.finish t e).1.cache.Tidy := tidy_act ht (.finish t e)
  unfold close
  unfold finish at htidy ⊢
  split
  · rename_i heq
    rw [heq] at hfin
    exact hfin
  · rename_i Q _ heq
    rw [heq] at hfin htidy
    exact hfin.trans (sheds_abandon htidy t)

/-- An action takes no page in and uses none. -/
theorem sheds_act (a : Action) : P.cache.Sheds (P.act a).1.cache := by
  have hround : ∀ l, P.cache.Sheds (P.forEach flush l).1.cache := by
    intro l
    rcases visited_forEach_flush l ht with ⟨_, hv⟩
    exact hv.sheds
  cases a with
  | write n e =>
      simp only [act, edit]
      cases hn : P.cache.handles.get? n with
      | none => exact .of_eq rfl rfl rfl
      | some h =>
          rcases Task.alter_apart P h fun b => .ok ((), e.apply b) with ⟨frames, hf⟩
          simp only [hf]
          exact .of_eq rfl rfl rfl
  | finish t e => exact sheds_finishIn ht _ t e
  | close t e => exact sheds_close ht t e
  | abandon t => exact sheds_abandon ht t
  | grow t =>
      simp only [act, grow]
      split
      · exact .of_eq rfl rfl rfl
      · split <;> exact .of_eq rfl rfl rfl
  | flushAll => exact hround _
  | flushTxn t => exact hround _
  | discard p => exact P.cache.sheds_discard p
  | begin | read _ | drop _ | releasePage _ _ | releaseLocks _ | device _ =>
      exact .of_eq rfl rfl rfl

end ending

end Pool

/-- Whether others make the record of use another one. -/
def Move.reorders {ρ : Type} : Move ρ → Bool
  | .reorder _ => true
  | _ => false

namespace Engine

/-- A move that is not a step of a call takes no page in and uses none. -/
theorem sheds_move {ρ : Type} [EvictionOrder ρ] {E : Engine ρ} (ht : E.pool.cache.Tidy)
    {m : Move ρ} (hm : m.reorders = false) :
    (∃ c, m = .event (.step c)) ∨ E.pool.cache.Sheds (E.move m).pool.cache := by
  cases m with
  | event ev =>
      cases ev with
      | submit t task => exact Or.inr (.of_eq rfl rfl rfl)
      | step c => exact Or.inl ⟨c, rfl⟩
      | act a => exact Or.inr (Pool.sheds_act ht a)
  | finishIn order t e => exact Or.inr (Pool.sheds_finishIn ht order t e)
  | giveUp t => exact Or.inr (Pool.sheds_foldl_discard _ E.pool)
  | register f => exact Or.inr (.of_eq rfl rfl rfl)
  | outside disk => exact Or.inr (.of_eq rfl rfl rfl)
  | reorder order => cases hm

/-! ## Histories -/

/-- The page of the fetch that succeeds in a move, if there is one: a call is granted its lock and
    then fetches the page of its point. -/
def getsBy (E : Engine Recency) : Move Recency → List PageId
  | .event (.step c) =>
    match E.ruling c with
    | some (call, locks, .granted) =>
      match call.task.fetches? with
      | some (p, _) => (E.pool.setLocks locks).gets p
      | none => []
    | _ => []
  | _ => []

/-- All fetches that succeed in some moves, in order. -/
def fetched (E : Engine Recency) : List (Move Recency) → List PageId
  | [] => []
  | m :: rest => E.getsBy m ++ (E.move m).fetched rest

variable {frames : Nat} {log : List PageId} {E : Engine Recency}

/-- A step of a call keeps the record right. -/
theorem ranked_step (h : E.pool.cache.Ranked frames log) (c : CallNo) :
    (E.step c).1.pool.cache.Ranked frames (log ++ E.getsBy (.event (.step c))) := by
  have hidle := (List.append_nil log).symm ▸ h
  rcases E.step_cases c with ⟨hrule, heq⟩ | ⟨call, locks, hrule, heq⟩ | ⟨call, locks, hrule, heq⟩ |
    ⟨call, locks, page, mode, hrule, _, heq⟩
  · simp only [heq, getsBy, hrule]
    exact hidle
  · have hset : (E.pool.setLocks locks).cache.Ranked frames log := h
    have htidy : (E.step c).1.pool.cache.Tidy := tidy_move h.toTidy (.event (.step c))
    have hpool : (E.step c).1.pool = (call.task.run (E.pool.setLocks locks) call.txn).1 := by
      rw [heq]
      exact (E.setLocks locks).pool_work c call
    rw [hpool] at htidy ⊢
    simp only [getsBy, hrule]
    cases hf : call.task.fetches? with
    | none =>
        rw [Task.cache_run_of_none hf]
        exact hidle
    | some r =>
        have hfetch := Pool.ranked_fetch hset r.1
        rcases Task.run_of_fetches hf (E.pool.setLocks locks) call.txn with
          ⟨e, _, hrun⟩ | ⟨f, frames, handles, next, _, hrun⟩
        · rw [hrun]
          exact hfetch
        · refine hfetch.congr htidy ?_ ?_ ?_ <;> rw [hrun]
  · simp only [heq, getsBy, hrule]
    exact hidle
  · simp only [heq, getsBy, hrule]
    exact hidle

/-- So does every move, if others leave the record alone. -/
theorem ranked_move (h : E.pool.cache.Ranked frames log) {m : Move Recency}
    (hm : m.reorders = false) :
    (E.move m).pool.cache.Ranked frames (log ++ E.getsBy m) := by
  by_cases hstep : ∃ c, m = .event (.step c)
  · rcases hstep with ⟨c, rfl⟩
    exact ranked_step h c
  · -- Only steps fetch pages, so nothing is added to the list.
    have hnone : E.getsBy m = [] := by
      cases m with
      | event ev =>
          cases ev with
          | step c => exact absurd ⟨c, rfl⟩ hstep
          | submit t task | act a => rfl
      | _ => rfl
    rw [hnone, List.append_nil]
    exact Cache.ranked_sheds h ((sheds_move h.toTidy hm).resolve_left hstep)
      (tidy_move h.toTidy m)

/-- And so does a history. -/
theorem ranked_moves (ms : List (Move Recency)) : ∀ {E : Engine Recency} {log : List PageId},
    E.pool.cache.Ranked frames log → (∀ m ∈ ms, m.reorders = false) →
      (E.moves ms).pool.cache.Ranked frames (log ++ E.fetched ms) := by
  induction ms with
  | nil =>
      intro E log h _
      exact (List.append_nil log).symm ▸ h
  | cons m rest ih =>
      intro E log h hms
      have hm := ranked_move h (hms m List.mem_cons_self)
      have hrest := ih hm fun m' hm' => hms m' (List.mem_cons_of_mem m hm')
      rw [List.append_assoc] at hrest
      exact hrest

/-- A new pool has nothing on record, and nothing was fetched. -/
theorem Fresh.ranked (h : E.Fresh) (ho : E.pool.cache.order = {}) :
    E.pool.cache.Ranked E.pool.cache.capacity [] where
  toRecorded := h.recorded ho
  ranks := by
    rw [ho]
    exact ⟨List.forall_mem_nil _, List.Pairwise.nil⟩

/-- **The least recently fetched page leaves.** Whatever has happened to a new pool of any number of
    frames, and whichever point of whichever call comes to fetch a page: if its lock is refused, or
    not granted yet, nothing but the locks is changed. If it is granted, the page is fetched as
    `Pool.GetsPage` says by the list of all fetches so far. A fetch that fails ends the call and
    changes nothing. After one that succeeds the work of the point leaves the resident pages and the
    record as the fetch made them, and the copies too, if a page was wanted and no more. -/
theorem least_recent_leaves (h₀ : E.Fresh) (ho : E.pool.cache.order = {})
    {ms : List (Move Recency)} (hms : ∀ m ∈ ms, m.reorders = false) {c : CallNo} {call : Call}
    {locks : LockTable} {v : Verdict} (hrule : (E.moves ms).ruling c = some (call, locks, v))
    {p : PageId} {access : Access} (hf : call.task.fetches? = some (p, access)) :
    let P := (E.moves ms).pool.setLocks locks
    let Q := ((E.moves ms).step c).1.pool
    (v ≠ .granted → Q = P) ∧
    (v = .granted →
      P.GetsPage (E.fetched ms) p (P.fetch p).1 (P.fetch p).2 ∧
      (∀ e, (P.fetch p).2 = .error e →
        Q = P ∧ ((E.moves ms).step c).2 = some (call.task.fail e)) ∧
      Q.cache.resident = (P.fetch p).1.cache.resident ∧
      Q.cache.order = (P.fetch p).1.cache.order ∧
      (∀ keep, call.task = .fetch p access keep →
        Q.cache.frames = (P.fetch p).1.cache.frames)) := by
  intro P Q
  have hranked : P.cache.Ranked E.pool.cache.capacity (E.fetched ms) := by
    have h := ranked_moves ms (h₀.ranked ho) hms
    rwa [List.nil_append] at h
  constructor
  · intro hv
    show ((E.moves ms).step c).1.pool = P
    rw [step_eq, hrule]
    cases v with
    | granted => exact absurd rfl hv
    | waits => rfl
    | deadlock => rfl
  · rintro rfl
    have hgets := Pool.getsPage_fetch hranked p
    have hwork : (E.moves ms).step c = ((E.moves ms).setLocks locks).work c call := by
      rw [step_eq, hrule]
    have hQ : Q = (call.task.run P call.txn).1 := (congrArg (·.1.pool) hwork).trans
      (pool_work _ c call)
    refine ⟨hgets, fun e he => ?_, ?_⟩
    · rw [he] at hgets
      rcases Task.run_of_fetches hf P call.txn with ⟨e', he', hrun⟩ | ⟨f, _, _, _, hok, _⟩
      · cases he.symm.trans he'
        refine ⟨?_, ?_⟩
        · rw [hQ, hrun]
          exact hgets.failed
        · rw [hwork]
          rcases ((E.moves ms).setLocks locks).calls_work c call with
            ⟨task, hinl, _, _⟩ | ⟨outcome, hinr, hout, _⟩
          · cases (congrArg Prod.snd hrun).symm.trans hinl
          · cases (congrArg Prod.snd hrun).symm.trans hinr
            exact hout
      · cases he.symm.trans hok
    · rw [hQ]
      rcases Task.record_run_of_fetches hf P call.txn with ⟨hresident, horder⟩
      refine ⟨hresident, horder, fun keep htask => ?_⟩
      rw [htask]
      exact Task.frames_run_fetch P call.txn p access keep

/-- Two frames, and a table that has become three pages long: the first two pages are fetched, then
    the first again, and now the third is wanted. -/
def usedAgain : List (Move Recency) :=
  [.event (.act (.grow ⟨1⟩)),
    .event (.submit ⟨1⟩ (.fetch ⟨⟨1⟩, 0⟩ .readOnly false)), .event (.step ⟨0⟩),
    .event (.submit ⟨1⟩ (.fetch ⟨⟨1⟩, 1⟩ .readOnly false)), .event (.step ⟨1⟩),
    .event (.submit ⟨1⟩ (.fetch ⟨⟨1⟩, 0⟩ .readOnly false)), .event (.step ⟨2⟩),
    .event (.submit ⟨1⟩ (.fetch ⟨⟨1⟩, 2⟩ .readOnly false))]

/-- The second page leaves, although the first one came before it. -/
theorem least_recent_leaves_usedAgain :
    (tiny 2 ({} : Recency)).fetched usedAgain = [⟨⟨1⟩, 0⟩, ⟨⟨1⟩, 1⟩, ⟨⟨1⟩, 0⟩] ∧
    ∃ call locks,
      ((tiny 2 ({} : Recency)).moves usedAgain).ruling ⟨3⟩ = some (call, locks, .granted) ∧
      (((tiny 2 ({} : Recency)).moves usedAgain).pool.setLocks locks).GetsPage
        [⟨⟨1⟩, 0⟩, ⟨⟨1⟩, 1⟩, ⟨⟨1⟩, 0⟩] ⟨⟨1⟩, 2⟩
        ((((tiny 2 ({} : Recency)).moves usedAgain).pool.setLocks locks).fetch ⟨⟨1⟩, 2⟩).1
        (.ok ⟨2⟩) ∧
      (((tiny 2 ({} : Recency)).moves usedAgain).step ⟨3⟩).1.pool.cache.resident.get? ⟨⟨1⟩, 1⟩ =
        none := by
  have hlog : (tiny 2 ({} : Recency)).fetched usedAgain = [⟨⟨1⟩, 0⟩, ⟨⟨1⟩, 1⟩, ⟨⟨1⟩, 0⟩] := by
    decide +kernel
  obtain ⟨call, locks, hrule, hf, hok⟩ : ∃ call locks,
      ((tiny 2 ({} : Recency)).moves usedAgain).ruling ⟨3⟩ = some (call, locks, .granted) ∧
      call.task.fetches? = some (⟨⟨1⟩, 2⟩, .readOnly) ∧
      ((((tiny 2 ({} : Recency)).moves usedAgain).pool.setLocks locks).fetch ⟨⟨1⟩, 2⟩).2 =
        .ok ⟨2⟩ :=
    ⟨_, _, rfl, rfl, rfl⟩
  have hms : ∀ m ∈ usedAgain, m.reorders = false := by decide
  have h := (least_recent_leaves (fresh_tiny 2 ({} : Recency)) rfl hms hrule hf).2 rfl
  rw [hlog, hok] at h
  exact ⟨hlog, call, locks, hrule, h.1, by decide +kernel⟩

end Engine

end RowStore
