import RowStore.Proofs.Durability
import RowStore.Proofs.RowCalls
import RowStore.Proofs.Serial
import RowStore.Proofs.Upkeep

/-!
# The Books of a Run

What becomes of the rows of a pool that any number of transactions work on, each
until it commits or rolls back.

Books are kept of the run: what every call was asked for and has done, what every
transaction has done since it began, and what those did that have ended by a commit,
in the order in which they ended. The books know of rows and not of pages. They go
together with the history of accesses to pages, entry by entry, and so inherit what
the locks have seen to: what has been settled can be done again on the rows that there
were to begin with, one transaction after the other, and comes to the rows on disk.

So no row is lost, none is there twice, and none comes back. When nobody is at work
any more, a scan finds just the rows that the books say.

Calls may wait, be refused a lock, or fail because no frame is free or the device
refuses a transfer. Endings are asked to succeed, and of the calls none may be resumed
that was overtaken (`RowStore.Proofs.Requests`). That is all that is asked of the calls of
one transaction that are made at the same time. `Engine.overtaken_insert_lost` shows what
comes of it otherwise: a row that was committed is gone.

## Main definitions

* `Books`: What was asked for, what was done, and what is settled.
* `Engine.Keeping`: The events that are admitted.
* `Engine.books`: The books of a run.
* `Told`: Books and history go together.
* `Engine.Accounted`: So do the calls in progress and the pool.

## Theorems

* `Engine.shown_step`: What the books say of a step is done to the rows that are shown.
* `Engine.reports_step`: A call that ends says what the books say.
* `Engine.accounted_exec`, `Engine.accounted_run`: Every event keeps all of it together.
* `Engine.scan_finds_settled_rows`: What a scan finds when nobody is at work any more.
* `Engine.overtaken_insert_lost`: It need not if an overtaken call is resumed.
-/

namespace RowStore

/-- What every call was asked for and has done, which transactions are running and what each has
    done since it began, and what those have done that committed, in the order in which they did. -/
structure Books where
  asked : CallNo → Option Task := fun _ => none
  done : CallNo → List RowOp := fun _ => []
  running : List TxnId := []
  doing : TxnId → List RowOp := fun _ => []
  settled : List RowOp := []

namespace Books

/-- A transaction makes a call. -/
def start (B : Books) (c : CallNo) (t : TxnId) (task : Task) : Books :=
  { B with
    asked := fun d => if d = c then some task else B.asked d
    done := fun d => if d = c then [] else B.done d
    running := B.running.insert t }

/-- A call of a transaction goes on, and may do something to rows. -/
def enter (B : Books) (c : CallNo) (t : TxnId) (ops : List RowOp) : Books :=
  { B with
    done := fun d => if d = c then B.done c ++ ops else B.done d
    running := B.running.insert t
    doing := fun u => if u = t then B.doing t ++ ops else B.doing u }

/-- A transaction ends. -/
def close (B : Books) (t : TxnId) (e : Ending) : Books :=
  { B with
    running := B.running.filter (· ≠ t)
    doing := fun u => if u = t then [] else B.doing u
    settled := match e with
      | .commit => B.settled ++ B.doing t
      | .rollback => B.settled }

end Books

/-- Whether an action leaves it to the calls to change rows, and gives back no lock but by an
    ending. -/
def Action.sparesRows : Action → Bool
  | .begin | .read _ | .drop _ | .finish _ _ | .close _ _ | .abandon _ | .grow _ | .device _ =>
    true
  | .write _ _ | .flushAll | .flushTxn _ | .discard _ | .releasePage _ _ | .releaseLocks _ => false

namespace Action

variable {a : Action} (h : a.sparesRows = true)

include h

theorem keepsLocks_of_sparesRows : a.keepsLocks = true := by
  cases a with
  | releasePage _ _ | releaseLocks _ => cases h
  | _ => rfl

theorem isPlain_of_sparesRows : a.isPlain = true := by
  cases a with
  | flushAll | flushTxn _ | discard _ | releasePage _ _ | releaseLocks _ => cases h
  | _ => rfl

end Action

namespace Engine

section books

variable {ρ : Type} [EvictionOrder ρ]

/-- The events that are admitted: a call begins, a call that is not overtaken takes a step, an
    ending succeeds, or an action is taken that spares rows. -/
def Keeping (E : Engine ρ) : Event → Prop
  | .submit _ task => task.isEntry = true ∧ task.Fits E.pool.tables
  | .step c => E.Firm (.step c)
  | .act a => a.sparesRows = true ∧ ∀ r ∈ a.ending?, (E.pool.finish r.1 r.2).2.isOk = true

instance (E : Engine ρ) (ev : Event) : Decidable (E.Keeping ev) :=
  match ev with
  | .submit _ task => inferInstanceAs (Decidable (task.isEntry = true ∧ task.Fits E.pool.tables))
  | .step c => inferInstanceAs (Decidable (E.Firm (.step c)))
  | .act a => inferInstanceAs (Decidable (a.sparesRows = true ∧
      ∀ r ∈ a.ending?, (E.pool.finish r.1 r.2).2.isOk = true))

/-- What a step of a call does to rows. -/
def changes (E : Engine ρ) (c : CallNo) : List RowOp :=
  match E.ruling c with
  | some (call, locks, .granted) => call.task.changes (E.setLocks locks).pool call.txn
  | _ => []

/-- The books after an event. -/
def book (E : Engine ρ) (B : Books) : Event → Books
  | .submit t task => B.start ⟨E.nextCall⟩ t task
  | .step c =>
    match E.ruling c with
    | some (call, _, _) => B.enter c call.txn (E.changes c)
    | none => B
  | .act a =>
    match a.ending? with
    | some (t, e) => B.close t e
    | none => B

/-- The books after some events. -/
def books (E : Engine ρ) (B : Books) : List Event → Books
  | [] => B
  | ev :: rest => (E.exec ev).1.books (E.book B ev) rest

end books

end Engine

/-! ## Books and history -/

/-- The books tell of rows what the history tells of pages. -/
structure Told (tables : Assoc TableId TableFile) (H : History) (B : Books) : Prop where
  doing : ∀ t, Tells tables (H.doing t) (B.doing t)
  settled : Tells tables H.serial B.settled

section Told

variable {tables : Assoc TableId TableFile} {H : History} {B : Books} (h : Told tables H B)

include h

/-- A transaction has had access to pages, and the books have an entry that tells the same. -/
theorem Told.access {t : TxnId} {ops : List PageOp} {rows : List RowOp}
    (ht : Tells tables ops rows) {B' : Books} (hself : B'.doing t = B.doing t ++ rows)
    (hother : ∀ u, u ≠ t → B'.doing u = B.doing u) (hsettled : B'.settled = B.settled) :
    Told tables ((ops.map (Note.access t)).foldl History.note H) B' := by
  rw [History.foldl_access]
  refine ⟨fun u => ?_, hsettled ▸ h.settled⟩
  by_cases hu : u = t
  · rw [hu, H.doing_set_self, hself]
    exact (h.doing t).append ht
  · rw [H.doing_set_other hu, hother u hu]
    exact h.doing u

/-- A transaction has ended, by both accounts. -/
theorem Told.ended (t : TxnId) (e : Ending) :
    Told tables (H.note (.ended t e)) (B.close t e) where
  doing u := by
    have hH : (H.note (.ended t e)).doing u = if u = t then [] else H.doing u := by
      cases e <;> rfl
    rw [hH]
    simp only [Books.close]
    split
    · exact Tells.nil
    · exact h.doing u
  settled := by
    cases e with
    | commit =>
        rw [H.serial_commit]
        exact h.settled.append (h.doing t)
    | rollback => exact h.settled

end Told

namespace Pool

/-- An action that spares rows and ends nothing leaves the locks alone, and is a read at most. -/
theorem act_sparing {ρ : Type} [EvictionOrder ρ] {P : Pool ρ} {a : Action}
    (hs : a.sparesRows = true) (ha : a.ending? = none) :
    (P.act a).1.locks = P.locks ∧ ∃ t ops, P.notes a = List.map (Note.access t) ops ∧
      ∀ tables, Tells tables ops [] := by
  have hnone : ∃ t ops, [] = List.map (Note.access t) ops ∧ ∀ tables, Tells tables ops [] :=
    ⟨⟨0⟩, [], rfl, fun _ => Tells.nil⟩
  cases a with
  | begin => exact ⟨rfl, hnone⟩
  | drop n => exact ⟨rfl, hnone⟩
  | device faults => exact ⟨rfl, hnone⟩
  | read n =>
      refine ⟨rfl, ?_⟩
      simp only [notes]
      split
      · exact hnone
      · split
        · exact hnone
        · exact ⟨_, [_], rfl, fun _ => Tells.read _ _⟩
  | grow t =>
      refine ⟨?_, hnone⟩
      simp only [act, grow]
      split
      · rfl
      · split <;> rfl
  | finish t e => cases ha
  | close t e => cases ha
  | abandon t => cases ha
  | _ => cases hs

end Pool

/-! ## Runs -/

namespace Engine

/-- Pool, history and books go together. Every call in progress is where it should be after what the
    books say that it has done, and a transaction that is not running holds nothing. -/
structure Accounted {ρ : Type} (A : PageId → Bytes) (E : Engine ρ) (H : History) (B : Books) :
    Prop where
  sane : E.Sane
  kept : E.Kept
  serial : E.pool.Serial A H
  told : Told E.pool.tables H B
  since : ∀ c call, E.calls.get? c = some call →
    ∃ asked, B.asked c = some asked ∧ call.task.Since asked (B.done c)
  idle : ∀ t, t ∉ B.running → ∀ p, E.pool.locks.mode? t p = none

variable {ρ : Type} [EvictionOrder ρ]

omit [EvictionOrder ρ] in
theorem Fresh.accounted {E : Engine ρ} (h : E.Fresh) : E.Accounted E.pool.stored {} {} where
  sane := h.sane
  kept := h.kept
  serial := h.pool_serial
  told := ⟨fun _ => Tells.nil, Tells.nil⟩
  since c call hc := by
    rw [h.calls] at hc
    cases hc
  idle t _ p := by
    rw [h.locks]
    rfl

section Accounted

variable {A : PageId → Bytes} {E : Engine ρ} {H : History} {B : Books} (ha : E.Accounted A H B)

include ha

/-- What a call does to rows in a step tells the same as its accesses to pages. -/
theorem tells_step {c : CallNo} {call : Call} {locks : LockTable}
    (hrule : E.ruling c = some (call, locks, .granted)) :
    Tells E.pool.tables (call.task.accesses (E.setLocks locks).pool call.txn) (E.changes c) := by
  have hcall := get?_of_ruling hrule
  rcases ha.since c call hcall with ⟨asked, _, hsince⟩
  unfold changes
  rw [hrule]
  exact Task.tells_changes (P := (E.setLocks locks).pool) (ha.sane.coherent.setLocks locks) call.txn
    (ha.sane.fits c call hcall) hsince.aimed

/-- So it is done to the rows that are shown at that moment: a row is put where there is none, a row
    is deleted that is there, and nothing else is different. -/
theorem shown_step (hb : E.pool.Bounded) (c : CallNo) :
    RowOp.Replays (rowAt? E.pool.tables E.pool.shown) (E.changes c) ∧
      rowAt? E.pool.tables (E.step c).1.pool.shown =
        RowOp.after (rowAt? E.pool.tables E.pool.shown) (E.changes c) := by
  -- A call that does not go to work changes nothing but perhaps the locks.
  have hidle : E.changes c = [] → (E.step c).1.pool.shown = E.pool.shown →
      RowOp.Replays (rowAt? E.pool.tables E.pool.shown) (E.changes c) ∧
        rowAt? E.pool.tables (E.step c).1.pool.shown =
          RowOp.after (rowAt? E.pool.tables E.pool.shown) (E.changes c) := by
    intro hc hs
    rw [hc, hs]
    exact ⟨trivial, rfl⟩
  rcases E.step_cases c with ⟨hrule, heq⟩ | ⟨call, locks, hrule, heq⟩ | ⟨call, locks, hrule, heq⟩ |
    ⟨call, locks, page, mode, hrule, _, heq⟩
  · exact hidle (by rw [changes, hrule]) (by rw [heq])
  · have hp := work_performs (E := E.setLocks locks) (ha.sane.coherent.setLocks locks) hb c
      fun _ => ha.sane.fits c call (get?_of_ruling hrule)
    rw [heq, hp.shown]
    exact tells_step ha hrule _ hp.replays
  · refine hidle (by rw [changes, hrule]) ?_
    rw [heq]
    rfl
  · refine hidle (by rw [changes, hrule]) ?_
    rw [heq]
    rfl

/-- After a step the call is where it should be after what it has done, or says so. -/
theorem progress_step {c : CallNo} {call : Call} {locks : LockTable} {v : Verdict}
    (hrule : E.ruling c = some (call, locks, v)) :
    ∃ asked, B.asked c = some asked ∧
      (∀ call', (E.step c).1.calls.get? c = some call' →
        call'.task.Since asked (B.done c ++ E.changes c)) ∧
      ∀ outcome, (E.step c).2 = some outcome →
        outcome.Reports asked (B.done c ++ E.changes c) := by
  have hcall := get?_of_ruling hrule
  rcases ha.since c call hcall with ⟨asked, hasked, hsince⟩
  refine ⟨asked, hasked, ?_⟩
  rcases E.step_cases c with ⟨hrule', _⟩ | ⟨call', locks', hrule', heq⟩ |
    ⟨call', locks', hrule', heq⟩ | ⟨call', locks', page, mode, hrule', _, heq⟩
  · rw [hrule] at hrule'
    cases hrule'
  · -- The call goes to work, and is at another point afterwards or ends with what it says.
    cases hrule.symm.trans hrule'
    have hrun := Task.run_since hsince (E.setLocks locks).pool call.txn
    have hchanges : E.changes c = call.task.changes (E.setLocks locks).pool call.txn := by
      rw [changes, hrule]
    rw [heq, hchanges]
    rcases (E.setLocks locks).calls_work c call with ⟨task, hr, hout, hcalls⟩ |
      ⟨outcome, hr, hout, hcalls⟩
    · rw [hr] at hrun
      rw [hout, hcalls, Assoc.get?_insert_self]
      refine ⟨fun call' h => ?_, fun outcome h => by cases h⟩
      cases h
      exact hrun
    · rw [hr] at hrun
      rw [hout, hcalls, Assoc.get?_erase_self]
      refine ⟨fun call' h => (by cases h), fun outcome' h => ?_⟩
      cases h
      exact hrun
  · cases hrule.symm.trans hrule'
    rw [heq, changes, hrule, List.append_nil]
    refine ⟨fun call' h => ?_, fun outcome h => by cases h⟩
    cases hcall.symm.trans h
    exact hsince
  · cases hrule.symm.trans hrule'
    rw [heq, changes, hrule, List.append_nil]
    refine ⟨fun call' h => ?_, fun outcome h => ?_⟩
    · rw [Assoc.get?_erase_self] at h
      cases h
    · cases h
      exact Task.reports_fail hsince _

omit [EvictionOrder ρ] in
theorem accounted_submit {t : TxnId} {task : Task} (hsane : (E.submit t task).2.Sane)
    (hkept : (E.submit t task).2.Kept) (hentry : task.isEntry = true) :
    (E.submit t task).2.Accounted A H (B.start ⟨E.nextCall⟩ t task) where
  sane := hsane
  kept := hkept
  serial := ha.serial
  told := ⟨ha.told.doing, ha.told.settled⟩
  since c call hc := by
    rcases get?_submit hc with ⟨rfl, rfl⟩ | hold
    · refine ⟨task, if_pos rfl, ?_⟩
      simp only [Books.start, if_true]
      exact Task.since_entry hentry
    · have hne := ha.kept.toListed.ne_next hold
      rcases ha.since c call hold with ⟨asked, hasked, hsince⟩
      refine ⟨asked, (if_neg hne).trans hasked, ?_⟩
      simp only [Books.start, if_neg hne]
      exact hsince
  idle u hu := ha.idle u fun hm => hu (List.mem_insert_of_mem hm)

/-- A step of a call: what it does to rows is entered, and the call goes on or is gone. -/
theorem accounted_step (hb : E.pool.Bounded) {c : CallNo} (hfirm : E.Firm (.step c)) :
    (E.step c).1.Accounted A ((E.notes (.step c)).foldl History.note H) (E.book B (.step c)) := by
  have hsane := sane_step ha.sane hb c
  have hserial := pool_serial_step ha.sane ha.kept.toListed ha.serial hb hfirm
  have hkept := kept_step ha.kept hfirm
  cases hrule : E.ruling c with
  | none =>
      -- The call sleeps.
      have heq : E.step c = (E, none) := by rw [step_eq, hrule]
      simp only [book, notes, hrule, heq]
      exact ha
  | some r =>
      rcases r with ⟨call, locks, v⟩
      rcases step_ruled hrule with ⟨hlocks, _, hstepped⟩
      have hgrows := grows_ruling hrule ha.kept.toListed ha.kept.agreed.backed hfirm
      have hbook : E.book B (.step c) = B.enter c call.txn (E.changes c) := by
        simp only [book, hrule]
      rw [hbook]
      refine ⟨hsane.1, hkept, hserial, ?_, fun c' call' hc' => ?_, fun u hu p => ?_⟩
      · -- Whoever is not granted a lock has had access to nothing and done nothing.
        rw [hsane.2.2]
        have htells : ∃ ops, E.notes (.step c) = ops.map (Note.access call.txn) ∧
            Tells E.pool.tables ops (E.changes c) := by
          cases v with
          | granted => exact ⟨_, by simp only [notes, hrule], tells_step ha hrule⟩
          | waits =>
              refine ⟨[], by simp only [notes, hrule, List.map_nil], ?_⟩
              rw [changes, hrule]
              exact Tells.nil
          | deadlock =>
              refine ⟨[], by simp only [notes, hrule, List.map_nil], ?_⟩
              rw [changes, hrule]
              exact Tells.nil
        rcases htells with ⟨ops, hnotes, ht⟩
        rw [hnotes]
        exact ha.told.access ht (if_pos rfl) (fun u hu => if_neg hu) rfl
      · by_cases hne : c' = c
        · subst hne
          rcases progress_step ha hrule with ⟨asked, hasked, hsince, _⟩
          refine ⟨asked, hasked, ?_⟩
          simp only [Books.enter, if_true]
          exact hsince call' hc'
        · rw [hstepped.get?_other hne] at hc'
          rcases ha.since c' call' hc' with ⟨asked, hasked, hsince⟩
          refine ⟨asked, hasked, ?_⟩
          simp only [Books.enter, if_neg hne]
          exact hsince
      · -- Only the transaction that makes the call may hold more, and it is running.
        simp only [Books.enter, List.mem_insert_iff, not_or] at hu
        rw [hlocks, hgrows.others u hu.1]
        exact ha.idle u hu.2 p

/-- An action that spares rows, or an ending that succeeds. -/
theorem accounted_act (hb : E.pool.Bounded) {a : Action} (hspares : a.sparesRows = true)
    (hends : ∀ r ∈ a.ending?, (E.pool.finish r.1 r.2).2.isOk = true) :
    (E.exec (.act a)).1.Accounted A ((E.notes (.act a)).foldl History.note H)
      (E.book B (.act a)) := by
  have hsane : (E.exec (.act a)).1.Sane ∧ (E.exec (.act a)).1.pool.tables = E.pool.tables :=
    sane_exec ha.sane hb trivial
  have hkept : (E.exec (.act a)).1.Kept :=
    kept_exec ha.kept (Action.keepsLocks_of_sparesRows hspares) fun _ _ h => h
  have hserial := Pool.serial_act ha.serial hb (Action.isPlain_of_sparesRows hspares) hends
  cases he : a.ending? with
  | none =>
      have hbook : E.book B (.act a) = B := by simp only [book, he]
      rcases Pool.act_sparing (P := E.pool) hspares he with ⟨hlocks, t, ops, hnotes, ht⟩
      rw [hbook]
      refine ⟨hsane.1, hkept, hserial, ?_, ha.since, fun u hu p => ?_⟩
      · rw [hsane.2]
        simp only [notes, hnotes]
        exact ha.told.access (ht _) (List.append_nil _).symm (fun _ _ => rfl) rfl
      · simp only [exec, hlocks]
        exact ha.idle u hu p
  | some r =>
      rcases r with ⟨t, e⟩
      have hbook : E.book B (.act a) = B.close t e := by simp only [book, he]
      rcases Pool.act_of_ending he (ok_of_isOk (hends _ he)) with ⟨hact, hnotes⟩
      rw [hbook]
      refine ⟨hsane.1, hkept, hserial, ?_, ha.since, fun u hu p => ?_⟩
      · rw [hsane.2]
        simp only [notes, hnotes]
        exact ha.told.ended t e
      · -- The transaction that has ended holds nothing, and the others hold what they did.
        have hlocks : (E.pool.finish t e).1.locks = E.pool.locks.releaseAll t := by
          have hfin := ok_of_isOk (hends _ he)
          rcases Pool.finishIn_visited ha.kept.owned.tidy (E.pool.locks.exclusivePages t) t e with
            ⟨Q, _, _, _, ⟨heq, _⟩ | ⟨cause, heq⟩⟩
          · rw [Pool.finish, heq]
            rfl
          · rw [Pool.finish, heq] at hfin
            cases hfin
        simp only [exec, hact, hlocks, LockTable.mode?_releaseAll]
        split
        · rfl
        · rename_i hne
          refine ha.idle u (fun hm => hu ?_) p
          exact List.mem_filter.2 ⟨hm, decide_eq_true hne⟩

/-- Every event keeps all of it together. -/
theorem accounted_exec (hb : E.pool.Bounded) {ev : Event} (hev : E.Keeping ev) :
    (E.exec ev).1.Accounted A ((E.notes ev).foldl History.note H) (E.book B ev) ∧
      (E.exec ev).1.pool.tables = E.pool.tables := by
  cases ev with
  | submit t task =>
      have hfits : (Event.submit t task).Fits E.pool.tables := hev.2
      have hsane := (sane_exec ha.sane hb hfits).1
      have hkept : (E.exec (.submit t task)).1.Kept := kept_exec ha.kept rfl fun _ _ h => h
      exact ⟨accounted_submit ha hsane hkept hev.1, rfl⟩
  | step c => exact ⟨accounted_step ha hb hev, (sane_step ha.sane hb c).2.2⟩
  | act a =>
      exact ⟨accounted_act ha hb hev.1 hev.2, (Pool.act_coherent ha.sane.coherent hb a).2.1⟩

omit [EvictionOrder ρ] in
/-- What is settled can be done again, and comes to the rows on disk. -/
theorem settled_rows : RowOp.Replays (rowAt? E.pool.tables A) B.settled ∧
    rowAt? E.pool.tables E.pool.stored = RowOp.after (rowAt? E.pool.tables A) B.settled := by
  rw [ha.serial.stored]
  exact ha.told.settled A ha.serial.past

/-- A call that ends says what the books say: what it was asked for, and what it has done of it. -/
theorem reports_step {c : CallNo} {outcome : Outcome} (hout : (E.step c).2 = some outcome) :
    ∃ asked, (E.book B (.step c)).asked c = some asked ∧
      outcome.Reports asked ((E.book B (.step c)).done c) := by
  cases hrule : E.ruling c with
  | none =>
      rw [step_eq, hrule] at hout
      cases hout
  | some r =>
      rcases r with ⟨call, locks, v⟩
      rcases progress_step ha hrule with ⟨asked, hasked, _, hreports⟩
      simp only [book, hrule, Books.enter, if_true]
      exact ⟨asked, hasked, hreports outcome hout⟩

end Accounted

/-- A run keeps all of it together. -/
theorem accounted_run {A : PageId → Bytes} {E : Engine ρ} {H : History} {B : Books}
    (ha : E.Accounted A H B) {evs : List Event} (h : E.Goes Keeping evs) :
    (E.run evs).Accounted A ((E.trace evs).foldl History.note H) (E.books B evs) ∧
      (E.run evs).pool.tables = E.pool.tables ∧ (E.run evs).pool.Bounded := by
  induction evs generalizing E H B with
  | nil => exact ⟨ha, rfl, h⟩
  | cons ev rest ih =>
      rcases accounted_exec ha h.1 h.2.1 with ⟨ha', ht⟩
      rcases ih ha' h.2.2 with ⟨hrest, ht', hb⟩
      simp only [trace, List.foldl_append]
      exact ⟨hrest, ht'.trans ht, hb⟩

theorem books_append (E : Engine ρ) (B : Books) (l l' : List Event) :
    E.books B (l ++ l') = (E.run l).books (E.books B l) l' := by
  induction l generalizing E B with
  | nil => rfl
  | cons ev rest ih => exact ih _ _

/-! ## When nobody is at work -/

section Quiet

variable {A : PageId → Bytes} {E : Engine Recency} {H : History} {B : Books}
  (ha : E.Accounted A H B) (hidle : B.running = [])

include ha hidle

/-- When no transaction is running, nobody may write a page, and no copy is dirty. -/
theorem Accounted.unlocked :
    (∀ p, (E.pool.locks.holdersOf p).exclusive = none) ∧ ∀ p, E.pool.owner? p = none := by
  have hnone : ∀ t p, E.pool.locks.mode? t p = none :=
    fun t => ha.idle t (hidle ▸ List.not_mem_nil)
  refine ⟨fun p => ?_, fun p => ?_⟩
  · cases hx : (E.pool.locks.holdersOf p).exclusive with
    | none => rfl
    | some t =>
        have hm := (ha.kept.agreed.exclusive_iff t p).2 hx
        rw [hnone] at hm
        cases hm
  · cases hp : E.pool.owner? p with
    | none => rfl
    | some t =>
        have hm := ha.kept.owned.held p t hp
        rw [hnone] at hm
        cases hm

omit hidle in
/-- When no call is in progress, none waits. -/
theorem Accounted.waiters_eq (hcalls : E.calls.entries = []) : E.pool.locks.waiters = [] := by
  refine List.eq_nil_iff_forall_not_mem.2 fun w hw => ?_
  rcases ha.kept.waiting w hw with ⟨call, hcall, _⟩
  rw [Assoc.get?_of_entries_nil hcalls] at hcall
  cases hcall

/-- A scan that begins when nobody is at work ends with the rows of its table. -/
theorem Accounted.settle_scan {frames : Nat} (hrec : E.pool.cache.Recorded frames)
    (hpos : 0 < frames) (hb : E.pool.Bounded) (hcalls : E.calls.entries = [])
    (hhandles : E.pool.cache.handles.entries = [])
    (hread : ∀ p, E.pool.faults.onRead p = none) {f : TableFile}
    (hf : E.pool.tables.get? f.table = some f) (u : TxnId) :
    ∃ steps E' c cursor,
      (E.submit u (.advance (Cursor.start { file := f, txn := u }) (.drain []))).2.settle steps =
        (E', [(c, .moved cursor
          (.ok (.rows (f.rowsOf E.pool.stored (f.pagesOn E.pool.disk)))))]) := by
  rcases ha.unlocked hidle with ⟨hx, hclean⟩
  have hrestful : E.pool.Restful :=
    { coherent := ha.sane.coherent
      bounded := hb
      readable := hread
      unused := Assoc.get?_of_entries_nil hhandles
      clean := hclean
      roomy := hrec.capacity ▸ hpos
      tracks := hrec.toTracks }
  rcases Engine.settle_scan hrestful hx (ha.waiters_eq hcalls) hcalls hf u (Nat.le_refl _) with
    ⟨E', cursor, heq⟩
  exact ⟨_, E', _, cursor, heq⟩

end Quiet

/-- However many transactions insert and delete rows, and however their calls take turns, as long as
    no overtaken call is resumed: a row is put only where there is none at that moment, what a call
    says it has done is what was done to the rows that are shown, and what is settled can be done
    again to the rows that there were to begin with, one transaction after the other in the order in
    which they committed. When no transaction is running any more and no handle is kept, a scan of
    any table ends, and finds just the rows that come of this, each once and as many as were put in
    place and not deleted. -/
theorem scan_finds_settled_rows (E : Engine Recency) (hf : E.Fresh)
    (hnew : E.pool.cache.order = {}) (evs : List Event) (h : E.Goes Keeping evs) :
    (∀ before c rest, evs = before ++ .step c :: rest →
      RowOp.Replays (rowAt? E.pool.tables (E.run before).pool.shown) ((E.run before).changes c) ∧
      rowAt? E.pool.tables ((E.run before).step c).1.pool.shown =
        RowOp.after (rowAt? E.pool.tables (E.run before).pool.shown) ((E.run before).changes c) ∧
      ∀ outcome, ((E.run before).step c).2 = some outcome →
        ∃ asked, (E.books {} (before ++ [.step c])).asked c = some asked ∧
          outcome.Reports asked ((E.books {} (before ++ [.step c])).done c)) ∧
    RowOp.Replays (rowAt? E.pool.tables E.pool.stored) (E.books {} evs).settled ∧
    (0 < E.pool.cache.capacity → (E.run evs).calls.entries = [] →
      (E.books {} evs).running = [] → (E.run evs).pool.cache.handles.entries = [] →
      (∀ p, (E.run evs).pool.faults.onRead p = none) →
      ∀ t f, E.pool.tables.get? t = some f → ∀ u, ∃ steps E' c cursor rows,
        ((E.run evs).submit u
          (.advance (Cursor.start { file := f, txn := u }) (.drain []))).2.settle steps =
            (E', [(c, .moved cursor (.ok (.rows rows)))]) ∧
        (rows.map Row.place).Nodup ∧
        (∀ row, row ∈ rows ↔ ∃ r, row.place = some r ∧ r.page.table = t ∧
          RowOp.after (rowAt? E.pool.tables E.pool.stored) (E.books {} evs).settled r =
            some row.bytes) ∧
        rows.length + RowOp.deleted t (E.books {} evs).settled =
          (f.rowsOf E.pool.stored (f.pagesOn E.pool.disk)).length +
            RowOp.inserted t (E.books {} evs).settled) := by
  rcases accounted_run hf.accounted h with ⟨ha, ht, hb⟩
  rcases settled_rows ha with ⟨hreplays, hafter⟩
  rw [ht] at hreplays hafter
  refine ⟨?_, hreplays, ?_⟩
  · rintro before c rest rfl
    rcases h.split with ⟨hbefore, hrest⟩
    rcases accounted_run hf.accounted hbefore with ⟨hab, htb, _⟩
    have hshown := shown_step hab hrest.1 c
    rw [htb] at hshown
    refine ⟨hshown.1, hshown.2, fun outcome hout => ?_⟩
    rw [books_append]
    exact reports_step hab hout
  · intro hpos hcalls hidle hhandles hread t f htf u
    have hft : f.table = t := hf.laid.keyed t f htf
    subst hft
    have htf' : (E.run evs).pool.tables.get? f.table = some f := by
      rw [ht]
      exact htf
    have hlaid := ha.sane.coherent.laid
    rcases ha.settle_scan hidle (recorded_run (hf.recorded hnew) evs) hpos hb hcalls hhandles hread
      htf' u with ⟨steps, E', c, cursor, hscan⟩
    refine ⟨steps, E', c, cursor, _, hscan, nodup_rowsOf _ _ f, fun row => ?_, ?_⟩
    · rw [mem_rowsOf_stored hlaid htf', ht, hafter]
    · -- The places with a row are listed at the beginning and at the end of the run.
      have hlists := lists_stored hlaid htf'
      rw [ht, hafter] at hlists
      have hcount := length_lists (lists_stored hf.laid htf) hlists hreplays
      rw [length_placesOf _ _ htf, length_placesOf _ _ htf] at hcount
      exact hcount

/-- A transaction puts a row on the first page, and another one waits for that page until the first
    has committed, goes on to the next page, and commits too. A third deletes the first row. A
    fourth puts one in its place, and is rolled back. -/
def takingTurns : List Event :=
  .submit ⟨1⟩ (.insert { table := ⟨1⟩, rows := [#[7]] }) :: List.replicate 6 (.step ⟨0⟩) ++
    .submit ⟨2⟩ (.insert { table := ⟨1⟩, rows := [#[9]] }) :: List.replicate 4 (.step ⟨1⟩) ++
      .act (.finish ⟨1⟩ .commit) :: List.replicate 5 (.step ⟨1⟩) ++
        .act (.finish ⟨2⟩ .commit) :: .submit ⟨3⟩ (.delete (some ⟨⟨⟨1⟩, 0⟩, 0⟩)) ::
          List.replicate 2 (.step ⟨2⟩) ++ .act (.finish ⟨3⟩ .commit) ::
            .submit ⟨4⟩ (.insert { table := ⟨1⟩, rows := [#[5]] }) ::
              List.replicate 6 (.step ⟨3⟩) ++ [.act (.close ⟨4⟩ .rollback)]

/-- What is settled are the two rows that were put in place and the one deletion, and a scan finds
    the row that is left. -/
theorem scan_finds_settled_rows_takingTurns :
    ((tiny 1 ({} : Recency)).books {} takingTurns).settled =
      [.insert ⟨⟨⟨1⟩, 0⟩, 0⟩ #[7], .insert ⟨⟨⟨1⟩, 1⟩, 0⟩ #[9], .delete ⟨⟨⟨1⟩, 0⟩, 0⟩] ∧
    ∃ steps E' c cursor,
      (((tiny 1 ({} : Recency)).run takingTurns).submit ⟨5⟩
        (.advance (Cursor.start { file := .tiny, txn := ⟨5⟩ }) (.drain []))).2.settle steps =
          (E', [(c, .moved cursor (.ok (.rows [⟨some ⟨⟨⟨1⟩, 1⟩, 0⟩, #[9]⟩])))]) := by
  have hgoes : (tiny 1 ({} : Recency)).Goes Keeping takingTurns := by decide +kernel
  have hsettled : ((tiny 1 ({} : Recency)).books {} takingTurns).settled =
      [.insert ⟨⟨⟨1⟩, 0⟩, 0⟩ #[7], .insert ⟨⟨⟨1⟩, 1⟩, 0⟩ #[9], .delete ⟨⟨⟨1⟩, 0⟩, 0⟩] := by
    decide +kernel
  have hread : ((tiny 1 ({} : Recency)).run takingTurns).pool.faults = {} := by
    have hplain : (tiny 1 ({} : Recency)).Goes Isolated takingTurns := by decide +kernel
    exact (endsWell_run (fresh_tiny 1 _).serial rfl hplain).2
  have h := scan_finds_settled_rows (tiny 1 ({} : Recency)) (fresh_tiny 1 _) rfl takingTurns hgoes
  rcases h.2.2 (by decide) (by decide +kernel) (by decide +kernel) (by decide +kernel)
    (fun p => by rw [hread]) ⟨1⟩ .tiny rfl ⟨5⟩ with
    ⟨steps, E', c, cursor, rows, hscan, _, hmem, hlen⟩
  rw [hsettled] at hmem hlen
  -- There is one row, and the row that is left is there.
  have hrow : (⟨some ⟨⟨⟨1⟩, 1⟩, 0⟩, #[9]⟩ : Row) ∈ rows :=
    (hmem _).2 ⟨_, rfl, rfl, by decide +kernel⟩
  have hcount : (TableFile.tiny.rowsOf (tiny 1 ({} : Recency)).pool.stored
      (TableFile.tiny.pagesOn (tiny 1 ({} : Recency)).pool.disk)).length = 0 := by decide +kernel
  rw [hcount] at hlen
  rcases List.length_eq_one_iff.1 (Nat.add_right_cancel hlen) with ⟨row, rfl⟩
  rw [List.mem_singleton.1 hrow]
  exact ⟨hsettled, steps, E', c, cursor, hscan⟩

/-- A transaction wants to delete a row that is not there, and two insertions of another one wait
    for its page until it is rolled back. The first of them puts its row on the page. The second
    one, which was overtaken, goes on to the next page. Their transaction commits. -/
def twoInserted : List Event :=
  .submit ⟨2⟩ (.delete (some ⟨⟨⟨1⟩, 0⟩, 0⟩)) :: List.replicate 2 (.step ⟨0⟩) ++
    .submit ⟨1⟩ (.insert { table := ⟨1⟩, rows := [#[7]] }) :: List.replicate 4 (.step ⟨1⟩) ++
      .submit ⟨1⟩ (.insert { table := ⟨1⟩, rows := [#[9]] }) :: List.replicate 4 (.step ⟨2⟩) ++
        .act (.finish ⟨2⟩ .rollback) :: List.replicate 3 (.step ⟨1⟩) ++
          List.replicate 5 (.step ⟨2⟩) ++ [.act (.finish ⟨1⟩ .commit)]

/-- Then a third one deletes the first row, and is rolled back. -/
def oneTakenOff : List Event :=
  twoInserted ++ .submit ⟨3⟩ (.delete (some ⟨⟨⟨1⟩, 0⟩, 0⟩)) :: List.replicate 2 (.step ⟨3⟩) ++
    [.act (.close ⟨3⟩ .rollback)]

/-- Both insertions have ended well and are settled, and nothing else is. But when nobody is at work
    any more, a scan finds one of the two rows. The page of the other one was not written out by the
    commit, and it was brought back as it is on disk. -/
theorem overtaken_insert_lost :
    (tiny 4 ({} : Recency)).Goes (fun E ev => E.Firm ev → E.Keeping ev) oneTakenOff ∧
    ((tiny 4 ({} : Recency)).books {} oneTakenOff).settled =
      [.insert ⟨⟨⟨1⟩, 0⟩, 0⟩ #[7], .insert ⟨⟨⟨1⟩, 1⟩, 0⟩ #[9]] ∧
    ((tiny 4 ({} : Recency)).books {} oneTakenOff).running = [] ∧
    ((tiny 4 ({} : Recency)).run oneTakenOff).calls.entries = [] ∧
    ((tiny 4 ({} : Recency)).run oneTakenOff).pool.cache.handles.entries = [] ∧
    ((((tiny 4 ({} : Recency)).run oneTakenOff).submit ⟨4⟩
      (.advance (Cursor.start { file := .tiny, txn := ⟨4⟩ }) (.drain []))).2.settle 9).2 =
        [(⟨4⟩, .moved { Cursor.start { file := .tiny, txn := ⟨4⟩ } with nextPage := 2 }
          (.ok (.rows [⟨some ⟨⟨⟨1⟩, 1⟩, 0⟩, #[9]⟩])))] :=
  ⟨by decide +kernel, by decide +kernel, by decide +kernel, by decide +kernel,
    by decide +kernel, by decide +kernel⟩

end Engine

end RowStore
