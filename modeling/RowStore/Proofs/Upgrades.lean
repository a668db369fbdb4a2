import RowStore.Proofs.Failures
import RowStore.Proofs.Holding
import RowStore.Proofs.Orderly
import RowStore.Proofs.RowCalls
import RowStore.Recency

/-!
# Between a Look and a Write

That the room which an insertion has seen on a page is there when it comes to write.

An insertion looks at a page under a lock to read, and asks for the lock to write only if
the page has a free slot. It may wait for that as long as others read the page. They can
do so and can ask to write it as well, pages can be evicted and loaded again, and
transactions can commit or be rolled back. But whoever asks to write the page waits for
the lock to read that the insertion has, so what is shown of the page stays what it is.

So an insertion that goes to write finds a slot, and holds the lock that the write needs.
It does not fail because the page is full, nor for want of a lock. A deletion asks for its
lock at once, and then looks and writes in one step. It may find no row in its slot, but
it is not refused for want of a lock either.

What is asked of a run is that a transaction does not get in its own way. While one of its
calls is about to write a page it has seen room on, it neither leaves nor writes the page
by another hand, and no call of its is resumed that was overtaken. A transaction that does
one thing at a time never does: it begins no call and does not leave while it has a call in
progress, and if it uses a handle then, it is while the call waits. As the call waits for
the page, the handle cannot write it.

## Main definitions

* `Task.claim?`: The search of an insertion that is about to put its row on a page.
* `Engine.Minds`: No transaction gets in the way of a call of its own.
* `Engine.InTurn`: Transactions do one thing at a time.
* `Engine.Roomy`: Calls that are about to write have seen room, and it is there.

## Theorems

* `Engine.Arises.minds`: Who does one thing at a time does not get in its own way.
* `Task.run_to_claim`: A call comes to write only from a look that has shown a free slot.
* `Engine.roomy_move`: The room stays until the call has written.
* `Engine.upgrade_finds_room`: A call that may write finds room, and no call fails for want of it.
* `Engine.sibling_takes_the_room`: It may, if its transaction inserts by another call meanwhile.
-/

namespace RowStore

/-- Whether a move is not the beginning of a call at a point where none begins. -/
def Move.enters {ρ : Type} : Move ρ → Bool
  | .event (.submit _ task) => task.isEntry
  | _ => true

namespace Task

/-- The search of an insertion that is about to put its row on a page. -/
def claim? : Task → Option Search
  | .claim job file row page => some ⟨job, file, row, page⟩
  | _ => none

theorem eq_claim {task : Task} {s : Search} (h : task.claim? = some s) :
    task = .claim s.job s.file s.row s.page := by
  cases task with
  | claim _ _ _ _ =>
      cases h
      rfl
  | _ => cases h

/-- A search that asks to write its page is about to put its row there. -/
theorem claim_of_search {task : Task} {s : Search} (h : task.search? = some s)
    (hd : task.demand = some (s.pageId, .exclusive)) : task.claim? = some s := by
  cases task with
  | claim _ _ _ _ => exact h
  | inspect _ _ _ _ _ =>
      cases h
      cases hd
  | survey _ _ _ _ | seek _ _ _ _ _ => cases hd
  | _ => cases h

variable {ρ : Type} [EvictionOrder ρ] {P Q : Pool ρ} {t : TxnId}

/-- A call comes to write only from a look at the page. -/
theorem inspect_of_claim {task task' : Task} (hrun : run P t task = (Q, .inl task')) {s : Search}
    (hs : task'.claim? = some s) :
    ∃ count, task = .inspect s.job s.file s.row s.page count := by
  -- From every other point a call ends, or goes on to a point that asks for another page or lock.
  cases task with
  | inspect job file row page count =>
      simp only [run] at hrun
      split at hrun
      · cases hrun
      · split at hrun <;> cases hrun
        · cases hs
          exact ⟨count, rfl⟩
        · cases hs
  | insert job =>
      simp only [run] at hrun
      split at hrun
      · cases hrun
      · split at hrun
        · cases hrun
        · split at hrun <;> cases hrun
          cases hs
  | survey job file row page =>
      cases hrun
      cases hs
  | seek job file row page count =>
      simp only [run] at hrun
      split at hrun
      · cases hrun
        cases hs
      · split at hrun <;> cases hrun
        cases hs
  | claim job file row page =>
      simp only [run] at hrun
      split at hrun
      · cases hrun
      · split at hrun <;> cases hrun
        cases hs
  | delete row =>
      cases row with
      | none => cases hrun
      | some r =>
          simp only [run] at hrun
          split at hrun
          · cases hrun
          · split at hrun <;> cases hrun
            cases hs
  | advance cursor goal | load cursor goal =>
      have hscan := run_scan (P := P) (t := t) rfl (congrArg Prod.snd hrun)
      rw [eq_claim hs] at hscan
      cases hscan
  | lock page access => cases hrun
  | fetch page access keep =>
      simp only [run] at hrun
      split at hrun
      · cases hrun
      · split at hrun <;> cases hrun
  | remove file row =>
      simp only [run] at hrun
      split at hrun
      · cases hrun
      · split at hrun
        · cases hrun
        · split at hrun <;> cases hrun

/-- And the look, under the lock to read, has shown a free slot. -/
theorem run_to_claim (hc : P.Coherent) {task task' : Task}
    (hk : task.isScan = false → task.Fits P.tables) {s : Search}
    (hrun : run P t task = (Q, .inl task')) (hs : task'.claim? = some s) :
    task.demand = some (s.pageId, .shared) ∧ Q.shown = P.shown ∧
      SlotPage.firstFree s.file.layout (P.shown s.pageId) ≠ none := by
  rcases inspect_of_claim hrun hs with ⟨count, rfl⟩
  rcases run_inspect (t := t) hc (hk rfl s.file rfl) s.job s.row s.page count with
    ⟨R, hshown, heq⟩ | ⟨R, e, _, heq⟩
  · cases hfree : SlotPage.firstFree s.file.layout (P.shown ⟨s.file.table, s.page⟩) with
    | none =>
        rw [hfree] at heq
        cases hrun.symm.trans heq
        cases hs
    | some slot =>
        rw [hfree] at heq
        cases hrun.symm.trans heq
        exact ⟨rfl, hshown, by rw [Search.pageId, hfree]; exact Option.some_ne_none _⟩
  · cases hrun.symm.trans heq

end Task

namespace Engine

variable {ρ : Type} [EvictionOrder ρ]

/-! ## Calls that are about to write -/

/-- What is asked of a move: it is steady, so that no overtaken call is resumed, and calls begin
    where calls begin. While a call is about to put a row on a page, its transaction neither leaves
    nor writes the page but by a step of the call, and nobody discards the page. -/
structure Minds (E : Engine ρ) (m : Move ρ) : Prop where
  steady : E.Steady m
  enters : m.enters = true
  rests : ∀ c call, E.calls.get? c = some call → m.isStep c = false →
    ∀ s ∈ call.task.claim?, E.Rests call.txn s.pageId m

instance (E : Engine ρ) (m : Move ρ) : Decidable (E.Minds m) :=
  have : Decidable (∀ c call, E.calls.get? c = some call → m.isStep c = false →
      ∀ s ∈ call.task.claim?, E.Rests call.txn s.pageId m) :=
    decidable_of_iff' _ (Assoc.forall_iff _ fun c (call : Call) => m.isStep c = false →
      ∀ s ∈ call.task.claim?, E.Rests call.txn s.pageId m)
  decidable_of_iff (E.Steady m ∧ m.enters = true ∧ ∀ c call, E.calls.get? c = some call →
      m.isStep c = false → ∀ s ∈ call.task.claim?, E.Rests call.txn s.pageId m)
    ⟨fun h => ⟨h.1, h.2.1, h.2.2⟩, fun h => ⟨h.1, h.2, h.3⟩⟩

/-- What is asked of a move of transactions that do one thing at a time: files are changed only
    through the pool, no lock is given back early, nothing is discarded, an ending visits all the
    pages that its transaction holds to write, and calls begin where calls begin. A transaction
    begins no call while it has one in progress, and does not leave; and it uses a handle only while
    the call waits. -/
structure InTurn (E : Engine ρ) (m : Move ρ) : Prop where
  strict : E.Strict m
  enters : m.enters = true
  keeps : m.isDiscard = false
  visits : ∀ order t e, m = .finishIn order t e → ∀ p ∈ E.pool.locks.exclusivePages t, p ∈ order
  begins : ∀ t task, m = .event (.submit t task) → E.isBusy t = false
  waits : ∀ c call, E.calls.get? c = some call → m.isStep c = false →
    E.performer m = some call.txn →
      m.leaver? ≠ some call.txn ∧ E.pool.locks.waiterOf c ≠ none

/-- No transaction has two calls in progress as long as none begins one while it has another. -/
theorem orderly_move {E : Engine ρ} (ho : E.Orderly) (ht : E.pool.cache.Tidy) {m : Move ρ}
    (hm : E.InTurn m) : (E.move m).Orderly := by
  -- But for a step, a move leaves the locks alone or gives some back.
  have hlocks : E.locksDuring m = E.pool.locks → (E.move m).pool.locks = E.pool.locks ∨
      (∃ t, (E.move m).pool.locks = E.pool.locks.releaseAll t) ∨
      ∃ t p, (E.move m).pool.locks = E.pool.locks.release t p := by
    intro hsame
    rcases locks_move ht m with hl | ⟨t, _, hl⟩ | ⟨t, p, _, hl⟩
    · exact Or.inl (hl.trans hsame)
    · exact Or.inr (Or.inl ⟨t, hl⟩)
    · exact Or.inr (Or.inr ⟨t, p, hl⟩)
  cases m with
  | event ev =>
      cases ev with
      | submit t task => exact orderly_submit ho (hm.begins t task rfl) task
      | step c => exact orderly_step ho c
      | act a => exact orderly_pool ho (hlocks rfl)
  | _ => exact orderly_pool ho (hlocks rfl)

omit [EvictionOrder ρ] in
/-- No call of such a transaction is ever overtaken. -/
theorem InTurn.steady {E : Engine ρ} (ho : E.Orderly) {m : Move ρ} (hm : E.InTurn m) :
    E.Steady m := by
  refine ⟨hm.strict.1, ?_⟩
  cases m with
  | event ev => exact ⟨hm.strict.2, ho.firm ev⟩
  | finishIn order t e => exact hm.visits order t e rfl
  | _ => trivial

/-- A transaction that does one thing at a time does not get in the way of a call of its own. While
    the call waits for the lock to write its page, no handle can write the page. -/
theorem InTurn.minds {E : Engine ρ} (ho : E.Orderly) {m : Move ρ} (hm : E.InTurn m) :
    E.Minds m := by
  have hsteady := hm.steady ho
  refine ⟨hsteady, hm.enters, fun c call hcall hstep s hs => ?_⟩
  have hkept := Move.discards_eq_false hm.keeps s.pageId
  by_cases hperf : E.performer m = some call.txn
  · rcases hm.waits c call hcall hstep hperf with ⟨hstays, hwaits⟩
    refine ⟨hsteady, ?_, hstays, hkept⟩
    by_contra hwrite
    rcases lastWrite?_cases hwrite with
      ⟨c', call', locks, b, rfl, hrule, htxn, _⟩ | ⟨n, e, hd, rfl, hn, htxn, hpage, hw⟩
    · -- The call that writes is the only one of its transaction.
      cases ho.single _ _ _ _ (get?_of_ruling hrule) hcall htxn
      cases hstep.symm.trans (decide_eq_true rfl)
    · -- The call waits for the lock that the write by the handle needs.
      rcases Option.ne_none_iff_exists'.1 hwaits with ⟨w, hof⟩
      rcases LockTable.mem_of_waiterOf hof with ⟨hmem, rfl⟩
      rcases ho.waiting w hmem with ⟨call', hcall', htxn', hd'⟩
      cases hcall.symm.trans hcall'
      rw [Task.eq_claim hs] at hd'
      rcases Prod.mk.inj (Option.some.inj hd') with ⟨hp, hmode⟩
      have hsame : w.page = s.pageId := hp.symm
      have hx : E.pool.locks.mode? call.txn s.pageId = some .exclusive := by
        rw [← htxn, ← hpage]
        exact Pool.mode?_of_checkWrite hw
      have hlack := ho.sound.lacking w hmem
      rw [← htxn', hsame, ← hmode, Holders.holds_exclusive, ← ho.sound.agree, hx] at hlack
      cases hlack
  · exact ⟨hsteady, lastWrite?_other (fun hch => hperf (performer_of_changer hch)) _,
      fun hleave => hperf (performer_of_leaver hleave), hkept⟩

/-- So nothing more has to be asked of such transactions. -/
theorem Arises.minds {E : Engine ρ} (h : E.Arises InTurn) : E.Arises Minds := by
  have hboth : E.Orderly ∧ E.Arises Minds := by
    induction h with
    | fresh h => exact ⟨h.orderly, .fresh h⟩
    | move h hm ih => exact ⟨orderly_move ih.1 h.tidy hm, .move ih.2 (hm.minds ih.1)⟩
  exact hboth.2

/-- Calls that are about to put a row on a page hold the page, and it has a free slot. -/
def Roomy (E : Engine ρ) : Prop :=
  ∀ c call s, E.calls.get? c = some call → call.task.claim? = some s →
    E.pool.locks.mode? call.txn s.pageId ≠ none ∧
      SlotPage.firstFree s.file.layout (E.pool.shown s.pageId) ≠ none

section roomy

variable {E : Engine ρ} (h : E.Arises Steady) (hr : E.Roomy) {m : Move ρ} {c : CallNo} {call : Call}
  {s : Search} (hcall : E.calls.get? c = some call) (hs : call.task.claim? = some s)

include h hr hcall hs

/-- The room is kept for a call while its transaction rests. -/
theorem room_rests (hm : E.Rests call.txn s.pageId m) :
    (E.move m).pool.locks.mode? call.txn s.pageId ≠ none ∧
      SlotPage.firstFree s.file.layout ((E.move m).pool.shown s.pageId) ≠ none := by
  have hsited := h.sited fun _ _ => And.left
  rcases hr c call s hcall hs with ⟨hheld, hroom⟩
  have hf : E.pool.tables.get? s.file.table = some s.file :=
    hsited.fits c call hcall (by rw [Task.eq_claim hs]; rfl) s.file (by rw [Task.eq_claim hs]; rfl)
  refine ⟨held_move h.tidy hm.steady.strict.2 hm.stays hheld, ?_⟩
  rw [shown_held hsited h.guarded hm.passes (held_during m hheld) hf]
  exact hroom

end roomy

section steps

variable {E : Engine ρ} (h : E.Arises Steady) (hr : E.Roomy) {c : CallNo}
  (hm : E.Steady (.event (.step c)))

include h hr hm

/-- When the call itself takes a step it waits on, or else it has come from a look at the page. -/
theorem room_step {call : Call} {s : Search} (hcall : (E.step c).1.calls.get? c = some call)
    (hs : call.task.claim? = some s) :
    (E.step c).1.pool.locks.mode? call.txn s.pageId ≠ none ∧
      SlotPage.firstFree s.file.layout ((E.step c).1.pool.shown s.pageId) ≠ none := by
  have hsited := h.sited fun _ _ => And.left
  -- A call that sleeps or waits writes nothing.
  have hidle : (∀ call' locks, E.ruling c ≠ some (call', locks, .granted)) →
      (E.step c).1.calls = E.calls → (E.step c).1.pool.locks.mode? call.txn s.pageId ≠ none ∧
        SlotPage.firstFree s.file.layout ((E.step c).1.pool.shown s.pageId) ≠ none := by
    intro hno hsame
    rw [hsame] at hcall
    exact room_rests h hr hcall hs (m := .event (.step c)) ⟨hm, lastWrite?_step hsited
      fun call' locks hrule => absurd hrule (hno call' locks), (Option.some_ne_none _).symm, rfl⟩
  rcases E.step_cases c with ⟨hrule, heq⟩ | ⟨call', locks, hrule, heq⟩ |
    ⟨call', locks, hrule, heq⟩ | ⟨call', locks, page, mode, _, _, heq⟩
  · exact hidle (fun _ _ h' => by cases hrule.symm.trans h') (by rw [heq])
  · have hlocks : (E.step c).1.pool.locks = locks := (step_ruled hrule).1
    have hpool : (E.step c).1.pool = (call'.task.run (E.setLocks locks).pool call'.txn).1 := by
      rw [heq]
      exact pool_work (E.setLocks locks) c call'
    rcases (E.setLocks locks).calls_work c call' with ⟨task, hrun, _, hcalls⟩ | ⟨_, _, _, hcalls⟩
    · rw [heq, hcalls] at hcall
      cases (Assoc.get?_insert_self _ _ _).symm.trans hcall
      have hk : call'.task.isScan = false → call'.task.Fits E.pool.tables :=
        hsited.fits c call' (get?_of_ruling hrule)
      rcases Task.run_to_claim (hsited.coherent.setLocks locks) hk
        (Prod.ext rfl hrun : call'.task.run (E.setLocks locks).pool call'.txn = (_, .inl task)) hs
        with ⟨hd, hshown, hroom⟩
      refine ⟨?_, ?_⟩
      · rw [hlocks]
        exact held_demand h.listed hrule hd h.guarded.toBacked
      · rw [hpool, hshown]
        exact hroom
    · rw [heq, hcalls] at hcall
      cases (Assoc.get?_erase_self _ _).symm.trans hcall
  · exact hidle (fun _ _ h' => by cases hrule.symm.trans h') (by rw [heq]; rfl)
  · rw [heq] at hcall
    cases (Assoc.get?_erase_self _ _).symm.trans hcall

end steps

/-- A call that is at a point where no call begins was in progress before a move that is no step of
    it, and at that point. -/
theorem get?_before {E : Engine ρ} {m : Move ρ} (henters : m.enters = true) {c : CallNo}
    (hstep : m.isStep c = false) {call : Call} (hcall : (E.move m).calls.get? c = some call)
    (hpoint : call.task.isEntry = false) : E.calls.get? c = some call := by
  cases m with
  | event ev =>
      cases ev with
      | submit t task =>
          rcases get?_submit hcall with ⟨_, rfl⟩ | hold
          · cases hpoint.symm.trans henters
          · exact hold
      | step c' =>
          rcases calls_step hcall with hold | ⟨rfl, _⟩
          · exact hold
          · cases hstep.symm.trans (decide_eq_true rfl)
      | act a => exact hcall
  | _ => exact hcall

/-- The room stays until the call has written. -/
theorem roomy_move {E : Engine ρ} (h : E.Arises Steady) (hr : E.Roomy) {m : Move ρ}
    (hm : E.Minds m) : (E.move m).Roomy := by
  intro c call s hcall hs
  cases hstep : m.isStep c with
  | true =>
      have hsteady := hm.steady
      cases Move.eq_step hstep
      exact room_step h hr hsteady hcall hs
  | false =>
      have hold := get?_before hm.enters hstep hcall (by rw [Task.eq_claim hs]; rfl)
      exact room_rests h hr hold hs (hm.rests c call hold hstep s hs)

theorem Arises.roomy {E : Engine ρ} (h : E.Arises Minds) : E.Roomy := by
  induction h with
  | fresh h =>
      intro c call s hcall
      rw [h.calls] at hcall
      cases hcall
  | move h hm ih => exact roomy_move (h.mono fun _ _ => Minds.steady) ih hm

/-- Who is granted a page to write holds it so. -/
theorem held_to_write {E : Engine ρ} (h : E.Arises Steady) {c : CallNo} {call : Call}
    {locks : LockTable} (hrule : E.ruling c = some (call, locks, .granted)) {p : PageId}
    (hd : call.task.demand = some (p, .exclusive)) :
    locks.mode? call.txn p = some .exclusive :=
  (enough_demand h.listed hrule hd (h.kept fun _ _ => And.right).agreed).exclusive rfl

/-- An insertion or a deletion that fails does not fail for what is the matter with a page it has
    come to write, or with its lock on it. -/
theorem fails_minding {E : Engine ρ} (h : E.Arises Minds) {c : CallNo} {call : Call}
    (hcall : E.calls.get? c = some call) {outcome : Outcome} {e : StoreError}
    (ho : (E.step c).2 = some outcome) (he : outcome.failure? = some e) :
    (call.task.isInsertion = true → e.isPlain = true) ∧
      (call.task.isDeletion = true → e.isFair = true) := by
  have hsteady : E.Arises Steady := h.mono fun _ _ => Minds.steady
  have hsited := hsteady.sited fun _ _ => And.left
  rcases ends_cases hcall ho with ⟨locks, Q, hrule, hrun⟩ | ⟨page, rfl⟩
  · have hc : (E.pool.setLocks locks).Coherent := hsited.coherent.setLocks locks
    refine ⟨fun hins => ?_, fun hdel => ?_⟩
    · have hk : call.task.Fits E.pool.tables :=
        hsited.fits c call hcall (Task.isScan_of_isInsertion hins)
      refine Task.plain_of_insertion hc hins hk
        (fun s hs hd => ⟨held_to_write hsteady hrule hd, ?_⟩) hrun he
      exact (h.roomy c call s hcall (Task.claim_of_search hs hd)).2
    · exact Task.fair_of_deletion hc hdel (fun p hd => held_to_write hsteady hrule hd) hrun he
  · rw [Task.failure_of_fail] at he
    cases he
    exact ⟨fun _ => rfl, fun _ => rfl⟩

/-- Whatever calls and transactions have done, and in whatever order they have waited and gone on,
    as long as no transaction gets in the way of a call of its own and no overtaken call is resumed:
    a call that is granted the lock to put its row on a page holds the page to write, and the page
    has a free slot. An insertion that fails does not fail because the page is full, or a slot not
    as expected, or a lock not held; and a deletion that fails does not fail because a page is full
    or a lock is not held. -/
theorem upgrade_finds_room {E : Engine ρ} (h : E.Arises Minds) (c : CallNo) {call : Call}
    (hcall : E.calls.get? c = some call) :
    (∀ locks s, E.ruling c = some (call, locks, .granted) → call.task.claim? = some s →
      locks.mode? call.txn s.pageId = some .exclusive ∧
        ∃ slot, SlotPage.firstFree s.file.layout (E.pool.shown s.pageId) = some slot) ∧
    ∀ F outcome e, E.step c = (F, some outcome) → outcome.failure? = some e →
      (call.task.isInsertion = true → e.isPlain = true) ∧
        (call.task.isDeletion = true → e.isFair = true) := by
  refine ⟨fun locks s hrule hs => ⟨?_, Option.ne_none_iff_exists'.1 (h.roomy c call s hcall hs).2⟩,
    fun F outcome e hstep he => fails_minding h hcall (congrArg Prod.snd hstep) he⟩
  exact held_to_write (h.mono fun _ _ => Minds.steady) hrule (by rw [Task.eq_claim hs]; rfl)

/-- A transaction has read a page, and another one is about to insert a row there and has to wait.
    Meanwhile the page is evicted. -/
def waitingToWrite : List (Move Recency) :=
  [.event (.submit ⟨2⟩ (.fetch ⟨⟨1⟩, 0⟩ .readOnly false)), .event (.step ⟨0⟩),
    .event (.submit ⟨1⟩ (.insert { table := ⟨1⟩, rows := [#[2]] }))] ++
  List.replicate 5 (.event (.step ⟨1⟩)) ++
  [.event (.submit ⟨3⟩ (.fetch ⟨⟨1⟩, 1⟩ .readOnly false)), .event (.step ⟨2⟩)]

/-- The reader leaves, and the insertion is granted the page and finds room. -/
theorem upgrade_finds_room_evicted :
    ((tiny 1 ({} : Recency)).moves waitingToWrite).ruling ⟨1⟩ = none ∧
    ((tiny 1 ({} : Recency)).moves waitingToWrite).pool.cache.resident.get? ⟨⟨1⟩, 0⟩ = none ∧
    ∃ locks slot, ((tiny 1 ({} : Recency)).moves
        (waitingToWrite ++ [.event (.act (.finish ⟨2⟩ .commit))])).ruling ⟨1⟩ =
      some (⟨⟨1⟩, .claim { table := ⟨1⟩, rows := [#[2]] } .tiny #[2] 0⟩, locks, .granted) ∧
      locks.mode? ⟨1⟩ ⟨⟨1⟩, 0⟩ = some .exclusive ∧
      SlotPage.firstFree TableFile.tiny.layout (((tiny 1 ({} : Recency)).moves
        (waitingToWrite ++ [.event (.act (.finish ⟨2⟩ .commit))])).pool.shown ⟨⟨1⟩, 0⟩) =
          some slot := by
  have harises : ((tiny 1 ({} : Recency)).moves
      (waitingToWrite ++ [.event (.act (.finish ⟨2⟩ .commit))])).Arises Minds :=
    (Arises.fresh (fresh_tiny 1 ({} : Recency))).moves (by decide +kernel)
  have hgranted : (((tiny 1 ({} : Recency)).moves
      (waitingToWrite ++ [.event (.act (.finish ⟨2⟩ .commit))])).ruling ⟨1⟩).map
        (fun r => (r.1, r.2.2)) =
      some (⟨⟨1⟩, .claim { table := ⟨1⟩, rows := [#[2]] } .tiny #[2] 0⟩, .granted) := by
    decide +kernel
  rcases Option.map_eq_some_iff.1 hgranted with ⟨⟨call, locks, v⟩, hrule, heq⟩
  cases heq
  rcases (upgrade_finds_room harises ⟨1⟩ (get?_of_ruling hrule)).1 locks _ hrule rfl with
    ⟨hx, slot, hfree⟩
  exact ⟨by decide +kernel, by decide +kernel, locks, slot, hrule, hx, hfree⟩

/-- A transaction begins two insertions. The first one comes to see room on a page, and then the
    second one runs through. -/
def twoInsertions : List (Move Recency) :=
  [.event (.submit ⟨1⟩ (.insert { table := ⟨1⟩, rows := [#[2]] })),
    .event (.submit ⟨1⟩ (.insert { table := ⟨1⟩, rows := [#[3]] }))] ++
  List.replicate 4 (.event (.step ⟨0⟩)) ++ List.replicate 6 (.event (.step ⟨1⟩))

/-- Insertions of one transaction share the lock to read, and the lock to write as well. So one of
    them can take the room that another one has seen, and that one fails because the page is full.
    No overtaken call has been resumed by then, and nothing was discarded. -/
theorem sibling_takes_the_room :
    ((tiny 4 ({} : Recency)).moves twoInsertions).Arises (fun E m => E.Steady m ∧
      m.enters = true ∧ m.isDiscard = false) ∧
    (((tiny 4 ({} : Recency)).moves twoInsertions).step ⟨0⟩).2 =
      some (.inserted [] (some (.pageFull 1))) :=
  ⟨(Arises.fresh (fresh_tiny 4 ({} : Recency))).moves (by decide +kernel), by decide +kernel⟩

end Engine

end RowStore
