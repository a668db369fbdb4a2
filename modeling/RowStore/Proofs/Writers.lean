import RowStore.Proofs.KnownTables
import RowStore.Proofs.Moves
import RowStore.Proofs.Reachable
import RowStore.Recency

/-!
# Who Changes a Page

What is shown of a page changes only by the hand of the transaction that holds it to
write.

Many moves touch pages that they were not asked about. A page that is taken in drives
another one out, a round of flushes goes over all copies, an ending over all pages of
its transaction, and a handle may be used long after its transaction has ended or its
page was discarded. None of them shows anywhere, but for three. A write by a handle
shows if the handle is on the resident copy, and it is refused unless the handle's
transaction holds the page to write at that moment. The work of a call writes the page
that it has just fetched under the same check. And a transaction that is rolled back or
given up has its pages shown as they are on disk; these are the pages that it holds to
write.

Locks may be given back early, and flushes, loads and endings may fail. Discarding a
page is another matter: anyone may do it, and it takes unwritten changes away.

## Main definitions

* `Engine.Placed`: The moves that are admitted: files are changed only through the pool.
* `Engine.performer`: The transaction on whose behalf a move is made.
* `Engine.changer`: The same for the moves that may show.

## Theorems

* `Engine.sited_move`: Every move that is admitted keeps copies and images together.
* `Pool.shown_finishIn`, `Pool.shown_act`, `Engine.shown_step_unheld`, `Engine.shown_move`: What
  each kind of move leaves as it is.
* `Engine.only_writer_changes`: A page that looks different was changed by its writer.
-/

namespace RowStore

instance (tables : Assoc TableId TableFile) (ev : Event) : Decidable (ev.Sited tables) :=
  match ev with
  | .submit _ task => inferInstanceAs (Decidable (task.isScan = false → task.Fits tables))
  | .step _ | .act _ => inferInstanceAs (Decidable True)

/-- Whether a move is the discarding of a page. -/
def Move.isDiscard {ρ : Type} : Move ρ → Bool
  | .event (.act (.discard _)) => true
  | _ => false

theorem Move.eq_discard {ρ : Type} {m : Move ρ} (h : m.isDiscard = true) :
    ∃ p, m = .event (.act (.discard p)) := by
  cases m with
  | event ev =>
      cases ev with
      | act a =>
          cases a with
          | discard p => exact ⟨p, rfl⟩
          | _ => cases h
      | _ => cases h
  | _ => cases h

namespace Pool

variable {ρ : Type}

/-- The transaction on whose behalf an action is done. -/
def performer (P : Pool ρ) : Action → Option TxnId
  | .read n | .write n _ | .drop n => (P.cache.handles.get? n).map Handle.txn
  | .finish t _ | .close t _ | .abandon t | .flushTxn t | .releasePage t _ | .releaseLocks t =>
    some t
  | .begin | .grow _ | .flushAll | .discard _ | .device _ => none

/-- The transaction whose pages an action other than a discard may show differently. -/
def changer (P : Pool ρ) : Action → Option TxnId
  | .write n _ => (P.cache.handles.get? n).map Handle.txn
  | .finish t _ | .close t _ | .abandon t => some t
  | .begin | .read _ | .drop _ | .grow _ | .flushAll | .flushTxn _ | .discard _
  | .releasePage _ _ | .releaseLocks _ | .device _ => none

theorem performer_of_changer {P : Pool ρ} {a : Action} {t : TxnId} (h : P.changer a = some t) :
    P.performer a = some t := by
  cases a with
  | write n e => exact h
  | finish u e => exact h
  | close u e => exact h
  | abandon u => exact h
  | _ => cases h

theorem performer_of_leaver {P : Pool ρ} {a : Action} {t : TxnId} (h : a.leaver? = some t) :
    P.performer a = some t := by
  cases a with
  | finish u e => exact h
  | close u e => exact h
  | abandon u => exact h
  | releaseLocks u => exact h
  | _ => cases h

section Coherent

variable {P : Pool ρ} (hc : P.Coherent) {p : PageId}

include hc

/-- A round of flushes does not show, wherever it stops. -/
theorem shown_forEach_flush (l : List PageId) : (P.forEach flush l).1.shown = P.shown := by
  rcases forEach_flush l hc with ⟨Q, _, hf, _, ⟨heq, _⟩ | ⟨e, heq⟩⟩
  · rw [heq]
    exact hf.shown
  · rw [heq]
    exact hf.shown

/-- An ending that visits only pages of its transaction leaves the others as they are shown,
    wherever it stops. -/
theorem shown_finishIn {order : List PageId} {t : TxnId}
    (horder : ∀ q ∈ order, P.locks.mode? t q = some .exclusive) (e : Ending)
    (hp : P.locks.mode? t p ≠ some .exclusive) :
    (P.finishIn order t e).1.shown p = P.shown p := by
  cases e with
  | commit =>
      rcases finishIn_commit hc order t with ⟨Q, _, hf, _, ⟨heq, _⟩ | ⟨e, heq⟩⟩
      · rw [heq]
        exact congrFun hf.shown p
      · rw [heq]
        exact congrFun hf.shown p
  | rollback =>
      rcases finishIn_rollback hc order t with ⟨Q, visited, ⟨hr, _⟩, hpre, hres⟩
      have hshown : Q.shown p = P.shown p := by
        rw [hr.shown, if_neg fun hm => hp (horder p (hpre.subset hm))]
      rcases hres with ⟨heq, _⟩ | ⟨e, heq⟩
      · rw [heq]
        exact hshown
      · rw [heq]
        exact hshown

/-- Writing by a handle shows on the handle's page only, and only if it is not refused. -/
theorem shown_edit (n : HandleNo) (e : Edit)
    (hp : ∀ h, P.cache.handles.get? n = some h → P.checkWrite h = .ok () → p ≠ h.page) :
    (P.edit n e).1.shown p = P.shown p := by
  unfold edit
  cases hn : P.cache.handles.get? n with
  | none => rfl
  | some h =>
      have hg : P.Grasps h := hc.tidy.handled n h hn
      have hmarked : (P.marked h).shown = P.shown := shown_marked hg hc.tidy
      simp only
      rcases alter_cases hg fun b => .ok ((), e.apply b) with
        ⟨e', _, heq⟩ | ⟨_, e', _, heq⟩ | ⟨hw, _, bytes, _, heq⟩
      · rw [heq]
      · rw [heq]
        exact congrFun hmarked p
      · rw [heq]
        simp only
        rw [written, shown_setBytes (grasps_marked hg) (coherent_marked hg hc).tidy, hmarked,
          if_neg fun hpr => hp h hn hw hpr.1]

variable [EvictionOrder ρ]

theorem restored_giveUp (t : TxnId) :
    ∃ Q, Restored P Q (P.locks.exclusivePages t) ∧
      P.giveUp t = Q.setLocks (P.locks.releaseAll t) := by
  have hr := restored_foldl_discard (P.locks.exclusivePages t) hc
  refine ⟨_, hr, ?_⟩
  simp only [giveUp, releaseLocks, setLocks, hr.locks]

theorem shown_giveUp {t : TxnId} (hp : P.locks.mode? t p ≠ some .exclusive) :
    (P.giveUp t).shown p = P.shown p := by
  rcases restored_giveUp hc t with ⟨Q, hr, heq⟩
  rw [heq]
  refine (hr.shown p).trans (if_neg fun hm => hp ?_)
  exact (LockTable.mem_exclusivePages _ _ _).1 hm

theorem shown_abandon {t : TxnId} (hp : P.locks.mode? t p ≠ some .exclusive) :
    (P.abandon t).shown p = P.shown p := by
  rcases abandon_eq hc t with ⟨Q, hr, heq⟩
  rw [heq]
  refine (hr.shown p).trans (if_neg fun hm => hp ?_)
  exact (LockTable.mem_exclusivePages _ _ _).1 hm

theorem shown_close {t : TxnId} (e : Ending) (hp : P.locks.mode? t p ≠ some .exclusive) :
    (P.close t e).1.shown p = P.shown p := by
  have horder : ∀ q ∈ P.locks.exclusivePages t, P.locks.mode? t q = some .exclusive :=
    fun q => (LockTable.mem_exclusivePages _ _ _).1
  have hshown := shown_finishIn hc horder e hp
  have hcoh := (finishIn_coherent hc (P.locks.exclusivePages t) t e).1
  unfold close finish
  rcases finishIn_visited hc.tidy (P.locks.exclusivePages t) t e with
    ⟨Q, _, hv, _, ⟨heq, _⟩ | ⟨cause, heq⟩⟩
  · rw [heq] at hshown ⊢
    exact hshown
  · rw [heq] at hshown hcoh ⊢
    -- What is still to be given up is what the transaction held when it began to end.
    refine (shown_abandon hcoh ?_).trans hshown
    rw [hv.locks]
    exact hp

/-- An action other than a discard shows only on pages that its changer holds to write. -/
theorem shown_act (hb : P.Bounded) {a : Action} (ha : ∀ q, a ≠ .discard q)
    (hp : ∀ t, P.changer a = some t → P.locks.mode? t p ≠ some .exclusive) :
    (P.act a).1.shown p = P.shown p := by
  cases a with
  | write n e =>
      refine shown_edit hc n e fun h hn hw heq => hp h.txn ?_ ?_
      · rw [changer, hn]
        rfl
      · rw [heq]
        exact mode?_of_checkWrite hw
  | finish t e =>
      exact shown_finishIn hc (fun q => (LockTable.mem_exclusivePages _ _ _).1) e (hp t rfl)
  | close t e => exact shown_close hc e (hp t rfl)
  | abandon t => exact shown_abandon hc (hp t rfl)
  | grow t => exact congrFun (grow_performs hc hb t ⟨0⟩).shown p
  | flushAll => exact congrFun (shown_forEach_flush hc _) p
  | flushTxn t => exact congrFun (shown_forEach_flush hc _) p
  | discard q => exact absurd rfl (ha q)
  | begin | read _ | drop _ | releasePage _ _ | releaseLocks _ | device _ => rfl

end Coherent

end Pool

namespace Engine

variable {ρ : Type}

/-- What is asked of a move: calls keep to the files of their tables, tables can be counted, an
    ending visits the pages that its transaction holds to write, a table that becomes known is new
    and has a file of its own, and what others change is no table's file. -/
def Placed (E : Engine ρ) : Move ρ → Prop
  | .event ev => E.pool.Bounded ∧ ev.Sited E.pool.tables
  | .finishIn order t _ => order.Perm (E.pool.locks.exclusivePages t)
  | .register f => E.pool.tables.get? f.table = none ∧
      (∀ t g, E.pool.tables.get? t = some g → g.file ≠ f.file) ∧ f.Whole E.pool.disk
  | .outside disk =>
      ∀ t f, E.pool.tables.get? t = some f → disk.image f.file = E.pool.disk.image f.file
  | .giveUp _ | .reorder _ => True

instance (E : Engine ρ) (m : Move ρ) : Decidable (E.Placed m) :=
  match m with
  | .event ev => inferInstanceAs (Decidable (E.pool.Bounded ∧ ev.Sited E.pool.tables))
  | .finishIn order t _ =>
    inferInstanceAs (Decidable (order.Perm (E.pool.locks.exclusivePages t)))
  | .register f =>
    have : Decidable (∀ t g, E.pool.tables.get? t = some g → g.file ≠ f.file) :=
      decidable_of_iff' _ (Assoc.forall_iff _ fun _ (g : TableFile) => g.file ≠ f.file)
    inferInstanceAs (Decidable (E.pool.tables.get? f.table = none ∧
      (∀ t g, E.pool.tables.get? t = some g → g.file ≠ f.file) ∧ f.Whole E.pool.disk))
  | .outside disk =>
    decidable_of_iff' _ (Assoc.forall_iff E.pool.tables fun _ (f : TableFile) =>
      disk.image f.file = E.pool.disk.image f.file)
  | .giveUp _ | .reorder _ => inferInstanceAs (Decidable True)

/-- The transaction on whose behalf a move is made. -/
def performer (E : Engine ρ) : Move ρ → Option TxnId
  | .event (.submit t _) => some t
  | .event (.step c) => (E.calls.get? c).map Call.txn
  | .event (.act a) => E.pool.performer a
  | .finishIn _ t _ | .giveUp t => some t
  | .register _ | .outside _ | .reorder _ => none

/-- The transaction whose pages a move other than a discard may show differently. -/
def changer (E : Engine ρ) : Move ρ → Option TxnId
  | .event (.step c) => (E.calls.get? c).map Call.txn
  | .event (.act a) => E.pool.changer a
  | .finishIn _ t _ | .giveUp t => some t
  | .event (.submit _ _) | .register _ | .outside _ | .reorder _ => none

theorem performer_of_changer {E : Engine ρ} {m : Move ρ} {t : TxnId} (h : E.changer m = some t) :
    E.performer m = some t := by
  cases m with
  | event ev =>
      cases ev with
      | submit u task => cases h
      | step c => exact h
      | act a => exact Pool.performer_of_changer h
  | finishIn order u e => exact h
  | giveUp u => exact h
  | _ => cases h

theorem performer_of_leaver {E : Engine ρ} {m : Move ρ} {t : TxnId} (h : m.leaver? = some t) :
    E.performer m = some t := by
  cases m with
  | event ev =>
      cases ev with
      | act a => exact Pool.performer_of_leaver h
      | _ => cases h
  | finishIn order u e => exact h
  | giveUp u => exact h
  | _ => cases h

variable [EvictionOrder ρ] {E : Engine ρ}

/-- Tables are known as before, unless one becomes known. -/
theorem tables_move (E : Engine ρ) (m : Move ρ) :
    (E.move m).pool.tables = E.pool.tables ∨ ∃ f, m = .register f := by
  cases m with
  | event ev => exact Or.inl (E.tables_exec ev)
  | finishIn order t e => exact Or.inl (E.pool.tables_finishIn order t e)
  | giveUp t => exact Or.inl (E.pool.tables_giveUp t)
  | register f => exact Or.inr ⟨f, rfl⟩
  | outside disk => exact Or.inl rfl
  | reorder order => exact Or.inl rfl

/-- No table is replaced. -/
theorem known_move {m : Move ρ} (hm : E.Placed m) {u : TableId} {g : TableFile}
    (hg : E.pool.tables.get? u = some g) : (E.move m).pool.tables.get? u = some g := by
  rcases E.tables_move m with ht | ⟨f, rfl⟩
  · rw [ht]
    exact hg
  · have hne : u ≠ f.table := by
      rintro rfl
      rw [hm.1] at hg
      cases hg
    exact (Assoc.get?_insert_other _ _ hne).trans hg

theorem known_moves {ms : List (Move ρ)} (hms : E.Admits Placed ms) {u : TableId} {g : TableFile}
    (hg : E.pool.tables.get? u = some g) : (E.moves ms).pool.tables.get? u = some g := by
  induction ms generalizing E with
  | nil => exact hg
  | cons m rest ih => exact ih hms.2 (known_move hms.1 hg)

/-- Every move that is admitted keeps copies and images together, and calls with their files. -/
theorem sited_move (hs : E.Sited) {m : Move ρ} (hm : E.Placed m) : (E.move m).Sited := by
  cases m with
  | event ev => exact sited_exec hs hm.1 hm.2
  | finishIn order t e =>
      refine hs.congr (Pool.finishIn_coherent hs.coherent order t e).1 fun u f h => ?_
      rw [Pool.tables_finishIn]
      exact h
  | giveUp t =>
      rcases Pool.restored_giveUp hs.coherent t with ⟨Q, hr, heq⟩
      have hc : (E.pool.giveUp t).Coherent := heq ▸ hr.coherent.setLocks _
      refine hs.congr hc fun u f h => ?_
      rw [Pool.tables_giveUp]
      exact h
  | register f => exact sited_register hs hm.1 hm.2.1 hm.2.2
  | outside disk => exact sited_elsewhere hs hm
  | reorder order => exact hs.congr (Pool.quiet_order hs.coherent order).2 fun _ _ => id

theorem Arises.sited {ok : Engine ρ → Move ρ → Prop} (hok : ∀ E m, ok E m → E.Placed m)
    (h : E.Arises ok) : E.Sited := by
  induction h with
  | fresh h => exact ⟨h.sane.coherent, fun c call hc _ => h.sane.fits c call hc⟩
  | move h hm ih => exact sited_move ih (hok _ _ hm)

section shown

variable (hs : E.Sited) {p : PageId}

include hs

/-- A call that takes a step shows only on pages that its transaction holds to write when the work
    is done. -/
theorem shown_step_unheld (hb : E.pool.Bounded) (c : CallNo)
    (hp : ∀ call locks v, E.ruling c = some (call, locks, v) →
      locks.mode? call.txn p ≠ some .exclusive) :
    (E.step c).1.pool.shown p = E.pool.shown p := by
  rcases E.step_cases c with ⟨_, heq⟩ | ⟨call, locks, hrule, heq⟩ | ⟨call, locks, _, heq⟩ |
    ⟨call, locks, page, mode, _, _, heq⟩
  · rw [heq]
  · have hcoh := hs.coherent.setLocks locks
    have hw := work_performs (E := E.setLocks locks) hcoh hb c
      (hs.fits c call (get?_of_ruling hrule))
    rw [heq, hw.shown]
    -- What the call writes, it holds to write.
    refine PageOp.after_of_not_written _ fun bytes hmem => hp call locks .granted hrule ?_
    rcases Task.mem_accesses hcoh hmem with ⟨_, _, hx⟩
    exact hx rfl
  · rw [heq]
    rfl
  · rw [heq]
    rfl

/-- A move other than a discard shows only on pages that its changer holds to write when the work is
    done. -/
theorem shown_move {m : Move ρ} (hm : E.Placed m) (hd : m.isDiscard = false) {g : TableFile}
    (hg : E.pool.tables.get? p.table = some g)
    (hp : ∀ t, E.changer m = some t → (E.locksDuring m).mode? t p ≠ some .exclusive) :
    (E.move m).pool.shown p = E.pool.shown p := by
  cases m with
  | event ev =>
      cases ev with
      | submit t task => rfl
      | step c =>
          refine shown_step_unheld hs hm.1 c fun call locks v hrule => ?_
          have hcall : E.changer (.event (.step c)) = some call.txn := by
            rw [changer, get?_of_ruling hrule]
            rfl
          exact locksDuring_step hrule ▸ hp call.txn hcall
      | act a =>
          refine Pool.shown_act hs.coherent hm.1 (fun q heq => ?_) hp
          subst heq
          cases hd
  | finishIn order t e =>
      refine Pool.shown_finishIn hs.coherent (fun q hq => ?_) e (hp t rfl)
      exact (LockTable.mem_exclusivePages _ _ _).1 (hm.mem_iff.1 hq)
  | giveUp t => exact Pool.shown_giveUp hs.coherent (hp t rfl)
  | register f =>
      -- The page is one of a table that was known, and that table is known as before.
      refine Pool.shown_congr rfl ?_
      rw [Pool.stored_of_table hg, Pool.stored_of_table (known_move hm hg)]
      rfl
  | outside disk =>
      refine Pool.shown_congr rfl ?_
      rw [move, Pool.stored_of_table hg, Pool.stored_of_table (P := { E.pool with disk }) hg]
      exact g.imageOn_congr (hm _ g hg) _
  | reorder order => rfl

end shown

/-- Whatever has happened, if what is shown of a page is not the same after a move, and the page was
    not discarded, then the move was made on behalf of a transaction that held the page to write
    when it was changed, by the account of the transaction and by that of the page. -/
theorem only_writer_changes (h : E.Arises Placed) {m : Move ρ} (hm : E.Placed m)
    (hd : m.isDiscard = false) {p : PageId} (hhas : E.pool.Has p)
    (hne : (E.move m).pool.shown p ≠ E.pool.shown p) :
    ∃ t, E.performer m = some t ∧ (E.locksDuring m).mode? t p = some .exclusive ∧
      ((E.locksDuring m).holdersOf p).exclusive = some t := by
  rcases hhas with ⟨g, hg, _⟩
  by_contra hno
  refine hne (shown_move (h.sited fun _ _ => id) hm hd hg fun t ht hx => hno ?_)
  exact ⟨t, performer_of_changer ht, hx, (guarded_during h.guarded m).exclusive t p hx⟩

/-- A transaction writes two pages, the first of which leaves memory with what was written. -/
def twoWritten : List (Move Recency) :=
  [.event (.submit ⟨1⟩ (.fetch ⟨⟨1⟩, 0⟩ .readWrite true)), .event (.step ⟨0⟩),
    .event (.act (.write ⟨0⟩ (.fill 5))), .event (.act (.discard ⟨⟨1⟩, 0⟩)),
    .event (.submit ⟨1⟩ (.fetch ⟨⟨1⟩, 1⟩ .readWrite true)), .event (.step ⟨1⟩),
    .event (.act (.write ⟨1⟩ (.fill 7)))]

/-- Rolling back changes the second page, which the transaction holds to write. -/
theorem only_writer_changes_twoWritten :
    ((tiny 2 ({} : Recency)).moves twoWritten).pool.shown ⟨⟨1⟩, 1⟩ = #[7, 7] ∧
    (((tiny 2 ({} : Recency)).moves twoWritten).move
      (.finishIn [⟨⟨1⟩, 1⟩, ⟨⟨1⟩, 0⟩] ⟨1⟩ .rollback)).pool.shown ⟨⟨1⟩, 1⟩ = #[0, 0] ∧
    ∃ t, ((tiny 2 ({} : Recency)).moves twoWritten).performer
        (.finishIn [⟨⟨1⟩, 1⟩, ⟨⟨1⟩, 0⟩] ⟨1⟩ .rollback) = some t ∧
      (((tiny 2 ({} : Recency)).moves twoWritten).pool.locks.holdersOf ⟨⟨1⟩, 1⟩).exclusive =
        some t := by
  have harises : ((tiny 2 ({} : Recency)).moves twoWritten).Arises Placed :=
    (Arises.fresh (fresh_tiny 2 ({} : Recency))).moves (by decide +kernel)
  refine ⟨by decide +kernel, by decide +kernel, ?_⟩
  have hhas : ((tiny 2 ({} : Recency)).moves twoWritten).pool.Has ⟨⟨1⟩, 1⟩ :=
    ⟨.tiny, by decide +kernel, by decide +kernel⟩
  rcases only_writer_changes harises (m := .finishIn [⟨⟨1⟩, 1⟩, ⟨⟨1⟩, 0⟩] ⟨1⟩ .rollback)
    (by decide +kernel) rfl hhas (by decide +kernel) with ⟨t, hperf, _, hx⟩
  exact ⟨t, hperf, hx⟩

end Engine

end RowStore
