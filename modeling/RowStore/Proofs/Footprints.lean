import RowStore.Proofs.PartialCommit
import RowStore.Proofs.Writers

/-!
# What Moves Leave on Disk

What a transaction leaves on disk before it ends: at most pages of zeros at the ends of
tables.

Images are written by commits and by rounds of flushes. Of a page that one transaction
holds to write, only its own commit and a flush of its changes write the image. Other
moves on its behalf write none, but a call that looks for room may have a table grow.
And a table grows by a page that was shown as zeros before it was there.

The files that are concerned are those of tables that are known. So are the pages of all
handles that were ever kept, because a page was loaded before a handle was put on it, and
a table that is known once stays so.

## Main definitions

* `Move.forces`: A move may write out what a transaction has changed.
* `Engine.Growth`: Images stay as they are, and at most one table grows.
* `Pool.Rooted`: Every handle is on a page of a known table.
* `Pool.Longer`: No table has become shorter.

## Theorems

* `Task.disk_run`: Only a call that looks for room has a table grow.
* `Engine.longer_move`: No table becomes shorter.
* `Engine.growth_move`: What the moves of a transaction do on disk.
* `Engine.stored_held`: The image of a page that is held to write stays as it is.
* `Engine.rooted_move`: No move takes a handle off the known tables.
-/

namespace RowStore

/-- Whether a move may write out what the transaction has changed. -/
def Move.forces {ρ : Type} (t : TxnId) : Move ρ → Bool
  | .event ev => ev.forces t
  | .finishIn _ u .commit => u = t
  | .finishIn _ _ .rollback | .giveUp _ | .register _ | .outside _ | .reorder _ => false

/-- A page has at most one transaction that holds it to write. -/
theorem LockTable.Backed.eq_of_exclusive {l : LockTable} (hb : l.Backed) {t u : TxnId}
    {p : PageId} (ht : l.mode? t p = some .exclusive) (hu : l.mode? u p = some .exclusive) :
    u = t :=
  Option.some.inj ((hb.exclusive u p hu).symm.trans (hb.exclusive t p ht))

/-! ## The disk -/

namespace Task

variable {ρ : Type} [EvictionOrder ρ]

theorem disk_fetchHandle {P Q : Pool ρ} {t : TxnId} {p : PageId} {access : Access}
    {r : Except StoreError Handle} (h : fetchHandle P t p access = (Q, r)) : Q.disk = P.disk := by
  rcases fetch_apart P p with ⟨c, hc⟩
  rw [(fetch_of_fetchHandle h).1] at hc
  rw [hc]

omit [EvictionOrder ρ] in
theorem disk_alter {α : Type} {P Q : Pool ρ} {h : Handle}
    {work : Bytes → Except StoreError (α × Bytes)} {r : Except StoreError α}
    (heq : P.alter h work = (Q, r)) : Q.disk = P.disk := by
  rcases alter_apart P h work with ⟨frames, hf⟩
  have hQ : Q = { P with cache := { P.cache with frames } } := (congrArg Prod.fst heq).symm.trans hf
  rw [hQ]

/-- The work of a point leaves the disk alone, unless a call that looks for room has its table
    grow. -/
theorem disk_run (P : Pool ρ) (t : TxnId) (task : Task) :
    (task.run P t).1.disk = P.disk ∨ ∃ job file row page count q,
      task = .seek job file row page count ∧
        file.append P.disk = .ok (q, (task.run P t).1.disk) := by
  cases task with
  | lock page access => exact Or.inl rfl
  | fetch page access keep =>
      simp only [run]
      rcases hf : fetchHandle P t page access with ⟨Q, e | h⟩
      · exact Or.inl (disk_fetchHandle hf)
      · have hq := disk_fetchHandle hf
        cases keep <;> exact Or.inl hq
  | insert job =>
      simp only [run]
      split
      · exact Or.inl rfl
      split
      · exact Or.inl rfl
      split <;> exact Or.inl rfl
  | survey job file row page => exact Or.inl rfl
  | seek job file row page count =>
      simp only [run]
      split
      · exact Or.inl rfl
      split
      · exact Or.inl rfl
      · rename_i q disk happend
        exact Or.inr ⟨job, file, row, page, count, q, rfl, happend⟩
  | inspect job file row page count =>
      simp only [run]
      rcases hf : fetchHandle P t ⟨file.table, page⟩ .readOnly with ⟨Q, e | h⟩
      · exact Or.inl (disk_fetchHandle hf)
      · simp only
        split <;> exact Or.inl (disk_fetchHandle hf)
  | claim job file row page =>
      simp only [run, putRow_eq]
      rcases hf : fetchHandle P t ⟨file.table, page⟩ .readWrite with ⟨Q, e | h⟩
      · exact Or.inl (disk_fetchHandle hf)
      · simp only
        rcases hr : Q.alter h (rowIn file.layout row) with ⟨R, e | slot⟩ <;>
          exact Or.inl ((disk_alter hr).trans (disk_fetchHandle hf))
  | delete row =>
      cases row with
      | none => exact Or.inl rfl
      | some row =>
          simp only [run]
          split
          · exact Or.inl rfl
          split <;> exact Or.inl rfl
  | remove file row =>
      simp only [run, dropRow_eq]
      rcases hf : fetchHandle P t row.page .readWrite with ⟨Q, e | h⟩
      · exact Or.inl (disk_fetchHandle hf)
      · simp only
        split
        · exact Or.inl (disk_fetchHandle hf)
        · rcases hr : Q.alter h (rowOut file.layout row.slot) with ⟨R, e | u⟩ <;>
            exact Or.inl ((disk_alter hr).trans (disk_fetchHandle hf))
  | advance cursor goal =>
      simp only [run]
      split
      · exact Or.inl rfl
      split
      · exact Or.inl rfl
      split <;> exact Or.inl rfl
  | load cursor goal =>
      simp only [run]
      rcases hf : fetchHandle P t cursor.page .readOnly with ⟨Q, e | h⟩
      · exact Or.inl (disk_fetchHandle hf)
      · simp only
        split <;> exact Or.inl (disk_fetchHandle hf)

end Task

/-! ## The handles -/

namespace Pool

variable {ρ : Type}

/-- Every handle is on a page of a table that is known. -/
def Rooted (P : Pool ρ) : Prop :=
  ∀ n h, P.cache.handles.get? n = some h → ∃ f, P.tables.get? h.page.table = some f

theorem handles_settles {P Q : Pool ρ} {e : Ending} {p : PageId} (h : P.Settles p e Q) :
    Q.cache.handles = P.cache.handles := by
  cases h with
  | clean _ | absent _ => rfl
  | stored _ _ _ | loaded _ _ => exact (handles_updatePage _ _ _).1

variable [EvictionOrder ρ]

/-- No action puts a handle on a page. -/
theorem handles_act (P : Pool ρ) (a : Action) {n : HandleNo} {h : Handle}
    (hn : (P.act a).1.cache.handles.get? n = some h) : P.cache.handles.get? n = some h := by
  cases a with
  | write m e =>
      simp only [act, edit] at hn
      cases hm : P.cache.handles.get? m with
      | none =>
          rw [hm] at hn
          exact hn
      | some hd =>
          rw [hm] at hn
          rcases Task.alter_apart P hd fun b => .ok ((), e.apply b) with ⟨frames, hf⟩
          simp only [hf] at hn
          exact hn
  | drop m =>
      simp only [act, Cache.unpin, Assoc.get?_erase] at hn
      split at hn
      · cases hn
      · exact hn
  | finish t e =>
      exact finishIn_const (·.cache.handles) handles_settles (fun _ _ => rfl) P _ t ▸ hn
  | close t e =>
      exact close_const (·.cache.handles) handles_settles (fun _ _ => rfl) (fun _ _ => rfl) P t e ▸ hn
  | abandon t =>
      exact abandon_const (·.cache.handles) handles_settles (fun _ _ => rfl) (fun _ _ => rfl) P t ▸ hn
  | grow t =>
      simp only [act, grow] at hn
      split at hn
      · exact hn
      · split at hn <;> exact hn
  | flushAll => exact forEach_flush_const (·.cache.handles) handles_settles P _ ▸ hn
  | flushTxn t => exact forEach_flush_const (·.cache.handles) handles_settles P _ ▸ hn
  | begin | read _ | discard _ | releasePage _ _ | releaseLocks _ | device _ => exact hn

/-- A handle that the work of a call puts on a page is on one of a known table, because the page was
    loaded. -/
theorem handles_worked {P Q : Pool ρ} (hc : P.Coherent) {t : TxnId} (h : Task.Worked t P Q)
    {n : HandleNo} {hd : Handle} (hn : Q.cache.handles.get? n = some hd) :
    P.cache.handles.get? n = some hd ∨ ∃ f, P.tables.get? hd.page.table = some f := by
  have hfetch : ∀ {p R r}, P.fetch p = (R, r) → Quiet P R ∧ R.Coherent ∧
      ∀ f, r = .ok f → R.cache.resident.get? p = some f := by
    intro p R r hf
    rcases fetch_cases hc p with ⟨R', hq, hcr, ⟨f, heq, hr⟩ | heq | ⟨e, heq, _⟩⟩
    · cases hf.symm.trans heq
      exact ⟨hq, hcr, fun g hg => by cases hg; exact hr⟩
    · cases hf.symm.trans heq
      exact ⟨hq, hcr, fun g hg => by cases hg⟩
    · cases hf.symm.trans heq
      exact ⟨hq, hcr, fun g hg => by cases hg⟩
  cases h with
  | same => exact Or.inl hn
  | grown h => exact Or.inl hn
  | fetched p => exact Or.inl ((hfetch rfl).1.handles ▸ hn)
  | @kept p f R access h =>
      rcases hfetch h with ⟨hq, hcr, hres⟩
      simp only [Cache.pin, Assoc.get?_insert] at hn
      split at hn
      · cases hn
        exact Or.inr (hq.tables ▸ hcr.known_of_resident (hres f rfl))
      · exact Or.inl (hq.handles ▸ hn)
  | @altered p f R α work hsize h =>
      rcases Task.alter_apart R ⟨p, f, t, .readWrite⟩ work with ⟨frames, hf⟩
      rw [hf] at hn
      exact Or.inl ((hfetch h).1.handles ▸ hn)

end Pool

/-! ## The lengths of tables -/

namespace Pool

variable {ρ : Type} {P Q : Pool ρ}

/-- No table has become shorter. -/
def Longer (P Q : Pool ρ) : Prop :=
  ∀ t f, P.tables.get? t = some f → f.pagesOn P.disk ≤ f.pagesOn Q.disk

theorem Longer.of_disk (h : Q.disk = P.disk) : P.Longer Q :=
  fun _ f _ => Nat.le_of_eq (congrArg f.pagesOn h.symm)

theorem Keeps.longer (h : Keeps P Q) : P.Longer Q := fun _ _ hf => Nat.le_of_eq (h.pagesOn hf).symm

theorem longer_grown (hl : P.Laid) {f : TableFile} (hf : P.tables.get? f.table = some f)
    (h : Q.disk = f.grown P.disk) : P.Longer Q := by
  intro t g hg
  have hle : f.pagesOn P.disk ≤ f.pagesOn (f.grown P.disk) := by
    rw [f.pagesOn_grown]
    exact Nat.le_succ _
  rw [h]
  exact pagesOn_put hl hf _ hle hg

/-- An ending changes bytes inside files, wherever it stops. -/
theorem keeps_finishIn (hc : P.Coherent) (order : List PageId) (t : TxnId) (e : Ending) :
    ∃ Q, Keeps P Q ∧ Q.Coherent ∧
      (P.finishIn order t e = (Q.setLocks (P.locks.releaseAll t), .ok ()) ∨
        ∃ cause, P.finishIn order t e = (Q, .error cause)) := by
  cases e with
  | commit =>
      rcases finishIn_commit hc order t with ⟨Q, _, hf, _, hres⟩
      exact ⟨Q, hf.toKeeps, hf.coherent, hres.imp And.left id⟩
  | rollback =>
      rcases finishIn_rollback hc order t with ⟨Q, _, ⟨hr, _⟩, _, hres⟩
      exact ⟨Q, hr.toKeeps, hr.coherent, hres.imp And.left id⟩

theorem longer_finishIn (hc : P.Coherent) (order : List PageId) (t : TxnId) (e : Ending) :
    P.Longer (P.finishIn order t e).1 := by
  rcases keeps_finishIn hc order t e with ⟨Q, hk, _, heq | ⟨cause, heq⟩⟩
  · rw [heq]
    exact hk.longer
  · rw [heq]
    exact hk.longer

theorem longer_forEach_flush (hc : P.Coherent) (l : List PageId) :
    P.Longer (P.forEach flush l).1 := by
  rcases forEach_flush l hc with ⟨Q, _, hf, _, ⟨heq, _⟩ | ⟨e, heq⟩⟩
  · rw [heq]
    exact hf.toKeeps.longer
  · rw [heq]
    exact hf.toKeeps.longer

variable [EvictionOrder ρ]

theorem longer_giveUp (hc : P.Coherent) (t : TxnId) : P.Longer (P.giveUp t) := by
  rcases restored_giveUp hc t with ⟨Q, hr, heq⟩
  rw [heq]
  exact hr.toKeeps.longer

theorem longer_close (hc : P.Coherent) (t : TxnId) (e : Ending) : P.Longer (P.close t e).1 := by
  unfold close finish
  rcases keeps_finishIn hc (P.locks.exclusivePages t) t e with ⟨Q, hk, hcq, heq | ⟨cause, heq⟩⟩
  · rw [heq]
    exact hk.longer
  · rw [heq]
    rcases abandon_eq hcq t with ⟨R, hr, heq'⟩
    simp only [heq']
    exact (hk.trans hr.toKeeps).longer

theorem longer_act (hc : P.Coherent) (hb : P.Bounded) (a : Action) : P.Longer (P.act a).1 := by
  cases a with
  | write n e =>
      refine .of_disk ?_
      simp only [act, edit]
      split
      · rfl
      · rename_i h _
        rcases Task.alter_apart P h fun b => .ok ((), e.apply b) with ⟨frames, hf⟩
        simp only [hf]
  | finish t e => exact longer_finishIn hc _ t e
  | close t e => exact longer_close hc t e
  | abandon t =>
      rcases abandon_eq hc t with ⟨Q, hr, heq⟩
      simp only [act, heq]
      exact hr.toKeeps.longer
  | grow t =>
      simp only [act, grow]
      split
      · exact .of_disk rfl
      · rename_i f hf
        have hknown := Task.get?_of_table hc hf
        have hlt : f.pagesOn P.disk < UInt32.size :=
          Nat.lt_of_lt_of_le (hb _ f hknown) (Nat.sub_le _ _)
        split
        · exact .of_disk rfl
        · rename_i happend
          exact longer_grown hc.laid hknown (f.append_eq_ok hlt happend).2
  | flushAll => exact longer_forEach_flush hc _
  | flushTxn t => exact longer_forEach_flush hc _
  | begin | read _ | drop _ | discard _ | releasePage _ _ | releaseLocks _ | device _ =>
      exact .of_disk rfl

end Pool

namespace Engine

variable {ρ : Type} [EvictionOrder ρ] {E : Engine ρ}

/-! ## Moves -/

/-- Images stay as they are by a move, and so does the disk, but for one page that some table may
    have more at its end. -/
structure Growth (E : Engine ρ) (m : Move ρ) : Prop where
  stored : (E.move m).pool.stored = E.pool.stored
  disk : (E.move m).pool.disk = E.pool.disk ∨ ∃ f, E.pool.tables.get? f.table = some f ∧
    (E.move m).pool.disk = f.grown E.pool.disk

section Sited

variable (hs : E.Sited)

include hs

/-- A call that takes a step has at most the table grow that it inserts rows into. -/
theorem disk_step (hb : E.pool.Bounded) (c : CallNo) :
    (E.step c).1.pool.disk = E.pool.disk ∨ ∃ f, E.pool.tables.get? f.table = some f ∧
      (E.step c).1.pool.disk = f.grown E.pool.disk := by
  rcases E.step_cases c with ⟨_, heq⟩ | ⟨call, locks, hrule, heq⟩ | ⟨call, locks, _, heq⟩ |
    ⟨call, locks, page, mode, _, _, heq⟩
  · rw [heq]
    exact Or.inl rfl
  · rw [heq, pool_work]
    rcases call.task.disk_run (E.setLocks locks).pool call.txn with
      hd | ⟨job, file, row, page, count, q, htask, happend⟩
    · exact Or.inl hd
    · -- The call keeps to the file of its table, and that can be counted.
      have hf : E.pool.tables.get? file.table = some file :=
        hs.fits c call (get?_of_ruling hrule) (by rw [htask]; rfl) file (by rw [htask]; rfl)
      have hlt : file.pagesOn E.pool.disk < UInt32.size :=
        Nat.lt_of_lt_of_le (hb _ file hf) (Nat.sub_le _ _)
      exact Or.inr ⟨file, hf, (file.append_eq_ok hlt happend).2⟩
  · rw [heq]
    exact Or.inl rfl
  · rw [heq]
    exact Or.inl rfl

/-- No table becomes shorter. -/
theorem longer_move {m : Move ρ} (hm : E.Placed m) : E.pool.Longer (E.move m).pool := by
  cases m with
  | event ev =>
      cases ev with
      | submit u task => exact .of_disk rfl
      | step c =>
          rcases disk_step hs hm.1 c with hd | ⟨f, hf, hd⟩
          · exact .of_disk hd
          · exact Pool.longer_grown hs.coherent.laid hf hd
      | act a => exact Pool.longer_act hs.coherent hm.1 a
  | finishIn order t e => exact Pool.longer_finishIn hs.coherent order t e
  | giveUp t => exact Pool.longer_giveUp hs.coherent t
  | register f => exact .of_disk rfl
  | outside disk => exact fun t f hf => Nat.le_of_eq (f.pagesOn_congr (hm t f hf)).symm
  | reorder order => exact .of_disk rfl

theorem longer_moves {ms : List (Move ρ)} (hms : E.Admits Placed ms) :
    E.pool.Longer (E.moves ms).pool := by
  induction ms generalizing E with
  | nil => exact .of_disk rfl
  | cons m rest ih =>
      exact fun u f hf => Nat.le_trans (longer_move hs hms.1 u f hf)
        (ih (sited_move hs hms.1) hms.2 u f (known_move hms.1 hf))

/-- Before a transaction ends, and unless it forces its changes out, its moves change no image. -/
theorem growth_move {m : Move ρ} (hm : E.Placed m) {t : TxnId} (hperf : E.performer m = some t)
    (hstay : m.leaver? ≠ some t) (hforce : m.forces t = false) : E.Growth m := by
  cases m with
  | event ev =>
      cases ev with
      | submit u task => exact ⟨rfl, Or.inl rfl⟩
      | step c => exact ⟨(coherent_step hs.coherent hm.1 (hs.fits c)).2.1, disk_step hs hm.1 c⟩
      | act a =>
          have hact := (Pool.act_coherent hs.coherent hm.1 a).2.2
          cases a with
          | write n e =>
              refine ⟨hact rfl, Or.inl ?_⟩
              simp only [move, exec, Pool.act, Pool.edit]
              cases E.pool.cache.handles.get? n with
              | none => rfl
              | some h =>
                  rcases Task.alter_apart E.pool h fun b => .ok ((), e.apply b) with ⟨frames, hf⟩
                  simp only [hf]
          | finish u e | close u e | abandon u | releaseLocks u => exact absurd hperf hstay
          | flushTxn u =>
              cases hperf
              exact absurd rfl (of_decide_eq_false hforce)
          | read _ | drop _ | releasePage _ _ => exact ⟨hact rfl, Or.inl rfl⟩
          | _ => cases hperf
  | finishIn _ _ _ | giveUp _ => exact absurd hperf hstay
  | _ => cases hperf

/-- The image of a page that a transaction holds to write stays as it is until the transaction
    leaves, unless it is forced out. -/
theorem stored_held (ho : E.pool.Owned) (hb : E.pool.locks.Backed) {m : Move ρ} (hm : E.Placed m)
    {t : TxnId} {p : PageId} (hx : (E.locksDuring m).mode? t p = some .exclusive)
    (hstay : m.leaver? ≠ some t) (hforce : m.forces t = false) {g : TableFile}
    (hg : E.pool.tables.get? p.table = some g) :
    (E.move m).pool.stored p = E.pool.stored p := by
  cases m with
  | event ev =>
      cases ev with
      | submit u task => rfl
      | step c => exact congrFun (coherent_step hs.coherent hm.1 (hs.fits c)).2.1 p
      | act a =>
          -- Nobody else holds the page to write.
          exact Pool.stored_act hs.coherent hm.1 ho hforce
            fun u hu hxu => hu (hb.eq_of_exclusive hx hxu)
  | finishIn order u e =>
      refine Pool.stored_finishIn hs.coherent u e fun hmem => hstay ?_
      have hxu := (LockTable.mem_exclusivePages _ _ _).1 (hm.mem_iff.1 hmem)
      exact congrArg some (hb.eq_of_exclusive hx hxu)
  | giveUp u =>
      rcases Pool.restored_giveUp hs.coherent u with ⟨Q, hr, heq⟩
      rw [move, heq]
      exact congrFun hr.stored p
  | register f =>
      rw [Pool.stored_of_table hg, Pool.stored_of_table (known_move hm hg)]
      rfl
  | outside disk =>
      rw [move, Pool.stored_of_table hg, Pool.stored_of_table (P := { E.pool with disk }) hg]
      exact g.imageOn_congr (hm _ g hg) _
  | reorder order => rfl

omit hs in
/-- Only the step of a call puts a handle on a page. -/
theorem handles_unstepped (m : Move ρ) : (∃ c, m = .event (.step c)) ∨
    ∀ n h, (E.move m).pool.cache.handles.get? n = some h →
      E.pool.cache.handles.get? n = some h := by
  cases m with
  | event ev =>
      cases ev with
      | submit u task => exact Or.inr fun _ _ => id
      | step c => exact Or.inl ⟨c, rfl⟩
      | act a => exact Or.inr fun _ _ => E.pool.handles_act a
  | finishIn order u e =>
      have hsame := Pool.finishIn_const (e := e) (·.cache.handles) Pool.handles_settles
        (fun _ _ => rfl) E.pool order u
      exact Or.inr fun _ _ hn => hsame ▸ hn
  | giveUp u =>
      have hsame := Pool.giveUp_const (·.cache.handles) (fun _ _ => rfl) (fun _ _ => rfl) E.pool u
      exact Or.inr fun _ _ hn => hsame ▸ hn
  | register _ | outside _ | reorder _ => exact Or.inr fun _ _ => id

/-- A handle that is there after a move was there before, or was put on a page of a known table. -/
theorem handles_move (m : Move ρ) {n : HandleNo} {h : Handle}
    (hn : (E.move m).pool.cache.handles.get? n = some h) :
    E.pool.cache.handles.get? n = some h ∨ ∃ f, E.pool.tables.get? h.page.table = some f := by
  rcases handles_unstepped m with ⟨c, rfl⟩ | hsame
  · cases hr : E.ruling c with
    | none =>
        simp only [move, exec, step_eq, hr] at hn
        exact Or.inl hn
    | some r =>
        exact Pool.handles_worked (P := E.pool.setLocks r.2.1) (hs.coherent.setLocks _)
          (worked_step hr) hn
  · exact Or.inl (hsame n h hn)

theorem rooted_move (hr : E.pool.Rooted) {m : Move ρ} (hm : E.Placed m) :
    (E.move m).pool.Rooted := by
  intro n h hn
  have hknown : ∃ f, E.pool.tables.get? h.page.table = some f :=
    (handles_move hs m hn).elim (hr n h) id
  rcases hknown with ⟨f, hf⟩
  exact ⟨f, known_move hm hf⟩

end Sited

theorem Arises.rooted {ok : Engine ρ → Move ρ → Prop} (hok : ∀ E m, ok E m → E.Placed m)
    (h : E.Arises ok) : E.pool.Rooted := by
  induction h with
  | fresh h =>
      intro n hd hn
      rw [h.handles] at hn
      cases hn
  | move h hm ih => exact rooted_move (h.sited hok) ih (hok _ _ hm)

end Engine

end RowStore
