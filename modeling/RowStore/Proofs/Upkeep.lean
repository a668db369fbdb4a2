import RowStore.Proofs.Ownership
import RowStore.Proofs.Tracking

/-!
# The Record over a Run

The record of use stays right whatever happens to a pool.

The cache reports to the record every page that comes or leaves, and nothing but the
cache has a page come or leave. Flushing, restoring and writing change copies where
they are. So after any event, one that fails like one that succeeds, the pages on
record are the resident ones, and no event changes how many frames there are.

Nothing is assumed of tables, files or locks.

## Main definitions

* `Cache.Recorded`: A cache with so many frames whose record is right.

## Theorems

* `Pool.recorded_worked`, `Pool.recorded_act`: What is done to a pool keeps the record right.
* `Engine.recorded_exec`: So does every event.
-/

namespace RowStore

namespace Cache

/-- Pages, frames and handles fit together in so many frames, and the pages on record are the
    resident ones. -/
structure Recorded (frames : Nat) (c : Cache Recency) : Prop extends Tidy c, Tracks c where
  capacity : c.capacity = frames

/-- Copies and handles change, but no page comes or leaves. -/
theorem Recorded.congr {frames : Nat} {c c' : Cache Recency} (h : c.Recorded frames)
    (ht : c'.Tidy) (hr : c'.resident = c.resident) (ho : c'.order = c.order)
    (hc : c'.capacity = c.capacity) : c'.Recorded frames where
  toTidy := ht
  tidy := ho ▸ h.tidy
  exact p := by
    rw [ho, hr]
    exact h.exact p
  capacity := hc.trans h.capacity

/-- A page is made to leave. -/
theorem recorded_discard {frames : Nat} {c : Cache Recency} (h : c.Recorded frames) (p : PageId) :
    (c.discard p).Recorded frames where
  toTidy := tidy_discard h.toTidy p
  toTracks := tracks_leave h.toTracks p c.frames
  capacity := h.capacity

theorem capacity_takeIn {ρ : Type} [EvictionOrder ρ] (c : Cache ρ) (image : Page) :
    (c.takeIn image).1.capacity = c.capacity := by
  rcases c.takeIn_cases image with ⟨_, h⟩ | ⟨_, h⟩ | ⟨_, _, _, _, _, _, h⟩
  · rw [h]
  · rw [h]
    rfl
  · rw [h]
    rfl

end Cache

namespace Pool

variable {frames : Nat} {P : Pool Recency}

/-- A page is fetched, or cannot be. -/
theorem recorded_fetch (h : P.cache.Recorded frames) (p : PageId) :
    (P.fetch p).1.cache.Recorded frames where
  toTidy := (fetch_tidy (Q := (P.fetch p).1) (r := (P.fetch p).2) h.toTidy rfl).1
  toTracks := tracks_fetch h.toTracks p
  capacity := by
    unfold fetch
    cases P.cache.resident.get? p with
    | some f => exact h.capacity
    | none =>
        simp only
        cases P.loadImage p with
        | error e => exact h.capacity
        | ok image =>
            have hcap := P.cache.capacity_takeIn image
            simp only
            cases htake : P.cache.takeIn image with
            | mk c r =>
                rw [htake] at hcap
                cases r <;> exact hcap.trans h.capacity

/-- A copy is changed by a handle that is on it. -/
theorem recorded_alter (hr : P.cache.Recorded frames) {h : Handle} (hg : P.Grasps h) {α : Type}
    (work : Bytes → Except StoreError (α × Bytes)) :
    (P.alter h work).1.cache.Recorded frames := by
  -- The copy is marked first, and its bytes are replaced after that.
  have hmarked : (P.marked h).cache.Recorded frames :=
    hr.congr (Cache.tidy_updateFrame hr.toTidy _ fun _ => rfl) rfl rfl rfl
  rcases alter_cases hg work with ⟨e, _, heq⟩ | ⟨_, e, _, heq⟩ | ⟨_, a, bytes, _, heq⟩
  · rw [heq]
    exact hr
  · rw [heq]
    exact hmarked
  · rw [heq]
    exact hmarked.congr (Cache.tidy_updateFrame hmarked.toTidy _ fun _ => rfl) rfl rfl rfl

/-- The work of a call. -/
theorem recorded_worked (h : P.cache.Recorded frames) {t : TxnId} {Q : Pool Recency}
    (hw : Task.Worked t P Q) : Q.cache.Recorded frames := by
  -- A page that was fetched is resident in the frame that was given.
  have hfetch : ∀ {p f R}, P.fetch p = (R, .ok f) →
      R.cache.Recorded frames ∧ R.cache.resident.get? p = some f := by
    intro p f R heq
    have hR := recorded_fetch h p
    rw [heq] at hR
    exact ⟨hR, (fetch_tidy h.toTidy heq).2.2 f rfl⟩
  cases hw with
  | same => exact h
  | grown _ => exact h
  | fetched p => exact recorded_fetch h p
  | @kept p f R access heq =>
      rcases hfetch heq with ⟨hR, hres⟩
      exact hR.congr (Cache.tidy_pin hR.toTidy hres) rfl rfl rfl
  | @altered p f R α work _ heq =>
      rcases hfetch heq with ⟨hR, hres⟩
      exact recorded_alter (h := ⟨p, f, t, .readWrite⟩) hR (hR.framed p f hres) work

/-! ## Endings and other actions -/

theorem Visited.recorded {Q : Pool Recency} {l : List PageId} (hv : Visited P Q l)
    (h : P.cache.Recorded frames) : Q.cache.Recorded frames :=
  h.congr hv.tidy hv.resident hv.order hv.capacity

section ending

variable (h : P.cache.Recorded frames)

include h

/-- An attempt to end a transaction, wherever it stops. -/
theorem recorded_finish (t : TxnId) (e : Ending) : (P.finish t e).1.cache.Recorded frames := by
  rcases finishIn_visited h.toTidy (P.locks.exclusivePages t) t e with
    ⟨Q, _, hv, _, ⟨heq, _⟩ | ⟨cause, heq⟩⟩
  · rw [finish, heq]
    exact hv.recorded h
  · rw [finish, heq]
    exact hv.recorded h

omit h in
theorem recorded_foldl_discard (l : List PageId) {P : Pool Recency}
    (h : P.cache.Recorded frames) : (l.foldl discard P).cache.Recorded frames := by
  induction l generalizing P with
  | nil => exact h
  | cons p rest ih =>
      have hp : (P.discard p).cache.Recorded frames := Cache.recorded_discard h p
      exact ih hp

theorem recorded_abandon (t : TxnId) : (P.abandon t).cache.Recorded frames := by
  have hfin := recorded_finish h t .rollback
  unfold abandon
  cases hres : P.finish t .rollback with
  | mk Q r =>
      rw [hres] at hfin
      cases r with
      | ok _ => exact hfin
      | error cause => exact recorded_foldl_discard _ hfin

theorem recorded_close (t : TxnId) (e : Ending) : (P.close t e).1.cache.Recorded frames := by
  have hfin := recorded_finish h t e
  unfold close
  cases hres : P.finish t e with
  | mk Q r =>
      rw [hres] at hfin
      cases r with
      | ok _ => exact hfin
      | error cause => exact recorded_abandon hfin t

/-- A round of flushes, wherever it stops. -/
theorem recorded_forEach_flush (l : List PageId) :
    (P.forEach flush l).1.cache.Recorded frames := by
  rcases visited_forEach_flush l h.toTidy with ⟨_, hv⟩
  exact hv.recorded h

theorem recorded_act (a : Action) : (P.act a).1.cache.Recorded frames := by
  cases a with
  | write n e =>
      simp only [act, edit]
      cases hn : P.cache.handles.get? n with
      | none => exact h
      | some hd => exact recorded_alter h (h.handled n hd hn) _
  | drop n => exact h.congr (Cache.tidy_unpin h.toTidy n) rfl rfl rfl
  | finish t e => exact recorded_finish h t e
  | close t e => exact recorded_close h t e
  | abandon t => exact recorded_abandon h t
  | grow t =>
      simp only [act, grow]
      split
      · exact h
      · split <;> exact h
  | flushAll => exact recorded_forEach_flush h _
  | flushTxn t => exact recorded_forEach_flush h _
  | discard p => exact Cache.recorded_discard h p
  | _ => exact h

end ending

end Pool

namespace Engine

/-- Every event keeps the record right. -/
theorem recorded_exec {frames : Nat} {E : Engine Recency} (h : E.pool.cache.Recorded frames)
    (ev : Event) : (E.exec ev).1.pool.cache.Recorded frames := by
  cases ev with
  | submit t task => exact h
  | step c =>
      simp only [exec]
      cases hrule : E.ruling c with
      | none =>
          rw [step_eq, hrule]
          exact h
      | some r =>
          rcases r with ⟨call, locks, v⟩
          have hset : (E.pool.setLocks locks).cache.Recorded frames := h
          exact Pool.recorded_worked hset (worked_step hrule)
  | act a => exact Pool.recorded_act h a

/-- So does a run. -/
theorem recorded_run {frames : Nat} {E : Engine Recency} (h : E.pool.cache.Recorded frames)
    (evs : List Event) : (E.run evs).pool.cache.Recorded frames := by
  induction evs generalizing E with
  | nil => exact h
  | cons ev rest ih => exact ih (recorded_exec h ev)

/-- A new pool has nothing on record. -/
theorem Fresh.recorded {E : Engine Recency} (h : E.Fresh) (ho : E.pool.cache.order = {}) :
    E.pool.cache.Recorded E.pool.cache.capacity where
  toTidy := h.sane.coherent.tidy
  tidy := ho ▸ Recency.tidy_empty
  exact p := by
    rw [ho, h.resident]
    exact ⟨fun _ => rfl, fun _ => rfl⟩
  capacity := rfl

end Engine

end RowStore
