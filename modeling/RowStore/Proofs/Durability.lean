import RowStore.Proofs.Scan

/-!
# What the Disk Holds

The images on disk are those of the pages that were committed, at every moment of a run.

Two rules make it so. What a transaction changed is written out when it commits,
and not before. The first is in the commit; the second is in everything else: no
read, write, eviction, rollback or new page changes what is stored. So the disk can
be told from the commits alone. `Engine.ledger` does so: it starts with what was
stored, and every commit enters what is shown of the pages that its transaction may
write.

The device may refuse transfers at any time. A commit that fails because of this may
have written a part of its pages, so commits are asked to succeed; a transaction that
is rolled back or left alone is not.

Since the disk never holds anything else, a pool may be lost at any moment, and a new one
may take up the files (`RowStore.Proofs.Committed`).

## Main definitions

* `Event.committer?`: The transaction that an event commits.
* `Engine.Forcing`: The events that are admitted: no flush but that of a commit that succeeds.
* `Engine.ledger`: What was committed last of every page.
* `Pool.reopened`: A new pool that takes up the files of another.

## Theorems

* `Engine.stored_exec`: An event changes what is stored as it changes the ledger.
* `Engine.stored_run`: The disk is the ledger after any run.
* `Pool.restful_reopened`: A pool that was taken up anew is at rest.
-/

namespace RowStore

/-- The transaction that an event commits. -/
def Event.committer? : Event → Option TxnId
  | .act (.finish t .commit) | .act (.close t .commit) => some t
  | _ => none

namespace Engine

variable {ρ : Type}

/-- The events that are admitted: calls that keep to known table files, and any action but a flush
    without a commit and a commit that fails. -/
structure Forcing (E : Engine ρ) (ev : Event) : Prop where
  fits : ev.Fits E.pool.tables
  noFlush : ev.isFlush = false
  commits : ∀ t ∈ ev.committer?, (E.pool.finish t .commit).2.isOk = true

instance (E : Engine ρ) (ev : Event) : Decidable (E.Forcing ev) :=
  decidable_of_iff (ev.Fits E.pool.tables ∧ ev.isFlush = false ∧
      ∀ t ∈ ev.committer?, (E.pool.finish t .commit).2.isOk = true)
    ⟨fun h => ⟨h.1, h.2.1, h.2.2⟩, fun h => ⟨h.1, h.2, h.3⟩⟩

/-- Enter what an event commits: what is shown of the pages that its transaction may write. -/
def enter (E : Engine ρ) (L : PageId → Bytes) (ev : Event) : PageId → Bytes :=
  match ev.committer? with
  | none => L
  | some t => fun p => if E.pool.locks.mode? t p = some .exclusive then E.pool.shown p else L p

variable [EvictionOrder ρ]

/-- What was committed last of every page after some events, given what it was before. -/
def ledger (E : Engine ρ) (L : PageId → Bytes) : List Event → PageId → Bytes
  | [] => L
  | ev :: rest => (E.exec ev).1.ledger (E.enter L ev) rest

omit [EvictionOrder ρ] in
/-- A commit that succeeds stores what is shown of the pages that its transaction may write. -/
theorem stored_commit {E : Engine ρ} (hc : E.pool.Coherent) {t : TxnId}
    (hok : (E.pool.finish t .commit).2.isOk = true) (p : PageId) :
    (E.pool.finish t .commit).1.stored p =
      if E.pool.locks.mode? t p = some .exclusive then E.pool.shown p else E.pool.stored p := by
  -- The commit has visited all of its pages, since it succeeded.
  rcases Pool.finish_commit hc t with ⟨Q, visited, hf, _, ⟨heq, hv⟩ | ⟨e, heq⟩⟩
  · rw [heq]
    have hset : (Q.setLocks (E.pool.locks.releaseAll t)).stored = Q.stored :=
      Pool.stored_congr rfl rfl
    simp only [hset, hf.stored, hv, LockTable.mem_exclusivePages]
  · rw [heq] at hok
    cases hok

/-- An event changes what is stored as it changes the ledger. -/
theorem stored_exec {E : Engine ρ} (hs : E.Sane) (hb : E.pool.Bounded) {ev : Event}
    (hev : E.Forcing ev) : (E.exec ev).1.pool.stored = E.enter E.pool.stored ev := by
  have hcommit : ∀ t, (E.pool.finish t .commit).2.isOk = true →
      (E.pool.finish t .commit).1.stored = fun p =>
        if E.pool.locks.mode? t p = some .exclusive then E.pool.shown p else E.pool.stored p :=
    fun t hok => funext (stored_commit hs.coherent hok)
  -- Only a commit enters something, and only a commit writes something out: every other admitted
  -- event leaves both as they are.
  cases ev with
  | submit t task => rfl
  | step c => exact (sane_step hs hb c).2.1
  | act a =>
      have hact := (Pool.act_coherent hs.coherent hb a).2.2
      cases a with
      | finish t e =>
          cases e with
          | commit => exact hcommit t (hev.commits t rfl)
          | rollback => exact hact rfl
      | close t e =>
          cases e with
          | commit =>
              have hok := hev.commits t rfl
              have hclose := Pool.close_of_ok (ok_of_isOk hok)
              simp only [exec, Pool.act, hclose]
              exact hcommit t hok
          | rollback => exact hact rfl
      | flushAll => exact absurd hev.noFlush (by decide)
      | flushTxn t => exact absurd hev.noFlush (by simp [Event.isFlush])
      | _ => exact hact rfl

/-- The disk is the ledger after any run. -/
theorem stored_run {E : Engine ρ} (hs : E.Sane) {evs : List Event} (h : E.Goes Forcing evs) :
    (E.run evs).pool.stored = E.ledger E.pool.stored evs ∧ (E.run evs).Sane ∧
      (E.run evs).pool.tables = E.pool.tables ∧ (E.run evs).pool.Bounded := by
  -- The ledger goes on from what is stored after each event.
  induction evs generalizing E with
  | nil => exact ⟨rfl, hs, rfl, h⟩
  | cons ev rest ih =>
      rcases sane_exec hs h.1 h.2.1.fits with ⟨hs', ht⟩
      rcases ih hs' h.2.2 with ⟨hst, hs'', ht', hb⟩
      refine ⟨?_, hs'', ht'.trans ht, hb⟩
      rw [run, ledger, hst, stored_exec hs h.1 h.2.1]

end Engine

/-! ## Starting again -/

/-- A new pool, with nothing in memory, that takes up the files of another. -/
def Pool.reopened {ρ : Type} (P : Pool ρ) (frames : Nat) : Engine Recency where
  pool := { Pool.ofFrames frames {} P.disk with tables := P.tables }

theorem Pool.restful_reopened {ρ : Type} {P : Pool ρ} (hl : P.Laid) (hb : P.Bounded) {frames : Nat}
    (hpos : 0 < frames) : (P.reopened frames).pool.Restful := by
  have hfresh : (P.reopened frames).Fresh :=
    ⟨hl.congr (Q := (P.reopened frames).pool) rfl rfl, rfl, rfl, rfl, rfl, rfl⟩
  exact
    { coherent := hfresh.sane.coherent
      bounded := hb
      readable := fun _ => rfl
      unused := fun _ => rfl
      clean := fun p => owner?_of_absent (hfresh.page? p)
      roomy := hpos
      tracks := ⟨Recency.tidy_empty, fun _ => ⟨fun _ => rfl, fun _ => rfl⟩⟩ }

theorem TableFile.openFile_eq {f : TableFile} {d : Disk} (hw : f.Whole d) :
    f.pages.openFile d = .ok () := by
  have hpos := f.layout.pageSize_pos
  have hmod : (d.image f.file).size % f.layout.pageSize = 0 := by
    rw [← hw]
    exact Nat.mul_mod_left _ _
  unfold PageFile.openFile
  simp only [pages, hmod]
  rw [if_neg (by omega), if_neg (by omega)]

end RowStore
