import RowStore.Proofs.Requests

/-!
# Who Owns a Dirty Copy

A copy that is dirty belongs to the transaction that changed it last. As long as no lock
is given back early and no overtaken call is resumed, that transaction holds the page to
write.

An ending visits the pages that its transaction holds to write and no others. So if a
copy could be dirty whose owner does not hold its page to write, no ending would ever
write it out or bring it back. That it cannot is said here of every state, with nothing
assumed of the tables and their files: they may be replaced or changed by others, and
flushing and restoring may fail at any page for any reason.

Three things make a copy dirty, and each asks for the lock first. Two make it clean
again. Locks are given back only by an ending that has cleaned all the pages, or that
has made the pages leave which it could not clean.

## Main definitions

* `Pool.Owned`: Who owns a dirty copy holds its page to write.
* `Engine.Kept`: Besides, calls and locks go together and the accounts of the locks agree.

## Theorems

* `Pool.owned_worked`, `Pool.owned_finishIn`, `Pool.owned_act`: What keeps a pool owned.
* `Engine.kept_exec`: What is kept by every event that weakens no lock and gives none back early.
-/

namespace RowStore

/-- Whether an action gives no lock back before its transaction ends. -/
def Action.keepsLocks : Action → Bool
  | .releasePage _ _ | .releaseLocks _ => false
  | _ => true

/-- Whether an event gives no lock back before its transaction ends. -/
def Event.keepsLocks : Event → Bool
  | .act a => a.keepsLocks
  | .submit _ _ | .step _ => true

namespace Pool

variable {ρ : Type}

/-- Frames and copies fit together, and whoever owns a dirty copy holds its page to write. -/
structure Owned (P : Pool ρ) : Prop where
  tidy : P.cache.Tidy
  held : ∀ p t, P.owner? p = some t → P.locks.mode? t p = some .exclusive

/-- Copies may become clean or leave, and one that has a new owner is of a page which the owner
    holds to write. -/
theorem Owned.of_owner {P Q : Pool ρ} (ho : P.Owned) (ht : Q.cache.Tidy) (hl : Q.locks = P.locks)
    (h : ∀ p t, Q.owner? p = some t →
      P.owner? p = some t ∨ P.locks.mode? t p = some .exclusive) : Q.Owned where
  tidy := ht
  held p t hp := by
    rw [hl]
    exact (h p t hp).elim (ho.held p t) id

/-- Where copies are and who holds what is all that ownership is about. -/
theorem Owned.congr {P Q : Pool ρ} (ho : P.Owned) (hc : Q.cache = P.cache)
    (hl : Q.locks = P.locks) : Q.Owned :=
  ho.of_owner (hc ▸ ho.tidy) hl fun p t hp => by
    rw [owner?_congr (P := P) (by rw [hc])] at hp
    exact Or.inl hp

/-- A transaction is granted more. -/
theorem Owned.setLocks {P : Pool ρ} (ho : P.Owned) {t : TxnId} {locks : LockTable}
    (hg : P.locks.Grows t locks) : (P.setLocks locks).Owned where
  tidy := ho.tidy
  held p u hp := hg.keeps (ho.held p u hp)

/-! ## Fetching and changing -/

section fetch

variable [EvictionOrder ρ] {P Q : Pool ρ} {p : PageId}

/-- Fetching a page makes no copy dirty, and a page that was fetched is resident in the frame that
    was given. -/
theorem fetch_tidy (ht : P.cache.Tidy) {r : Except StoreError FrameNo} (h : P.fetch p = (Q, r)) :
    Q.cache.Tidy ∧ (∀ q t, Q.owner? q = some t → P.owner? q = some t) ∧
      ∀ f, r = .ok f → Q.cache.resident.get? p = some f := by
  -- A loaded copy is clean, and its page was not resident.
  have hhoused : ∀ {c : Cache ρ} (image : Page) (order : ρ), c.Tidy → image.dirtiedBy = none →
      ∀ q t, ((c.housed image order).page? q).bind Page.dirtiedBy = some t →
        (c.page? q).bind Page.dirtiedBy = some t := by
    intro c image order hc hclean q t hq
    rw [Cache.page?_housed hc] at hq
    split at hq
    · rw [Option.bind_some, hclean] at hq
      cases hq
    · exact hq
  unfold fetch at h
  cases hr : P.cache.resident.get? p with
  | some f =>
      rw [hr] at h
      cases h
      exact ⟨Cache.tidy_order ht _, fun _ _ => id, fun f' hf => by cases hf; exact hr⟩
  | none =>
      rw [hr] at h
      simp only at h
      cases hl : P.loadImage p with
      | error e =>
          rw [hl] at h
          cases h
          exact ⟨ht, fun _ _ => id, fun f hf => by cases hf⟩
      | ok image =>
          rw [hl] at h
          rcases loadImage_eq_ok hl with ⟨rfl, _, _⟩
          simp only at h
          rcases P.cache.takeIn_cases ⟨p, P.stored p, none⟩ with
            ⟨order, htake⟩ | ⟨order, htake⟩ | ⟨q, f, order, order', hq, he, htake⟩
          · rw [htake] at h
            cases h
            exact ⟨Cache.tidy_order ht _, fun _ _ => id, fun f hf => by cases hf⟩
          · rw [htake] at h
            cases h
            refine ⟨Cache.tidy_housed ht _ _, hhoused _ order ht rfl, fun f hf => ?_⟩
            cases hf
            exact Assoc.get?_insert_self _ _ _
          · rw [htake] at h
            cases h
            have hvac := Cache.tidy_vacated ht hq order he
            refine ⟨Cache.tidy_housed hvac _ _, fun s t hs => ?_, fun f hf => ?_⟩
            · have hs' := hhoused _ order' hvac rfl s t hs
              rw [Cache.page?_vacated ht hq] at hs'
              split at hs'
              · cases hs'
              · exact hs'
            · cases hf
              exact Assoc.get?_insert_self _ _ _

theorem owned_fetch (ho : P.Owned) {r : Except StoreError FrameNo} (h : P.fetch p = (Q, r)) :
    Q.Owned := by
  rcases fetch_tidy ho.tidy h with ⟨ht, howner, _⟩
  have hl : (P.fetch p).1.locks = P.locks := by
    rcases Task.fetch_apart P p with ⟨c, hc⟩
    rw [hc]
  rw [h] at hl
  exact ho.of_owner ht hl fun q t hq => Or.inl (howner q t hq)

end fetch

/-- Writing by a handle on a copy of its page makes the handle's transaction the owner, if the page
    is resident there, and only if the transaction holds it to write. -/
theorem owned_alter {P : Pool ρ} (ho : P.Owned) {h : Handle} (hg : P.Grasps h) {α : Type}
    (work : Bytes → Except StoreError (α × Bytes)) : (P.alter h work).1.Owned := by
  have hmarked : P.checkWrite h = .ok () → (P.marked h).Owned := by
    intro hw
    refine ho.of_owner (Cache.tidy_updateFrame ho.tidy _ fun _ => rfl) rfl fun p t hp => ?_
    rw [owner?_marked hg ho.tidy] at hp
    split at hp
    · rename_i hpr
      cases hp
      rw [hpr.1]
      exact Or.inr (mode?_of_checkWrite hw)
    · exact Or.inl hp
  rcases alter_cases hg work with ⟨e, _, heq⟩ | ⟨hw, e, _, heq⟩ | ⟨hw, a, bytes, _, heq⟩
  · rw [heq]
    exact ho
  · rw [heq]
    exact hmarked hw
  · rw [heq]
    -- The mark is set before the bytes are, and these change no mark.
    have hm := hmarked hw
    refine hm.of_owner (Cache.tidy_updateFrame hm.tidy _ fun _ => rfl) rfl fun p t hp => ?_
    rw [written, owner?_setBytes (grasps_marked hg) hm.tidy] at hp
    exact Or.inl hp

/-- The work of a call keeps a pool owned. -/
theorem owned_worked [EvictionOrder ρ] {P Q : Pool ρ} {t : TxnId} (ho : P.Owned)
    (h : Task.Worked t P Q) : Q.Owned := by
  cases h with
  | same => exact ho
  | grown h => exact ho.congr rfl rfl
  | fetched p => exact owned_fetch ho rfl
  | @kept p f R access h =>
      have hR := owned_fetch ho h
      exact hR.of_owner (Cache.tidy_pin hR.tidy ((fetch_tidy ho.tidy h).2.2 f rfl)) rfl
        fun _ _ => Or.inl
  | @altered p f R α work hsize h =>
      have hR := owned_fetch ho h
      exact owned_alter (h := ⟨p, f, t, .readWrite⟩) hR
        (hR.tidy.framed p f ((fetch_tidy ho.tidy h).2.2 f rfl)) work

/-! ## Endings -/

theorem Cleaned.owned {P Q : Pool ρ} {l : List PageId} (h : Cleaned P Q l) (ho : P.Owned) :
    Q.Owned :=
  ho.of_owner h.tidy h.locks fun q t hq => by
    rw [h.owner] at hq
    split at hq
    · cases hq
    · exact Or.inl hq

section ending

variable {P : Pool ρ} (ho : P.Owned) {t : TxnId}

include ho

/-- A transaction gives its locks back after all the pages were cleaned that it holds to write. -/
theorem Cleaned.owned_releaseAll {Q : Pool ρ} {l : List PageId} (h : Cleaned P Q l)
    (hall : ∀ p ∈ P.locks.exclusivePages t, p ∈ l) :
    (Q.setLocks (P.locks.releaseAll t)).Owned where
  tidy := h.tidy
  held p u hp := by
    have hp' : Q.owner? p = some u := hp
    rw [h.owner] at hp'
    split at hp'
    · cases hp'
    · rename_i hmem
      have hx := ho.held p u hp'
      -- A copy that is left dirty is of a page that the transaction does not hold to write.
      have hu : u ≠ t := by
        rintro rfl
        exact hmem (hall p ((LockTable.mem_exclusivePages _ _ _).2 hx))
      simp only [setLocks, LockTable.mode?_releaseAll, if_neg hu]
      exact hx

/-- An attempt to end a transaction keeps a pool owned, in whichever order it visits the pages and
    wherever it stops. -/
theorem owned_finishIn {order : List PageId} (hall : ∀ p ∈ P.locks.exclusivePages t, p ∈ order)
    (e : Ending) : (P.finishIn order t e).1.Owned := by
  rcases finishIn_visited ho.tidy order t e with ⟨Q, visited, hv, _, ⟨heq, rfl⟩ | ⟨cause, heq⟩⟩
  · rw [heq]
    exact hv.toCleaned.owned_releaseAll ho hall
  · rw [heq]
    exact hv.toCleaned.owned ho

variable [EvictionOrder ρ]

theorem owned_giveUp : (P.giveUp t).Owned := by
  rcases giveUp_cleaned ho.tidy t with ⟨Q, hc, heq⟩
  rw [heq]
  exact hc.owned_releaseAll ho fun _ => id

/-- Every action but an early release keeps a pool owned. -/
theorem owned_act {a : Action} (ha : a.keepsLocks = true) : (P.act a).1.Owned := by
  have hround : ∀ l, (P.forEach flush l).1.Owned := by
    intro l
    rcases visited_forEach_flush l ho.tidy with ⟨_, hv⟩
    exact hv.toCleaned.owned ho
  cases a with
  | begin => exact ho.congr rfl rfl
  | read n => exact ho
  | write n e =>
      simp only [act, edit]
      cases hn : P.cache.handles.get? n with
      | none => exact ho
      | some h => exact owned_alter ho (ho.tidy.handled n h hn) _
  | drop n => exact ho.of_owner (Cache.tidy_unpin ho.tidy n) rfl fun _ _ => Or.inl
  | finish t e => exact owned_finishIn ho (fun _ => id) e
  | close t e =>
      rcases close_cleaned ho.tidy t e with ⟨Q, l, hc, hall, heq⟩
      simp only [act, heq]
      exact hc.owned_releaseAll ho hall
  | abandon t =>
      rcases abandon_cleaned ho.tidy t with ⟨Q, l, hc, hall, heq⟩
      simp only [act, heq]
      exact hc.owned_releaseAll ho hall
  | grow t =>
      simp only [act, grow]
      split
      · exact ho
      · split
        · exact ho
        · exact ho.congr rfl rfl
  | flushAll => exact hround _
  | flushTxn t => exact hround _
  | discard p => exact (cleaned_discard ho.tidy p).owned ho
  | device faults => exact ho.congr rfl rfl
  | _ => cases ha

end ending

end Pool

/-! ## Events -/

namespace Engine

variable {ρ : Type}

/-- Every call that waits is in progress, the two accounts of the lock table agree, and whoever owns
    a dirty copy holds its page to write. -/
structure Kept (E : Engine ρ) : Prop extends Listed E where
  agreed : E.pool.locks.Agreed
  owned : E.pool.Owned

theorem Fresh.pool_owned {E : Engine ρ} (h : E.Fresh) : E.pool.Owned where
  tidy := h.sane.coherent.tidy
  held p t hp := by
    rw [Pool.owner?_of_absent (h.page? p)] at hp
    cases hp

theorem Fresh.kept {E : Engine ρ} (h : E.Fresh) : E.Kept where
  toListed := h.listed
  agreed := h.locks ▸ LockTable.agreed_empty
  owned := h.pool_owned

section Kept

variable {E : Engine ρ} (hk : E.Kept)

include hk

/-- The pool goes on by itself: it leaves the locks alone, or gives some back. -/
theorem kept_pool {P : Pool ρ} (ho : P.Owned) (hl : P.locks = E.pool.locks ∨
    (∃ t, P.locks = E.pool.locks.releaseAll t) ∨ ∃ t p, P.locks = E.pool.locks.release t p) :
    Kept { E with pool := P } where
  toListed := listed_pool hk.toListed hl
  agreed := by
    rcases hl with hl | ⟨t, hl⟩ | ⟨t, p, hl⟩
    · exact hl ▸ hk.agreed
    · exact hl ▸ LockTable.agreed_releaseAll hk.agreed t
    · exact hl ▸ LockTable.agreed_release hk.agreed t p
  owned := ho

variable [EvictionOrder ρ]

/-- A step of a call that was not overtaken may give its transaction a lock, and then does its
    work. -/
theorem kept_step {c : CallNo} (hfirm : E.Firm (.step c)) : (E.step c).1.Kept := by
  cases hr : E.ruling c with
  | none =>
      rw [step_eq, hr]
      exact hk
  | some r =>
      rcases r with ⟨call, locks, v⟩
      refine ⟨listed_step hk.toListed c, ?_, ?_⟩
      · rw [(step_ruled hr).1]
        exact agreed_ruling hr hk.toListed hk.agreed hfirm
      · have hgrant := hk.owned.setLocks (grows_ruling hr hk.toListed hk.agreed.backed hfirm)
        exact Pool.owned_worked hgrant (worked_step hr)

/-- All this is kept by every event that gives no lock back early and resumes no overtaken call. -/
theorem kept_exec {ev : Event} (hkeep : ev.keepsLocks = true) (hfirm : E.Firm ev) :
    (E.exec ev).1.Kept := by
  cases ev with
  | submit t task => exact ⟨listed_submit hk.toListed t task, hk.agreed, hk.owned⟩
  | step c => exact kept_step hk hfirm
  | act a => exact kept_pool hk (Pool.owned_act hk.owned hkeep) (Pool.act_locks hk.owned.tidy a)

end Kept

end Engine

end RowStore
