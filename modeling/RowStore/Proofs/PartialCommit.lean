import RowStore.Proofs.Ownership
import RowStore.Recency

/-!
# What a Failed Commit Leaves

A commit writes the pages of its transaction one by one, and stops at the first that
the device refuses. What it has written by then is on disk, and a rollback brings
copies back to what is on disk. So the rollback that follows restores the pages that
the commit did not come to, and confirms the others.

To say this, one has to know what a rollback should bring back: what was shown of a
page when the transaction came to hold it to write. `Engine.found` tells it from the
run. As long as the transaction holds the page and has not tried to commit, this is
what is on disk. For the page was clean when its lock was granted, and nobody else's
ending or flush visits it after that.

Of what others do only an early release is ruled out, and that an overtaken call is
resumed (`RowStore.Proofs.Requests`). They may commit or fail to, flush what they changed
and discard any page.

## Main definitions

* `Pool.retreat`: A transaction that tried to commit is rolled back.
* `Event.forces`: An event may write out what a transaction has changed.
* `Engine.Untried`: The events that are admitted: the transaction does not try to commit.
* `Engine.found`: What a transaction found on the pages that it holds to write.

## Theorems

* `Engine.intact_exec`: What a transaction found stays on disk.
* `Engine.failed_commit_is_half_undone`: What a commit that failed and a rollback leave.
* `Engine.failed_commit_not_undone`: It is not always what the transaction found.
-/

namespace RowStore

/-- Whether an event may write out what the transaction has changed. -/
def Event.forces (t : TxnId) : Event → Bool
  | .act (.finish u .commit) | .act (.close u .commit) | .act (.flushTxn u) => u = t
  | .act .flushAll => true
  | _ => false

namespace Pool

variable {ρ : Type}

/-- A transaction tries to commit, and then is rolled back. The pages are visited in one order and
    in another, and the device may refuse other transfers the second time. -/
def retreat (P : Pool ρ) (order order' : List PageId) (t : TxnId) (faults : Faults) :
    Pool ρ × Except StoreError Unit :=
  finishIn { (P.finishIn order t .commit).1 with faults } order' t .rollback

/-- A round of flushes writes only what is shown of pages on its list. -/
theorem stored_forEach_flush {P : Pool ρ} (hc : P.Coherent) (l : List PageId) {p : PageId}
    (hp : p ∉ l) : (P.forEach flush l).1.stored p = P.stored p := by
  rcases forEach_flush l hc with ⟨Q, visited, hf, hpre, ⟨heq, _⟩ | ⟨e, heq⟩⟩
  · rw [heq, hf.stored, if_neg fun hm => hp (hpre.subset hm)]
  · rw [heq, hf.stored, if_neg fun hm => hp (hpre.subset hm)]

/-- An ending, wherever it stops, changes only images of pages that it visits. -/
theorem stored_finishIn {P : Pool ρ} (hc : P.Coherent) {order : List PageId} (t : TxnId)
    (e : Ending) {p : PageId} (hp : p ∉ order) :
    (P.finishIn order t e).1.stored p = P.stored p := by
  cases e with
  | commit =>
      rcases finishIn_commit hc order t with ⟨Q, visited, hf, hpre, hres⟩
      have hst : Q.stored p = P.stored p := by
        rw [hf.stored, if_neg fun hm => hp (hpre.subset hm)]
      rcases hres with ⟨heq, _⟩ | ⟨e, heq⟩
      · rw [heq]
        exact hst
      · rw [heq]
        exact hst
  | rollback => rw [(finishIn_coherent hc order t .rollback).2.2 rfl]

/-- So an ending changes only images of pages that its transaction holds to write. -/
theorem stored_finish {P : Pool ρ} (hc : P.Coherent) (t : TxnId) (e : Ending) {p : PageId}
    (hp : P.locks.mode? t p ≠ some .exclusive) : (P.finish t e).1.stored p = P.stored p :=
  stored_finishIn hc t e fun hm => hp ((LockTable.mem_exclusivePages _ _ _).1 hm)

/-- A commit that fails has stopped at a dirty page which the device refuses, and has flushed the
    pages before. -/
theorem finishIn_commit_error {P Q : Pool ρ} (hc : P.Coherent) {order : List PageId} {t : TxnId}
    {cause : StoreError} (h : P.finishIn order t .commit = (Q, .error cause)) :
    ∃ done q rest, order = done ++ q :: rest ∧ Flushed P Q done ∧ q ∉ done ∧
      P.owner? q ≠ none ∧ P.faults.onWrite q ≠ none := by
  have hround : P.forEach flush order = (Q, .error cause) := by
    unfold finishIn at h
    have hact : (fun (Q : Pool ρ) p => Q.settle .commit p) = flush := rfl
    rw [hact] at h
    split at h
    · cases h
    · rename_i heq
      cases h
      exact heq
  rcases forEach_error order hround with ⟨done, q, rest, rfl, hdone, hq⟩
  refine ⟨done, q, rest, rfl, ?_⟩
  -- The round over the pages before has succeeded, so it has flushed all of them.
  rcases forEach_flush done hc with ⟨R, visited, hf, _, ⟨heq, rfl⟩ | ⟨e, heq⟩⟩
  · cases hdone.symm.trans heq
    rcases flush_cases hf.coherent q with ⟨_, hok, _⟩ | ⟨fault, herr, hown, hfault⟩
    · cases hok.symm.trans hq
    · cases herr.symm.trans hq
      -- What the commit has flushed is clean, and the page is not.
      have hnot : q ∉ visited := fun hm => hown ((hf.owner q).trans (if_pos hm))
      rw [hf.faults] at hfault
      rw [hf.owner, if_neg hnot] at hown
      refine ⟨hf, hnot, hown, ?_⟩
      rw [hfault]
      exact Option.some_ne_none _
  · cases hdone.symm.trans heq

/-- A rollback after a commit that fails brings back what the commit has left on disk: of the pages
    before the one that was refused what was shown of them, and of the others what was there. -/
theorem retreat_spec {P : Pool ρ} (hc : P.Coherent) {order order' : List PageId} {t : TxnId}
    {faults : Faults} (hcommit : (P.finishIn order t .commit).2.isOk = false)
    (hrollback : (P.retreat order order' t faults).2.isOk = true) :
    ∃ done q rest, order = done ++ q :: rest ∧ q ∉ done ∧ P.owner? q ≠ none ∧
      P.faults.onWrite q ≠ none ∧
      (∀ p, (P.retreat order order' t faults).1.stored p =
        if p ∈ done then P.shown p else P.stored p) ∧
      ∀ p ∈ order', (P.retreat order order' t faults).1.shown p =
          (P.retreat order order' t faults).1.stored p ∧
        (P.retreat order order' t faults).1.owner? p = none := by
  unfold retreat at hrollback ⊢
  cases hres : P.finishIn order t .commit with
  | mk Q r =>
      rw [hres] at hcommit hrollback
      cases r with
      | ok u => cases hcommit
      | error cause =>
          rcases finishIn_commit_error hc hres with ⟨done, q, rest, heq, hf, hnot, hown, hfault⟩
          refine ⟨done, q, rest, heq, hnot, hown, hfault, ?_⟩
          have hQ : Coherent { Q with faults } := hf.coherent.congr rfl rfl rfl
          rcases finishIn_rollback hQ order' t with
            ⟨R, visited, ⟨hr, _⟩, _, ⟨hend, rfl⟩ | ⟨e, hend⟩⟩
          · have hst : R.stored = Q.stored := hr.stored
            simp only [hend]
            refine ⟨fun p => (congrFun hst p).trans (hf.stored p), fun p hp => ⟨?_, ?_⟩⟩
            · exact ((hr.shown p).trans (if_pos hp)).trans (congrFun hst p).symm
            · exact (hr.owner p).trans (if_pos hp)
          · rw [hend] at hrollback
            cases hrollback

/-- So does an ending for good: what it does when it fails changes no image. -/
theorem stored_close [EvictionOrder ρ] {P : Pool ρ} (hc : P.Coherent) (t : TxnId) (e : Ending)
    {p : PageId} (hp : P.locks.mode? t p ≠ some .exclusive) :
    (P.close t e).1.stored p = P.stored p := by
  have hfin := stored_finish hc t e hp
  have hcoh := (finish_coherent hc t e).1
  unfold close
  cases hres : P.finish t e with
  | mk Q r =>
      rw [hres] at hfin hcoh
      cases r with
      | ok u => exact hfin
      | error cause => exact (congrFun (abandon_coherent hcoh t).2.2 p).trans hfin

/-- The image of a page changes only if it is forced: of a page that nobody but one transaction may
    hold to write, only by what may write out the changes of this transaction. -/
theorem stored_act [EvictionOrder ρ] {P : Pool ρ} (hc : P.Coherent) (hb : P.Bounded)
    (ho : P.Owned) {t : TxnId} {a : Action} (ha : (Event.act a).forces t = false) {p : PageId}
    (hother : ∀ u, u ≠ t → P.locks.mode? u p ≠ some .exclusive) :
    (P.act a).1.stored p = P.stored p := by
  have hact := (act_coherent hc hb a).2.2
  cases a with
  | finish u e =>
      cases e with
      | commit => exact stored_finish hc u .commit (hother u (of_decide_eq_false ha))
      | rollback => rw [hact rfl]
  | close u e =>
      cases e with
      | commit => exact stored_close hc u .commit (hother u (of_decide_eq_false ha))
      | rollback => rw [hact rfl]
  | flushTxn u =>
      refine stored_forEach_flush hc _ fun hm => ?_
      rcases List.mem_filter.1 hm with ⟨_, hown⟩
      rcases (Option.any_eq_true _ _).1 hown with ⟨page, hpage, hu⟩
      exact hother u (of_decide_eq_false ha)
        (ho.held p u ((owner?_of_page hpage).trans (of_decide_eq_true hu)))
  | flushAll => cases ha
  | _ => rw [hact rfl]

end Pool

namespace Engine

variable {ρ : Type} [EvictionOrder ρ]

/-- The events that are admitted: no lock is given back early, no overtaken call is resumed, and
    what the transaction has changed is not forced out. -/
structure Untried (t : TxnId) (E : Engine ρ) (ev : Event) : Prop where
  fits : ev.Fits E.pool.tables
  keeps : ev.keepsLocks = true
  firm : E.Firm ev
  unforced : ev.forces t = false

instance (t : TxnId) (E : Engine ρ) (ev : Event) : Decidable (E.Untried t ev) :=
  decidable_of_iff (ev.Fits E.pool.tables ∧ ev.keepsLocks = true ∧ E.Firm ev ∧
      ev.forces t = false)
    ⟨fun h => ⟨h.1, h.2.1, h.2.2.1, h.2.2.2⟩, fun h => ⟨h.1, h.2, h.3, h.4⟩⟩

/-- What a transaction found on the pages that it holds to write: what was shown of each when it
    came to hold it. -/
def found (E : Engine ρ) (t : TxnId) (F : PageId → Bytes) : List Event → PageId → Bytes
  | [] => F
  | ev :: rest => (E.exec ev).1.found t
      (fun p => if E.pool.locks.mode? t p = some .exclusive then F p else E.pool.shown p) rest

/-- Pages and calls are as they should be, and on disk is what the transaction found. -/
structure Intact (t : TxnId) (F : PageId → Bytes) (E : Engine ρ) : Prop where
  sane : E.Sane
  kept : E.Kept
  stored : ∀ p, E.pool.locks.mode? t p = some .exclusive → E.pool.stored p = F p

omit [EvictionOrder ρ] in
theorem Fresh.intact {E : Engine ρ} (h : E.Fresh) (t : TxnId) (F : PageId → Bytes) :
    E.Intact t F where
  sane := h.sane
  kept := h.kept
  stored p hp := by
    rw [h.locks] at hp
    cases hp

/-- A step of a call that was not overtaken takes no page from a transaction that holds it to
    write. -/
theorem exclusive_step {E : Engine ρ} (hk : E.Kept) {c : CallNo} (hfirm : E.Firm (.step c))
    {u : TxnId} {p : PageId} (hx : E.pool.locks.mode? u p = some .exclusive) :
    (E.step c).1.pool.locks.mode? u p = some .exclusive := by
  cases hr : E.ruling c with
  | none =>
      rw [step_eq, hr]
      exact hx
  | some r =>
      rcases r with ⟨call, locks, v⟩
      rw [(step_ruled hr).1]
      exact (grows_ruling hr hk.toListed hk.agreed.backed hfirm).keeps hx

section Intact

variable {E : Engine ρ} {t : TxnId} {F : PageId → Bytes} (hi : E.Intact t F)

include hi

/-- What a transaction found stays on disk, and what it comes to hold is on disk as it is shown. -/
theorem intact_exec (hb : E.pool.Bounded) {ev : Event} (hev : E.Untried t ev) :
    (E.exec ev).1.Intact t fun p =>
      if E.pool.locks.mode? t p = some .exclusive then F p else E.pool.shown p where
  sane := (sane_exec hi.sane hb hev.fits).1
  kept := kept_exec hi.kept hev.keeps hev.firm
  stored p hp := by
    have hstays : ∀ E' : Engine ρ, E.pool.locks.mode? t p = some .exclusive →
        E'.pool.stored p = E.pool.stored p → E'.pool.stored p =
          if E.pool.locks.mode? t p = some .exclusive then F p else E.pool.shown p := by
      intro E' hold hst
      rw [hst, if_pos hold, hi.stored p hold]
    cases ev with
    | submit u task => exact hstays _ hp rfl
    | act a =>
        -- An action grants nothing, so the transaction held the page before.
        have hold : E.pool.locks.mode? t p = some .exclusive := by
          have hp' : (E.pool.act a).1.locks.mode? t p = some .exclusive := hp
          rcases Pool.act_locks hi.sane.coherent.tidy a with hl | ⟨u, hl⟩ | ⟨u, q, hl⟩
          · rwa [hl] at hp'
          · rw [hl, LockTable.mode?_releaseAll] at hp'
            split at hp'
            · cases hp'
            · exact hp'
          · rw [hl, LockTable.mode?_release] at hp'
            split at hp'
            · cases hp'
            · exact hp'
        refine hstays _ hold (Pool.stored_act hi.sane.coherent hb hi.kept.owned hev.unforced
          fun u hu hx => hu (hi.kept.agreed.eq_of_exclusive hold ?_))
        -- Another transaction does not hold the page to write.
        rw [hx]
        exact Option.some_ne_none _
    | step c =>
        have hst : (E.step c).1.pool.stored p = E.pool.stored p :=
          congrFun (sane_step hi.sane hb c).2.1 p
        by_cases hold : E.pool.locks.mode? t p = some .exclusive
        · exact hstays _ hold hst
        · -- Who owned a dirty copy would still hold the page, which has another holder now.
          have hclean : E.pool.owner? p = none := by
            cases ho : E.pool.owner? p with
            | none => rfl
            | some u =>
                have hx := hi.kept.owned.held p u ho
                have hx' := exclusive_step hi.kept hev.firm hx
                have hheld : (E.step c).1.pool.locks.mode? t p ≠ none := by
                  rw [show (E.step c).1.pool.locks.mode? t p = some .exclusive from hp]
                  exact Option.some_ne_none _
                have hu : t = u :=
                  (kept_step hi.kept hev.firm).agreed.eq_of_exclusive hx' hheld
                exact absurd (hu ▸ hx) hold
          show (E.step c).1.pool.stored p = _
          rw [hst, if_neg hold, hi.sane.coherent.shown_clean hclean]

end Intact

/-- On disk is what a transaction found, as long as it has not tried to commit. -/
theorem intact_run {E : Engine ρ} {t : TxnId} {F : PageId → Bytes} (hi : E.Intact t F)
    {evs : List Event} (h : E.Goes (Untried t) evs) :
    (E.run evs).Intact t (E.found t F evs) := by
  induction evs generalizing E F with
  | nil => exact hi
  | cons ev rest ih => exact ih (intact_exec hi h.1 h.2.1) h.2.2

/-- If a transaction fails to commit and is rolled back then, its commit has stopped at a page with
    changes that the device refused. What was shown of the pages that it had visited by then is
    committed. All other pages that the transaction held to write are, on disk and in memory, as it
    found them. This is so in whichever order the pages are visited, and whatever the device refuses
    the second time, if no lock was given back early, no overtaken call was resumed and the changes
    of the transaction were not forced out. -/
theorem failed_commit_is_half_undone {E : Engine ρ} (hf : E.Fresh) {t : TxnId} {evs : List Event}
    (h : E.Goes (Untried t) evs) (order order' : List PageId) (faults : Faults)
    (hall : ∀ p ∈ (E.run evs).pool.locks.exclusivePages t, p ∈ order')
    (hcommit : ((E.run evs).pool.finishIn order t .commit).2.isOk = false)
    (hrollback : ((E.run evs).pool.retreat order order' t faults).2.isOk = true) :
    ∃ done q rest, order = done ++ q :: rest ∧ q ∉ done ∧ (E.run evs).pool.owner? q ≠ none ∧
      (E.run evs).pool.faults.onWrite q ≠ none ∧
      ∀ p ∈ (E.run evs).pool.locks.exclusivePages t,
        ((E.run evs).pool.retreat order order' t faults).1.stored p =
          (if p ∈ done then (E.run evs).pool.shown p else E.found t E.pool.shown evs p) ∧
        ((E.run evs).pool.retreat order order' t faults).1.shown p =
          ((E.run evs).pool.retreat order order' t faults).1.stored p ∧
        ((E.run evs).pool.retreat order order' t faults).1.owner? p = none := by
  have hi := intact_run (hf.intact t E.pool.shown) h
  rcases Pool.retreat_spec hi.sane.coherent hcommit hrollback with
    ⟨done, q, rest, heq, hnot, hown, hfault, hst, hsame⟩
  refine ⟨done, q, rest, heq, hnot, hown, hfault, fun p hp => ⟨?_, hsame p (hall p hp)⟩⟩
  rw [hst, hi.stored p ((LockTable.mem_exclusivePages _ _ _).1 hp)]

/-- A transaction writes two pages, of which the device does not let one be written out. -/
def oneRefused : List Event :=
  [.submit ⟨1⟩ (.fetch ⟨⟨1⟩, 0⟩ .readWrite true), .step ⟨0⟩, .act (.write ⟨0⟩ (.fill 5)),
    .submit ⟨1⟩ (.fetch ⟨⟨1⟩, 1⟩ .readWrite true), .step ⟨1⟩, .act (.write ⟨1⟩ (.fill 7)),
    .act (.device ⟨fun _ => none, fun p => if p.number = 1 then some .notFound else none⟩)]

/-- The commit stops at the second page, so what is brought back of that page is what was there. -/
theorem failed_commit_is_half_undone_oneRefused :
    (((tiny 2 ({} : Recency)).run oneRefused).pool.retreat [⟨⟨1⟩, 0⟩, ⟨⟨1⟩, 1⟩]
      [⟨⟨1⟩, 1⟩, ⟨⟨1⟩, 0⟩] ⟨1⟩ {}).1.stored ⟨⟨1⟩, 0⟩ = #[5, 5] ∧
    (((tiny 2 ({} : Recency)).run oneRefused).pool.retreat [⟨⟨1⟩, 0⟩, ⟨⟨1⟩, 1⟩]
      [⟨⟨1⟩, 1⟩, ⟨⟨1⟩, 0⟩] ⟨1⟩ {}).1.stored ⟨⟨1⟩, 1⟩ =
        (tiny 2 ({} : Recency)).found ⟨1⟩ (tiny 2 ({} : Recency)).pool.shown oneRefused
          ⟨⟨1⟩, 1⟩ := by
  have hgoes : (tiny 2 ({} : Recency)).Goes (Untried ⟨1⟩) oneRefused := by decide +kernel
  have hall : ∀ p ∈ ((tiny 2 ({} : Recency)).run oneRefused).pool.locks.exclusivePages ⟨1⟩,
      p ∈ ([⟨⟨1⟩, 1⟩, ⟨⟨1⟩, 0⟩] : List PageId) := by decide +kernel
  have hmem : ⟨⟨1⟩, 1⟩ ∈
      ((tiny 2 ({} : Recency)).run oneRefused).pool.locks.exclusivePages ⟨1⟩ := by decide +kernel
  refine ⟨by decide +kernel, ?_⟩
  rcases failed_commit_is_half_undone (fresh_tiny 2 ({} : Recency)) hgoes
    [⟨⟨1⟩, 0⟩, ⟨⟨1⟩, 1⟩] [⟨⟨1⟩, 1⟩, ⟨⟨1⟩, 0⟩] {} hall (by decide +kernel) (by decide +kernel)
    with ⟨done, q, rest, heq, hnot, _, _, hpages⟩
  rw [(hpages _ hmem).1, if_neg]
  -- Before the page that was refused there is at most the first page.
  rcases done with _ | ⟨d, _ | ⟨d', done⟩⟩
  · exact List.not_mem_nil
  · simp only [List.cons_append, List.cons.injEq] at heq
    rw [← heq.1]
    decide
  · simp at heq

/-- A transaction can be left half committed: a rollback that succeeds after a commit that failed
    need not bring back what the transaction found. -/
theorem failed_commit_not_undone :
    ¬ ∀ (E : Engine Recency) (t : TxnId) (evs : List Event) (order order' : List PageId)
      (faults : Faults), E.Fresh → E.Goes (Untried t) evs →
      order.Perm ((E.run evs).pool.locks.exclusivePages t) →
      order'.Perm ((E.run evs).pool.locks.exclusivePages t) →
      ((E.run evs).pool.finishIn order t .commit).2.isOk = false →
      ((E.run evs).pool.retreat order order' t faults).2.isOk = true →
      ∀ p ∈ (E.run evs).pool.locks.exclusivePages t,
        ((E.run evs).pool.retreat order order' t faults).1.stored p =
          E.found t E.pool.shown evs p := by
  intro h
  have hp := h (tiny 2 ({} : Recency)) ⟨1⟩ oneRefused [⟨⟨1⟩, 0⟩, ⟨⟨1⟩, 1⟩] [⟨⟨1⟩, 1⟩, ⟨⟨1⟩, 0⟩] {}
    (fresh_tiny 2 _) (by decide +kernel) (by decide +kernel) (by decide +kernel)
    (by decide +kernel) (by decide +kernel) ⟨⟨1⟩, 0⟩ (by decide +kernel)
  exact absurd hp (by decide +kernel)

end Engine

end RowStore
