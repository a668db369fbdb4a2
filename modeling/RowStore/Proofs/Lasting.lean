import RowStore.Proofs.Footprints
import RowStore.Proofs.Keeping
import RowStore.Proofs.Serial
import RowStore.Recency

/-!
# Writes That Last

What a transaction writes to a page is there until it ends and on disk if it commits,
provided that it was written to the resident copy.

A handle keeps its frame when the page is discarded. The page is loaded into another
frame when it is wanted again, and a handle from before then is on a copy that nobody
else will look at. Its transaction may go on writing by it: the check looks at the lock
on the page and not at the frame. Such a write changes nothing that is shown of the
page, no fetch finds it, and a commit has nothing to write out for it. That is
`Engine.orphaned_write_is_lost`. It is the only way to lose a write.

A write by a call is never lost so, because the call has just fetched the page.

## Main definitions

* `Engine.lastWrite?`: The bytes that a transaction was the last to write to a page in a move.
* `Engine.Live`: A write by a handle is one to the resident copy.
* `Engine.Strict`: Files are changed only through the pool, and no lock is given back early.
* `Engine.Steady`: Besides, no overtaken call is resumed.
* `Engine.Rests`: The transaction neither writes the page nor leaves, and the page is not discarded.
* `Engine.Yields`: What comes of a fetch of the page.

## Theorems

* `Engine.shown_lastWrite`: What is shown of a page after a move, if it is held to write.
* `Engine.yields_of_exclusive`: Who holds a page to write can fetch it at once.
* `Engine.live_write_lasts`: What was written to the resident copy is fetched and committed.
* `Engine.orphaned_write_is_lost`: What was written to another copy need not be.
-/

namespace RowStore

/-- What was written last was written. -/
theorem PageOp.mem_of_lastWrite? {p : PageId} {b : Bytes} {l : List PageOp}
    (h : lastWrite? p l = some b) : write p b ∈ l := by
  induction l with
  | nil => cases h
  | cons op rest ih =>
      cases op with
      | read q seen => exact List.mem_cons_of_mem _ (ih h)
      | write q bytes =>
          unfold lastWrite? at h
          rcases Option.or_eq_some_iff.1 h with hrest | ⟨_, hfirst⟩
          · exact List.mem_cons_of_mem _ (ih hrest)
          · split at hfirst
            · rename_i hq
              cases hfirst
              rw [hq]
              exact List.mem_cons_self
            · cases hfirst

/-- The access that a note is of, if the transaction made it. -/
def Note.opOf? (t : TxnId) : Note → Option PageOp
  | .access u op => if u = t then some op else none
  | .ended _ _ => none

theorem Note.filterMap_opOf? (t u : TxnId) (ops : List PageOp) :
    (ops.map (Note.access u)).filterMap (Note.opOf? t) = if u = t then ops else [] := by
  rw [List.filterMap_map]
  split
  · rename_i hu
    have hid : Note.opOf? t ∘ Note.access u = some := funext fun _ => if_pos hu
    rw [hid, List.filterMap_some]
  · rename_i hu
    exact List.filterMap_eq_nil_iff.2 fun _ _ => if_neg hu

/-- Whether a move is the discarding of this page. -/
def Move.discards {ρ : Type} (p : PageId) : Move ρ → Bool
  | .event (.act (.discard q)) => q = p
  | _ => false

theorem Move.discards_eq_false {ρ : Type} {m : Move ρ} (h : m.isDiscard = false) (p : PageId) :
    m.discards p = false := by
  cases m with
  | event ev =>
      cases ev with
      | act a =>
          cases a with
          | discard q => cases h
          | _ => rfl
      | _ => rfl
  | _ => rfl

/-- A page that a call had access to is one of a table that is known. -/
theorem Task.known_of_accesses {ρ : Type} [EvictionOrder ρ] {P : Pool ρ} (hc : P.Coherent)
    {t : TxnId} {task : Task} {op : PageOp} (h : op ∈ task.accesses P t) :
    ∃ f, P.tables.get? op.page.table = some f := by
  rcases fetched_of_accesses hc (List.ne_nil_of_mem h) with ⟨p, access, hf, Q, f, heq, _⟩
  rcases mem_accesses hc h with ⟨mode, hd, _⟩
  have hp : op.page = p :=
    congrArg Prod.fst (Option.some.inj (hd.symm.trans (demand_of_fetches? hf)))
  rw [hp]
  -- A page that could be fetched is resident then, and so it is one of a known table.
  rcases fetchHandle_cases hc t p access with ⟨R, hq, hcq, ⟨g, _, hr⟩ | ⟨e, heq', _⟩⟩
  · exact hq.tables ▸ hcq.known_of_resident hr
  · cases heq.symm.trans heq'

namespace Pool

variable {ρ : Type}

/-- If an action is a write by a handle, the handle is on the resident copy of its page. -/
def Live (P : Pool ρ) : Action → Prop
  | .write n _ => ∀ h ∈ P.cache.handles.get? n, P.cache.resident.get? h.page = some h.frame
  | _ => True

instance (P : Pool ρ) (a : Action) : Decidable (P.Live a) :=
  match a with
  | .write n _ => inferInstanceAs (Decidable (∀ h ∈ P.cache.handles.get? n,
      P.cache.resident.get? h.page = some h.frame))
  | .begin | .read _ | .drop _ | .finish _ _ | .close _ _ | .abandon _ | .grow _ | .flushAll
  | .flushTxn _ | .discard _ | .releasePage _ _ | .releaseLocks _ | .device _ =>
    inferInstanceAs (Decidable True)

/-- What a transaction writes to a page by a handle is all that it does in the action. -/
theorem lastWrite?_notes_write {P : Pool ρ} {n : HandleNo} {h : Handle}
    (hn : P.cache.handles.get? n = some h) (e : Edit) (p : PageId) :
    (P.checkWrite h = .ok () ∧ p = h.page ∧
      PageOp.lastWrite? p ((P.notes (.write n e)).filterMap (Note.opOf? h.txn)) =
        some (e.apply (P.bytesOf h))) ∨
    ((P.checkWrite h = .ok () → p ≠ h.page) ∧
      PageOp.lastWrite? p ((P.notes (.write n e)).filterMap (Note.opOf? h.txn)) = none) := by
  simp only [notes, hn]
  cases hw : P.checkWrite h with
  | error e' =>
      refine Or.inr ⟨fun hok => ?_, rfl⟩
      cases hok
  | ok u =>
      by_cases hp : p = h.page
      · exact Or.inl ⟨rfl, hp, by simp [Note.opOf?, PageOp.lastWrite?, hp]⟩
      · exact Or.inr ⟨fun _ => hp, by simp [Note.opOf?, PageOp.lastWrite?, Ne.symm hp]⟩

/-- What is written by a handle on the resident copy is shown. -/
theorem shown_edit_live {P : Pool ρ} (hc : P.Coherent) {n : HandleNo} {h : Handle}
    (hn : P.cache.handles.get? n = some h) (hr : P.cache.resident.get? h.page = some h.frame)
    (hw : P.checkWrite h = .ok ()) (e : Edit) :
    (P.edit n e).1.shown h.page = e.apply (P.bytesOf h) := by
  unfold edit
  rw [hn]
  rcases alter_cases (grasps_of_resident hc hr) fun b => .ok ((), e.apply b) with
    ⟨e', hw', _⟩ | ⟨_, e', hwork, _⟩ | ⟨_, _, bytes, hwork, heq⟩
  · cases hw.symm.trans hw'
  · cases hwork
  · cases hwork
    simp only [heq]
    have hperf := performs_written hc hr hw (e.size_apply (P.bytesOf h))
    rw [hperf.shown]
    exact if_pos rfl

/-- Nothing is noted that a transaction writes in an action of which it is not the changer. -/
theorem lastWrite?_notes_other [EvictionOrder ρ] {P : Pool ρ} {a : Action} {t : TxnId}
    (ha : P.changer a ≠ some t) (p : PageId) :
    PageOp.lastWrite? p ((P.notes a).filterMap (Note.opOf? t)) = none := by
  cases a with
  | read n =>
      simp only [notes]
      split
      · rfl
      · rename_i h _
        split
        · rfl
        · by_cases ht : h.txn = t <;> simp [Note.opOf?, PageOp.lastWrite?, ht]
  | write n e =>
      simp only [notes]
      split
      · rfl
      · rename_i h hn
        have ht : h.txn ≠ t := by
          rintro rfl
          exact ha (by rw [changer, hn]; rfl)
        split
        · rfl
        · simp [Note.opOf?, PageOp.lastWrite?, ht]
  | finish u e =>
      simp only [notes]
      split <;> rfl
  | _ => rfl

end Pool

namespace Engine

variable {ρ : Type}

/-- If a move is a write by a handle, the handle is on the resident copy of its page. -/
def Live (E : Engine ρ) : Move ρ → Prop
  | .event (.act a) => E.pool.Live a
  | _ => True

instance (E : Engine ρ) (m : Move ρ) : Decidable (E.Live m) :=
  match m with
  | .event (.act a) => inferInstanceAs (Decidable (E.pool.Live a))
  | .event (.submit _ _) | .event (.step _) | .finishIn _ _ _ | .giveUp _ | .register _
  | .outside _ | .reorder _ => inferInstanceAs (Decidable True)

/-- What is asked of a move: files are changed only through the pool, and no lock is given back
    before its transaction ends. -/
def Strict (E : Engine ρ) (m : Move ρ) : Prop := E.Placed m ∧ m.keepsLocks = true

instance (E : Engine ρ) (m : Move ρ) : Decidable (E.Strict m) :=
  inferInstanceAs (Decidable (E.Placed m ∧ m.keepsLocks = true))

/-- Files are changed only through the pool, no lock is given back before its transaction ends, and
    no overtaken call is resumed. -/
def Steady (E : Engine ρ) (m : Move ρ) : Prop := E.Placed m ∧ E.Keeps m

instance (E : Engine ρ) (m : Move ρ) : Decidable (E.Steady m) :=
  inferInstanceAs (Decidable (E.Placed m ∧ E.Keeps m))

theorem Steady.strict {E : Engine ρ} {m : Move ρ} (h : E.Steady m) : E.Strict m :=
  ⟨h.1, h.2.keepsLocks⟩

variable [EvictionOrder ρ]

/-- The bytes that a transaction was the last to write to a page in a move, if it wrote it. -/
def lastWrite? (E : Engine ρ) (t : TxnId) (p : PageId) : Move ρ → Option Bytes
  | .event ev => PageOp.lastWrite? p ((E.notes ev).filterMap (Note.opOf? t))
  | _ => none

/-- A steady move by which the transaction neither writes the page nor leaves, and the page is not
    discarded. -/
structure Rests (t : TxnId) (p : PageId) (E : Engine ρ) (m : Move ρ) : Prop where
  steady : E.Steady m
  unwritten : E.lastWrite? t p m = none
  stays : m.leaver? ≠ some t
  kept : m.discards p = false

instance (t : TxnId) (p : PageId) (E : Engine ρ) (m : Move ρ) : Decidable (E.Rests t p m) :=
  decidable_of_iff (E.Steady m ∧ E.lastWrite? t p m = none ∧ m.leaver? ≠ some t ∧
      m.discards p = false)
    ⟨fun h => ⟨h.1, h.2.1, h.2.2.1, h.2.2.2⟩, fun h => ⟨h.1, h.2, h.3, h.4⟩⟩

/-- The transaction can fetch the page at once to read it or to write it, and finds these bytes. If
    it is resident, nothing can go wrong; else it may be that it cannot be loaded or that no frame
    can be freed. -/
def Yields (E : Engine ρ) (t : TxnId) (p : PageId) (b : Bytes) : Prop :=
  ∀ access, ∃ F outcome, (E.submit t (.fetch p access true)).2.step ⟨E.nextCall⟩ =
      (F, some outcome) ∧
    ((∃ n h, outcome = .fetched (some n) ∧ F.pool.cache.handles.get? n = some h ∧ h.page = p ∧
        h.txn = t ∧ h.access = access ∧ F.pool.bytesOf h = b) ∨
      ∃ cause, outcome = .failed cause ∧ E.pool.cache.resident.get? p = none ∧
        (cause = .noEvictableFrame E.pool.cache.capacity ∨ E.pool.loadImage p = .error cause))

/-- Nothing is noted that a transaction writes in a move of which it is not the changer. -/
theorem lastWrite?_other {E : Engine ρ} {m : Move ρ} {t : TxnId} (hm : E.changer m ≠ some t)
    (p : PageId) : E.lastWrite? t p m = none := by
  cases m with
  | event ev =>
      cases ev with
      | submit u task => rfl
      | step c =>
          simp only [lastWrite?, notes]
          split
          · rename_i call locks hrule
            have ht : call.txn ≠ t := by
              rintro rfl
              exact hm (by rw [changer, get?_of_ruling hrule]; rfl)
            rw [Note.filterMap_opOf?, if_neg ht]
            rfl
          · rfl
      | act a => exact Pool.lastWrite?_notes_other hm p
  | _ => rfl

/-- Nor is anything noted that a transaction writes in a move by which it leaves. -/
theorem lastWrite?_leaver {E : Engine ρ} {m : Move ρ} {t : TxnId} (hm : m.leaver? = some t)
    (p : PageId) : E.lastWrite? t p m = none := by
  cases m with
  | event ev =>
      cases ev with
      | act a =>
          cases a with
          | finish u e =>
              simp only [lastWrite?, notes, Pool.notes]
              split <;> rfl
          | close _ _ | abandon _ | releaseLocks _ => rfl
          | _ => cases hm
      | _ => cases hm
  | _ => rfl

omit [EvictionOrder ρ] in
/-- The changer of a move by which it does not leave has a call that takes a step, or writes by a
    handle. -/
theorem changer_cases {E : Engine ρ} {m : Move ρ} {t : TxnId} (hch : E.changer m = some t)
    (hstay : m.leaver? ≠ some t) :
    (∃ c call, m = .event (.step c) ∧ E.calls.get? c = some call ∧ call.txn = t) ∨
    ∃ n e h, m = .event (.act (.write n e)) ∧ E.pool.cache.handles.get? n = some h ∧
      h.txn = t := by
  cases m with
  | event ev =>
      cases ev with
      | submit u task => cases hch
      | step c =>
          rcases Option.map_eq_some_iff.1 hch with ⟨call, hcall, htxn⟩
          exact Or.inl ⟨c, call, rfl, hcall, htxn⟩
      | act a =>
          cases a with
          | write n e =>
              rcases Option.map_eq_some_iff.1 hch with ⟨h, hn, htxn⟩
              exact Or.inr ⟨n, e, h, rfl, hn, htxn⟩
          | finish _ _ | close _ _ | abandon _ => exact absurd hch hstay
          | _ => cases hch
  | finishIn _ _ _ | giveUp _ => exact absurd hch hstay
  | _ => cases hch

section Sited

variable {E : Engine ρ} (hs : E.Sited)

include hs

/-- After a step is shown what the transaction of the call has written in it. -/
theorem shown_lastWrite_step (hb : E.pool.Bounded) {c : CallNo} {call : Call}
    (hcall : E.calls.get? c = some call) (p : PageId) :
    (E.step c).1.pool.shown p =
      (E.lastWrite? call.txn p (.event (.step c))).getD (E.pool.shown p) := by
  simp only [lastWrite?, notes]
  rcases E.step_cases c with ⟨hrule, heq⟩ | ⟨call', locks, hrule, heq⟩ |
    ⟨call', locks, hrule, heq⟩ | ⟨call', locks, page, mode, hrule, _, heq⟩
  · rw [heq, hrule]
    rfl
  · cases hcall.symm.trans (get?_of_ruling hrule)
    have hw := work_performs (E := E.setLocks locks) (hs.coherent.setLocks locks) hb c
      (hs.fits c call hcall)
    rw [heq, hrule, hw.shown, PageOp.after_eq]
    simp only [Note.filterMap_opOf?, if_pos]
    rfl
  · rw [heq, hrule]
    rfl
  · rw [heq, hrule]
    rfl

/-- After a write by a handle is shown what the transaction of the handle has written by it, if the
    handle is on the resident copy. -/
theorem shown_lastWrite_write {n : HandleNo} {h : Handle}
    (hn : E.pool.cache.handles.get? n = some h) (e : Edit) (p : PageId)
    (hlive : E.lastWrite? h.txn p (.event (.act (.write n e))) ≠ none →
      E.pool.cache.resident.get? h.page = some h.frame) :
    (E.pool.edit n e).1.shown p =
      (E.lastWrite? h.txn p (.event (.act (.write n e)))).getD (E.pool.shown p) := by
  rcases Pool.lastWrite?_notes_write hn e p with ⟨hw, rfl, hlast⟩ | ⟨hnot, hlast⟩
  · have hr := hlive (by simp [lastWrite?, notes, hlast])
    simp only [lastWrite?, notes, hlast]
    exact Pool.shown_edit_live hs.coherent hn hr hw e
  · simp only [lastWrite?, notes, hlast]
    refine Pool.shown_edit hs.coherent n e fun h' hn' hw => ?_
    cases hn.symm.trans hn'
    exact hnot hw

/-- A page that is discarded is shown as its image. -/
theorem shown_discard (p q : PageId) : (E.move (.event (.act (.discard p)))).pool.shown q =
    if q = p then E.pool.stored q else E.pool.shown q := by
  rw [move, exec, Pool.act, (Pool.restored_discard hs.coherent p).shown]
  simp only [List.mem_singleton]

/-- If a transaction holds a page to write during a move, does not leave by it and does not write
    to a copy that is not resident, then what is shown of the page afterwards is what the
    transaction has written to it, or what was shown before. -/
theorem shown_lastWrite (hl : E.pool.locks.Guarded) {m : Move ρ} (hm : E.Placed m) {t : TxnId}
    {p : PageId} (hx : (E.locksDuring m).mode? t p = some .exclusive)
    (hlive : E.lastWrite? t p m ≠ none → E.Live m) (hstay : m.leaver? ≠ some t)
    (hkept : m.discards p = false) {g : TableFile} (hg : E.pool.tables.get? p.table = some g) :
    (E.move m).pool.shown p = (E.lastWrite? t p m).getD (E.pool.shown p) := by
  by_cases hch : E.changer m = some t
  · rcases changer_cases hch hstay with ⟨c, call, rfl, hcall, rfl⟩ | ⟨n, e, h, rfl, hn, rfl⟩
    · exact shown_lastWrite_step hs hm.1 hcall p
    · exact shown_lastWrite_write hs hn e p fun hne => hlive hne h hn
  · rw [lastWrite?_other hch, Option.getD_none]
    cases hd : m.isDiscard with
    | true =>
        rcases Move.eq_discard hd with ⟨q, rfl⟩
        rw [shown_discard hs, if_neg (Ne.symm (of_decide_eq_false hkept))]
    | false =>
        -- Nobody else holds the page to write.
        refine shown_move hs hm hd hg fun u hu hxu => hch ?_
        rw [hu, (guarded_during hl m).toBacked.eq_of_exclusive hx hxu]

omit hs in
/-- Who writes a page in a move has a call that is granted its lock and then writes the page, or
    writes by a handle on the page and is not refused. -/
theorem lastWrite?_cases {m : Move ρ} {t : TxnId} {p : PageId} (h : E.lastWrite? t p m ≠ none) :
    (∃ c call locks b, m = .event (.step c) ∧ E.ruling c = some (call, locks, .granted) ∧
      call.txn = t ∧ PageOp.write p b ∈ call.task.accesses (E.pool.setLocks locks) t) ∨
    ∃ n e hd, m = .event (.act (.write n e)) ∧ E.pool.cache.handles.get? n = some hd ∧
      hd.txn = t ∧ hd.page = p ∧ E.pool.checkWrite hd = .ok () := by
  have hstay : m.leaver? ≠ some t := fun hleave => h (lastWrite?_leaver hleave p)
  have hch : E.changer m = some t := by
    by_contra hne
    exact h (lastWrite?_other hne p)
  rcases changer_cases hch hstay with ⟨c, call, rfl, hcall, rfl⟩ | ⟨n, e, hd, rfl, hn, rfl⟩
  · simp only [lastWrite?, notes] at h
    split at h
    · rename_i call' locks hrule
      cases hcall.symm.trans (get?_of_ruling hrule)
      rw [Note.filterMap_opOf?, if_pos rfl] at h
      rcases Option.ne_none_iff_exists'.1 h with ⟨b, hb⟩
      exact Or.inl ⟨c, call, locks, b, rfl, hrule, rfl, PageOp.mem_of_lastWrite? hb⟩
    · exact absurd rfl h
  · rcases Pool.lastWrite?_notes_write hn e p with ⟨hw, rfl, _⟩ | ⟨_, hlast⟩
    · exact Or.inr ⟨n, e, hd, rfl, hn, rfl, rfl, hw⟩
    · exact absurd hlast h

/-- Who writes a page in a move holds it to write during the move, and neither leaves by it nor
    discards the page. -/
theorem exclusive_of_lastWrite {m : Move ρ} {t : TxnId} {p : PageId}
    (h : E.lastWrite? t p m ≠ none) : (E.locksDuring m).mode? t p = some .exclusive ∧
      m.leaver? ≠ some t ∧ m.discards p = false := by
  have hstay : m.leaver? ≠ some t := fun hleave => h (lastWrite?_leaver hleave p)
  rcases lastWrite?_cases h with
    ⟨c, call, locks, b, rfl, hrule, rfl, hmem⟩ | ⟨n, e, hd, rfl, hn, rfl, rfl, hw⟩
  · rcases Task.mem_accesses (hs.coherent.setLocks locks) hmem with ⟨_, _, hx⟩
    refine ⟨?_, hstay, rfl⟩
    rw [locksDuring_step hrule]
    exact hx rfl
  · exact ⟨Pool.mode?_of_checkWrite hw, hstay, rfl⟩

/-- And the page is one of a table that is known. -/
theorem known_of_lastWrite (hr : E.pool.Rooted) {m : Move ρ} {t : TxnId} {p : PageId}
    (h : E.lastWrite? t p m ≠ none) : ∃ g, E.pool.tables.get? p.table = some g := by
  rcases lastWrite?_cases h with
    ⟨c, call, locks, b, rfl, hrule, rfl, hmem⟩ | ⟨n, e, hd, rfl, hn, rfl, rfl, hw⟩
  · exact Task.known_of_accesses (hs.coherent.setLocks locks) hmem
  · exact hr n hd hn

end Sited

/-- Who holds a page to write has enough for any fetch of it, so it need not wait, and it finds what
    is shown. -/
theorem yields_of_exclusive {E : Engine ρ} (hc : E.pool.Coherent) (hl : E.Listed)
    (hb : E.pool.locks.Backed) {t : TxnId} {p : PageId}
    (hx : E.pool.locks.mode? t p = some .exclusive) : E.Yields t p (E.pool.shown p) := by
  intro access
  have hwait : E.pool.locks.waiterOf ⟨E.nextCall⟩ = none := by
    cases hw : E.pool.locks.waiterOf ⟨E.nextCall⟩ with
    | none => rfl
    | some w =>
        rcases LockTable.mem_of_waiterOf hw with ⟨hm, hcall⟩
        rcases hl.waiting w hm with ⟨call, hc', _⟩
        exact absurd hcall (hl.ne_next hc')
  have hholds : (E.pool.locks.holdersOf p).holds t access.mode = true := by
    have hwriter := hb.exclusive t p hx
    cases access <;> simp [Access.mode, Holders.holds, hwriter]
  have hrule : (E.submit t (.fetch p access true)).2.ruling ⟨E.nextCall⟩ =
      some (⟨t, .fetch p access true⟩, E.pool.locks, .granted) := by
    simp only [ruling, submit, Assoc.get?_insert_self, Task.demand, hwait, LockTable.request,
      hholds, if_pos]
  rw [step_eq, hrule]
  simp only [work, Task.run, setLocks, submit]
  rcases Task.fetchHandle_cases hc t p access with ⟨Q, hq, hcq, ⟨f, heq, hr⟩ | ⟨e, heq, hcause⟩⟩
  · rw [heq]
    refine ⟨_, _, rfl, Or.inl ⟨_, ⟨p, f, t, access⟩, rfl, Assoc.get?_insert_self _ _ _, rfl, rfl,
      rfl, ?_⟩⟩
    exact (hcq.bytesOf_eq hr).trans (congrFun hq.shown p)
  · rw [heq]
    refine ⟨_, _, rfl, Or.inr ⟨e, rfl, ?_, hcause.imp id And.right⟩⟩
    -- The fetch of a resident page does not fail.
    cases hres : E.pool.cache.resident.get? p with
    | none => rfl
    | some f =>
        simp only [Task.fetchHandle, Pool.fetch, hres] at heq
        cases heq

/-- What is held to write stays as it is, and so does the hold on it, while its holder neither
    writes it nor leaves and nobody discards it. -/
theorem shown_rests {E : Engine ρ} (h : E.Arises Steady) {t : TxnId} {p : PageId}
    (hx : E.pool.locks.mode? t p = some .exclusive) {g : TableFile}
    (hg : E.pool.tables.get? p.table = some g) {ms : List (Move ρ)}
    (hms : E.Admits (Rests t p) ms) :
    (E.moves ms).Arises Steady ∧ (E.moves ms).pool.locks.mode? t p = some .exclusive ∧
      (E.moves ms).pool.shown p = E.pool.shown p := by
  induction ms generalizing E with
  | nil => exact ⟨h, hx, rfl⟩
  | cons m rest ih =>
      rcases hms with ⟨hm, hrest⟩
      have hs := h.sited fun _ _ => And.left
      have hk := h.kept fun _ _ => And.right
      have hduring :=
        exclusive_during hk.toListed h.guarded.toBacked (hm.steady.2.not_relaxes t p) hx
      have hafter := exclusive_move hk.owned.tidy hm.steady.strict.2 hm.stays hduring
      have hshown := shown_lastWrite hs h.guarded hm.steady.1 hduring
        (fun hne => absurd hm.unwritten hne) hm.stays hm.kept hg
      rw [hm.unwritten, Option.getD_none] at hshown
      rcases ih (.move h hm.steady) hafter (known_move hm.steady.1 hg) hrest with
        ⟨harises, hheld, hsame⟩
      exact ⟨harises, hheld, hsame.trans hshown⟩

/-- Whatever has happened, and whatever happens afterwards, as long as no lock is given back early
    and no overtaken call is resumed: what a transaction writes to a page, by a call or by a handle
    on the resident copy, is shown as long as the transaction neither writes the page again nor
    leaves, and the page is not discarded. In the meantime the transaction fetches it at once, and
    if it commits in the end, visiting its pages in whichever order, it is on disk. -/
theorem live_write_lasts {E : Engine ρ} (h : E.Arises Steady) {m : Move ρ} (hm : E.Steady m)
    {t : TxnId} {p : PageId} {b : Bytes} (hwrite : E.lastWrite? t p m = some b) (hlive : E.Live m)
    {later : List (Move ρ)} (hlater : (E.move m).Admits (Rests t p) later) :
    ((E.move m).moves later).pool.shown p = b ∧ ((E.move m).moves later).Yields t p b ∧
      ∀ order, order.Perm (((E.move m).moves later).pool.locks.exclusivePages t) →
        (((E.move m).moves later).pool.finishIn order t .commit).2.isOk = true →
          (((E.move m).moves later).pool.finishIn order t .commit).1.stored p = b := by
  have hs := h.sited fun _ _ => And.left
  have hne : E.lastWrite? t p m ≠ none := by
    rw [hwrite]
    exact Option.some_ne_none b
  rcases exclusive_of_lastWrite hs hne with ⟨hx, hstay, hkept⟩
  rcases known_of_lastWrite hs (h.rooted fun _ _ => And.left) hne with ⟨g, hg⟩
  have hafter := exclusive_move h.tidy hm.strict.2 hstay hx
  have hshown := shown_lastWrite hs h.guarded hm.1 hx (fun _ => hlive) hstay hkept hg
  rw [hwrite, Option.getD_some] at hshown
  rcases shown_rests (.move h hm) hafter (known_move hm.1 hg) hlater with ⟨harises, hheld, hsame⟩
  have hb := hsame.trans hshown
  have hcoh := (harises.sited fun _ _ => And.left).coherent
  have hyields := yields_of_exclusive hcoh harises.listed harises.guarded.toBacked hheld
  refine ⟨hb, hb ▸ hyields, fun order hperm hok => ?_⟩
  -- A commit that succeeds has visited the page, which its transaction holds to write still.
  rcases Pool.finishIn_commit hcoh order t with ⟨Q, visited, hf, _, ⟨heq, rfl⟩ | ⟨e, heq⟩⟩
  · rw [heq]
    have hmem : p ∈ visited := hperm.mem_iff.2 ((LockTable.mem_exclusivePages _ _ _).2 hheld)
    exact ((hf.stored p).trans (if_pos hmem)).trans hb
  · rw [heq] at hok
    cases hok

/-- A transaction fetches a page, and fetches it again after it was discarded. -/
def fetchedTwice : List (Move Recency) :=
  [.event (.submit ⟨1⟩ (.fetch ⟨⟨1⟩, 0⟩ .readWrite true)), .event (.step ⟨0⟩),
    .event (.act (.discard ⟨⟨1⟩, 0⟩)),
    .event (.submit ⟨1⟩ (.fetch ⟨⟨1⟩, 0⟩ .readWrite true)), .event (.step ⟨1⟩)]

/-- All pages are flushed, and the page leaves for another one. -/
def drivenOut : List (Move Recency) :=
  [.event (.act .flushAll), .event (.act (.drop ⟨1⟩)),
    .event (.submit ⟨2⟩ (.fetch ⟨⟨1⟩, 1⟩ .readOnly false)), .event (.step ⟨2⟩)]

/-- What is written by the second handle is there after the page was driven out, and on disk in the
    end. -/
theorem live_write_lasts_fetchedTwice :
    ((((tiny 1 ({} : Recency)).moves fetchedTwice).move
      (.event (.act (.write ⟨1⟩ (.fill 5))))).moves drivenOut).pool.cache.resident.get?
        ⟨⟨1⟩, 0⟩ = none ∧
    ((((tiny 1 ({} : Recency)).moves fetchedTwice).move
      (.event (.act (.write ⟨1⟩ (.fill 5))))).moves drivenOut).pool.shown ⟨⟨1⟩, 0⟩ = #[5, 5] ∧
    (((((tiny 1 ({} : Recency)).moves fetchedTwice).move
      (.event (.act (.write ⟨1⟩ (.fill 5))))).moves drivenOut).pool.finishIn [⟨⟨1⟩, 0⟩] ⟨1⟩
        .commit).1.stored ⟨⟨1⟩, 0⟩ = #[5, 5] := by
  have harises : ((tiny 1 ({} : Recency)).moves fetchedTwice).Arises Steady :=
    (Arises.fresh (fresh_tiny 1 ({} : Recency))).moves (by decide +kernel)
  have hwrite : ((tiny 1 ({} : Recency)).moves fetchedTwice).lastWrite? ⟨1⟩ ⟨⟨1⟩, 0⟩
      (.event (.act (.write ⟨1⟩ (.fill 5)))) = some #[5, 5] := by decide +kernel
  have hlater : (((tiny 1 ({} : Recency)).moves fetchedTwice).move
      (.event (.act (.write ⟨1⟩ (.fill 5))))).Admits (Rests ⟨1⟩ ⟨⟨1⟩, 0⟩) drivenOut := by
    decide +kernel
  have hlasts := live_write_lasts harises (by decide +kernel) hwrite (by decide +kernel) hlater
  exact ⟨by decide +kernel, hlasts.1, hlasts.2.2 _ (by decide +kernel) (by decide +kernel)⟩

/-- The page is discarded while a transaction has a handle on it. -/
def leftBehind : List (Move Recency) :=
  [.event (.submit ⟨1⟩ (.fetch ⟨⟨1⟩, 0⟩ .readWrite true)), .event (.step ⟨0⟩),
    .event (.act (.discard ⟨⟨1⟩, 0⟩))]

/-- A write by a handle that was left behind is not refused, and nothing is left of it when the
    transaction commits, though the device has refused nothing and the page was not discarded after
    the write. -/
theorem orphaned_write_is_lost :
    ¬ ∀ (E : Engine Recency) (m : Move Recency) (t : TxnId) (p : PageId) (b : Bytes)
      (later : List (Move Recency)) (order : List PageId), E.Arises Steady → E.pool.faults = {} →
      E.Steady m → E.lastWrite? t p m = some b → (E.move m).Admits (Rests t p) later →
      order.Perm (((E.move m).moves later).pool.locks.exclusivePages t) →
      (((E.move m).moves later).pool.finishIn order t .commit).2.isOk = true →
      (((E.move m).moves later).pool.finishIn order t .commit).1.stored p = b := by
  intro h
  have harises : ((tiny 1 ({} : Recency)).moves leftBehind).Arises Steady :=
    (Arises.fresh (fresh_tiny 1 ({} : Recency))).moves (by decide +kernel)
  have hstored := h _ (.event (.act (.write ⟨0⟩ (.fill 5)))) ⟨1⟩ ⟨⟨1⟩, 0⟩ #[5, 5] []
    [⟨⟨1⟩, 0⟩] harises rfl (by decide +kernel) (by decide +kernel) trivial (by decide +kernel)
    (by decide +kernel)
  exact absurd hstored (by decide +kernel)

end Engine

end RowStore
