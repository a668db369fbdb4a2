import RowStore.Proofs.Alike
import RowStore.Proofs.Run
import RowStore.Recency

/-!
# The Cache Does Not Show

Two pools over the same files get the same events. One may have more frames than the
other, and each makes pages leave in an order of its own. As long as both find room
for every page, what comes back is the same, whatever the events: the bytes that are
read, the rows and their places, the errors, and who waits for whom.

The two are kept apart by `Pool.Alike`. Every call takes its step in both, since the
ruling on its request depends on the calls and the locks alone. Its work then begins
with a page that both fetch or both are refused, and goes on with bytes that are the
same.

Nothing is asked of the orders. One may well propose pages that are not resident, or
none at all.

## Main definitions

* `Outcome.isCrowded`, `Answer.isCrowded`: A call ended because there was no room for a page.
* `Engine.refit`: The same engine with other frames and another order.
* `Engine.Undisturbed`: The events that are admitted: none makes a page leave.

## Theorems

* `Task.run_alike`, `Pool.act_alike`: What a call, or an action, does to two pools that are alike.
* `Engine.exec_alike`: An event has the same result in both.
* `Engine.cache_transparent`: So has a run.
-/

namespace RowStore

/-- Whether an error says that there was no room for a page. -/
def StoreError.isCrowding : StoreError → Bool
  | .noEvictableFrame _ => true
  | _ => false

/-- Whether a call ended because there was no room for a page. -/
def Outcome.isCrowded (o : Outcome) : Bool := o.failure?.any StoreError.isCrowding

namespace Task

variable {ρ σ : Type} [EvictionOrder ρ] [EvictionOrder σ]

/-- Whether a call has ended because there was no room for a page. -/
def crowded : Task ⊕ Outcome → Bool
  | .inl _ => false
  | .inr outcome => outcome.isCrowded

/-- A call that did not end for lack of room had room for the page that it began with. -/
theorem room_of_run {P : Pool ρ} {t : TxnId} {task : Task} (h : crowded (task.run P t).2 = false)
    {p : PageId} {access : Access} (hf : task.fetches? = some (p, access)) (R : Pool ρ) (n : Nat) :
    fetchHandle P t p access ≠ (R, .error (.noEvictableFrame n)) := by
  intro heq
  -- At every point that fetches a page, lack of room ends the call.
  cases task <;> cases hf <;>
    · simp only [run, heq] at h
      cases h

section Alike

variable {P : Pool ρ} {Q : Pool σ} (h : P.Alike Q) (hb : P.Bounded)

include h hb

/-- The page that the work of a point begins with is fetched in both or refused in both. -/
theorem fetchHandle_alike {t : TxnId} {task : Task} (hP : crowded (task.run P t).2 = false)
    (hQ : crowded (task.run Q t).2 = false) {p : PageId} {access : Access}
    (hf : task.fetches? = some (p, access)) :
    (∃ P' Q' a b, fetchHandle P t p access = (P', .ok a) ∧ fetchHandle Q t p access = (Q', .ok b) ∧
      P'.Alike Q' ∧ b.face = a.face ∧ P'.cache.resident.get? a.page = some a.frame ∧
      Q'.cache.resident.get? b.page = some b.frame) ∨
    ∃ P' Q' e, fetchHandle P t p access = (P', .error e) ∧
      fetchHandle Q t p access = (Q', .error e) ∧ P'.Alike Q' := by
  have hroomP := room_of_run hP hf
  have hroomQ := room_of_run hQ hf
  unfold fetchHandle at hroomP hroomQ ⊢
  rcases h.fetch hb p with ⟨P', Q', f, g, heP, heQ, h', hf, hg⟩ | ⟨P', Q', e, heP, heQ, h'⟩ |
    ⟨n, heP⟩ | ⟨n, heQ⟩
  · rw [heP, heQ]
    exact Or.inl ⟨P', Q', ⟨p, f, t, access⟩, ⟨p, g, t, access⟩, rfl, rfl, h', rfl, hf, hg⟩
  · rw [heP, heQ]
    exact Or.inr ⟨P', Q', e, rfl, rfl, h'⟩
  · -- There was room in both, so lack of it is ruled out.
    cases hres : P.fetch p with
    | mk P' r =>
        rw [hres] at heP
        cases heP
        exact absurd (by rw [hres]) (hroomP P' n)
  · cases hres : Q.fetch p with
    | mk Q' r =>
        rw [hres] at heQ
        cases heQ
        exact absurd (by rw [hres]) (hroomQ Q' n)

/-- The work of a point has the same result in both, if both have room. -/
theorem run_alike (t : TxnId) {task : Task} (hk : task.Fits P.tables)
    (hP : crowded (task.run P t).2 = false) (hQ : crowded (task.run Q t).2 = false) :
    (task.run P t).2 = (task.run Q t).2 ∧ (task.run P t).1.Alike (task.run Q t).1 := by
  -- The points that fetch nothing read only tables and page counts. The others go on with what
  -- was fetched, which is the same page in perhaps another frame.
  cases task with
  | lock page access => exact ⟨rfl, h⟩
  | fetch page access keep =>
      simp only [run]
      rcases fetchHandle_alike h hb hP hQ rfl with
        ⟨P', Q', a, b, heP, heQ, h', hface, ha, hb'⟩ | ⟨P', Q', e, heP, heQ, h'⟩
      · rw [heP, heQ]
        cases keep with
        | false => exact ⟨rfl, h'⟩
        | true =>
            rcases h'.pin ha hb' hface with ⟨hn, hpin⟩
            refine ⟨?_, hpin⟩
            simp only [if_true, hn]
      · rw [heP, heQ]
        exact ⟨rfl, h'⟩
  | insert job =>
      simp only [run, h.table_eq]
      split
      · exact ⟨rfl, h⟩
      · split
        · exact ⟨rfl, h⟩
        · split <;> exact ⟨rfl, h⟩
  | survey job file row page =>
      simp only [run, h.pageCount_eq (hk file rfl)]
      exact ⟨trivial, h⟩
  | seek job file row page count =>
      simp only [run]
      split
      · exact ⟨rfl, h⟩
      · rcases h.append (hk file rfl) hb with ⟨e, heP, heQ⟩ | ⟨p, heP, heQ⟩
        · rw [heP, heQ]
          exact ⟨rfl, h⟩
        · rw [heP, heQ]
          exact ⟨rfl, h.grown (hk file rfl)⟩
  | inspect job file row page count =>
      simp only [run]
      rcases fetchHandle_alike h hb hP hQ rfl with
        ⟨P', Q', a, b, heP, heQ, h', hface, ha, hb'⟩ | ⟨P', Q', e, heP, heQ, h'⟩
      · rw [heP, heQ]
        simp only [h'.bytesOf_eq ha hb' (congrArg Prod.fst hface)]
        split <;> exact ⟨rfl, h'⟩
      · rw [heP, heQ]
        exact ⟨rfl, h'⟩
  | claim job file row page =>
      simp only [run]
      rcases fetchHandle_alike h hb hP hQ rfl with
        ⟨P', Q', a, b, heP, heQ, h', hface, ha, hb'⟩ | ⟨P', Q', e, heP, heQ, h'⟩
      · rcases h'.alter ha hb' hface (rowIn file.layout row) (fun _ _ _ => size_rowIn) with
          ⟨hres, h''⟩
        -- The row gets the number of the page, not of the frame.
        have hpage : b.page = a.page := congrArg Prod.fst hface
        rw [heP, heQ]
        simp only [putRow_eq, hpage]
        cases haP : P'.alter a (rowIn file.layout row) with
        | mk P'' r =>
            cases haQ : Q'.alter b (rowIn file.layout row) with
            | mk Q'' r' =>
                rw [haP, haQ] at hres h''
                cases hres
                cases r <;> exact ⟨rfl, h''⟩
      · rw [heP, heQ]
        exact ⟨rfl, h'⟩
  | delete row =>
      cases row with
      | none => exact ⟨rfl, h⟩
      | some row =>
          simp only [run, h.table_eq]
          split
          · exact ⟨rfl, h⟩
          · split <;> exact ⟨rfl, h⟩
  | remove file row =>
      simp only [run]
      rcases fetchHandle_alike h hb hP hQ rfl with
        ⟨P', Q', a, b, heP, heQ, h', hface, ha, hb'⟩ | ⟨P', Q', e, heP, heQ, h'⟩
      · rcases h'.alter ha hb' hface (rowOut file.layout row.slot) (fun _ _ _ => size_rowOut) with
          ⟨hres, h''⟩
        rw [heP, heQ]
        simp only [h'.bytesOf_eq ha hb' (congrArg Prod.fst hface), dropRow_eq]
        split
        · exact ⟨rfl, h'⟩
        · cases haP : P'.alter a (rowOut file.layout row.slot) with
          | mk P'' r =>
              cases haQ : Q'.alter b (rowOut file.layout row.slot) with
              | mk Q'' r' =>
                  rw [haP, haQ] at hres h''
                  cases hres
                  cases r <;> exact ⟨rfl, h''⟩
      · rw [heP, heQ]
        exact ⟨rfl, h'⟩
  | advance cursor goal =>
      simp only [run, h.pageCount_eq (hk cursor.file rfl)]
      split
      · exact ⟨rfl, h⟩
      · split
        · exact ⟨rfl, h⟩
        · split <;> exact ⟨rfl, h⟩
  | load cursor goal =>
      simp only [run]
      rcases fetchHandle_alike h hb hP hQ rfl with
        ⟨P', Q', a, b, heP, heQ, h', hface, ha, hb'⟩ | ⟨P', Q', e, heP, heQ, h'⟩
      · rw [heP, heQ]
        simp only [h'.bytesOf_eq ha hb' (congrArg Prod.fst hface)]
        split <;> exact ⟨rfl, h'⟩
      · rw [heP, heQ]
        exact ⟨rfl, h'⟩

end Alike

end Task

/-! ## Actions -/

/-- Whether an action makes a page leave, or changes what the device refuses. -/
def Action.disturbs : Action → Bool
  | .discard _ | .device _ => true
  | _ => false

namespace Pool

variable {ρ σ : Type} [EvictionOrder ρ] [EvictionOrder σ]

section Alike

variable {P : Pool ρ} {Q : Pool σ} (h : P.Alike Q)

include h

omit [EvictionOrder ρ] [EvictionOrder σ] in
theorem edit_alike (n : HandleNo) (e : Edit) :
    (P.edit n e).2 = (Q.edit n e).2 ∧ (P.edit n e).1.Alike (Q.edit n e).1 := by
  unfold edit
  rcases h.handle_cases n with ⟨hP, hQ⟩ | ⟨a, b, hP, hQ, hface⟩
  · rw [hP, hQ]
    exact ⟨rfl, h⟩
  · rcases h.alter (h.left.pinned n a hP) (h.right.pinned n b hQ) hface
      (fun b => .ok ((), e.apply b)) (fun _ _ _ hw => by cases hw; exact e.size_apply _) with
      ⟨hres, h'⟩
    rw [hP, hQ]
    exact ⟨congrArg Answer.ended hres, h'⟩

omit [EvictionOrder ρ] [EvictionOrder σ] in
theorem grow_alike (hb : P.Bounded) (t : TableId) :
    (P.grow t).2 = (Q.grow t).2 ∧ (P.grow t).1.Alike (Q.grow t).1 := by
  unfold grow
  rw [h.table_eq]
  unfold table
  cases hf : P.tables.get? t with
  | none => exact ⟨rfl, h⟩
  | some f =>
      rcases h.append hf hb with ⟨e, hP, hQ⟩ | ⟨p, hP, hQ⟩
      · simp only [hP, hQ]
        exact ⟨trivial, h⟩
      · simp only [hP, hQ]
        exact ⟨trivial, h.grown hf⟩

/-- An action that makes no page leave has the same result in both. A round over the pages in memory
    must not be refused. -/
theorem act_alike (hb : P.Bounded) {a : Action} (ha : a.disturbs = false)
    (hw : Event.isFlush (.act a) = true → ∀ p ∈ P.cache.resident.keys, P.faults.onWrite p = none) :
    (P.act a).2 = (Q.act a).2 ∧ (P.act a).1.Alike (Q.act a).1 := by
  -- Discarding is left out: it makes pages leave that only one of the two may have.
  cases a with
  | begin => exact ⟨congrArg Answer.begun h.nextTxn.1, h.nextTxn.2⟩
  | read n =>
      refine ⟨?_, h⟩
      simp only [act]
      rcases h.handle_cases n with ⟨hP, hQ⟩ | ⟨a, b, hP, hQ, hface⟩
      · rw [hP, hQ]
        rfl
      · rw [hP, hQ, Option.map_some, Option.map_some, h.bytesOf_eq (h.left.pinned n a hP)
          (h.right.pinned n b hQ) (congrArg Prod.fst hface)]
  | write n e => exact edit_alike h n e
  | drop n => exact ⟨rfl, h.unpin n⟩
  | finish t e =>
      rcases h.finish hb t e with ⟨hres, h', _⟩
      exact ⟨congrArg Answer.ended hres, h'⟩
  | close t e =>
      rcases h.close hb t e with ⟨hres, h'⟩
      exact ⟨congrArg Answer.ended hres, h'⟩
  | abandon t => exact ⟨rfl, h.abandon hb t⟩
  | grow t =>
      rcases grow_alike h hb t with ⟨hres, h'⟩
      exact ⟨congrArg Answer.grown hres, h'⟩
  | flushAll =>
      rcases h.flushAll (hw rfl) with ⟨hres, h'⟩
      exact ⟨congrArg Answer.ended hres, h'⟩
  | flushTxn t =>
      rcases h.flushTxn (hw rfl) t with ⟨hres, h'⟩
      exact ⟨congrArg Answer.ended hres, h'⟩
  | releasePage t p =>
      refine ⟨rfl, ?_⟩
      simp only [act, releasePage, h.locks]
      exact h.setLocks _
  | releaseLocks t =>
      refine ⟨rfl, ?_⟩
      simp only [act, releaseLocks, h.locks]
      exact h.setLocks _
  | discard p => cases ha
  | device faults => cases ha

end Alike

end Pool

/-! ## Runs -/

/-- Whether a call ended because there was no room for a page. -/
def Answer.isCrowded : Answer → Bool
  | .stepped (some outcome) => outcome.isCrowded
  | _ => false

/-- Whether an event makes a page leave, or changes what the device refuses. -/
def Event.disturbs : Event → Bool
  | .act a => a.disturbs
  | .submit _ _ | .step _ => false

namespace Engine

variable {ρ σ : Type}

/-- The same engine with so many frames, in which nothing is, and another order. -/
def refit (E : Engine ρ) (frames : Nat) (order : σ) : Engine σ where
  pool :=
    { cache := { capacity := frames, order, nextHandle := E.pool.cache.nextHandle }
      disk := E.pool.disk
      tables := E.pool.tables
      locks := E.pool.locks
      ids := E.pool.ids
      faults := E.pool.faults }
  calls := E.calls
  nextCall := E.nextCall

/-- Nobody can tell two engines apart. -/
structure Alike (E : Engine ρ) (F : Engine σ) : Prop where
  sane : E.Sane
  pool : E.pool.Alike F.pool
  calls : F.calls = E.calls
  nextCall : F.nextCall = E.nextCall

theorem Fresh.refit {E : Engine ρ} (h : E.Fresh) (frames : Nat) (order : σ) :
    (E.refit frames order).Fresh :=
  ⟨h.laid.congr rfl rfl, rfl, rfl, rfl, h.locks, h.calls⟩

theorem Fresh.settled {E : Engine ρ} (h : E.Fresh) : E.pool.Settled where
  coherent := h.sane.coherent
  pinned n hd hn := by
    rw [h.handles] at hn
    cases hn
  readable p hp := by
    rw [h.resident] at hp
    exact absurd rfl hp

theorem Fresh.alike_refit {E : Engine ρ} (h : E.Fresh) (frames : Nat) (order : σ) :
    E.Alike (E.refit frames order) where
  sane := h.sane
  pool := by
    have h' := h.refit frames order
    -- Nothing is in memory, so all that shows comes from the disk, which is the same.
    have hstored : (E.refit frames order).pool.stored = E.pool.stored := Pool.stored_congr rfl rfl
    exact
      { left := h.settled
        right := h'.settled
        tables := rfl
        locks := rfl
        ids := rfl
        faults := rfl
        limit := rfl
        sizes := fun _ _ _ => rfl
        others := fun _ _ => rfl
        stored := hstored
        shown := by
          funext p
          rw [Pool.shown_of_absent (h'.page? p), Pool.shown_of_absent (h.page? p), hstored]
        owner := by
          funext p
          rw [Pool.owner?_of_absent (h'.page? p), Pool.owner?_of_absent (h.page? p)]
        handles := fun n => by rw [h.handles, h'.handles]
        nextHandle := rfl }
  calls := rfl
  nextCall := rfl

theorem Alike.ruling_eq {E : Engine ρ} {F : Engine σ} (h : E.Alike F) (c : CallNo) :
    F.ruling c = E.ruling c := by
  unfold ruling
  rw [h.calls, h.pool.locks]

/-- The events that are admitted: calls that keep to known table files, and any action but one that
    makes a page leave or changes the device. When all pages in memory are to be flushed, the device
    refuses none of them. -/
structure Undisturbed (E : Engine ρ) (ev : Event) : Prop where
  fits : ev.Fits E.pool.tables
  stays : ev.disturbs = false
  writable : ev.isFlush = true →
    ∀ p ∈ E.pool.cache.resident.keys, E.pool.faults.onWrite p = none

instance (E : Engine ρ) (ev : Event) : Decidable (E.Undisturbed ev) :=
  decidable_of_iff (ev.Fits E.pool.tables ∧ ev.disturbs = false ∧
      (ev.isFlush = true → ∀ p ∈ E.pool.cache.resident.keys, E.pool.faults.onWrite p = none))
    ⟨fun h => ⟨h.1, h.2.1, h.2.2⟩, fun h => ⟨h.1, h.2, h.3⟩⟩

variable [EvictionOrder ρ] [EvictionOrder σ]

section Alike

variable {E : Engine ρ} {F : Engine σ} (h : E.Alike F) (hb : E.pool.Bounded)

include h hb

theorem work_alike (c : CallNo) {call : Call} (hk : call.task.Fits E.pool.tables)
    (hE : (Answer.stepped (E.work c call).2).isCrowded = false)
    (hF : (Answer.stepped (F.work c call).2).isCrowded = false) :
    (E.work c call).2 = (F.work c call).2 ∧ (E.work c call).1.pool.Alike (F.work c call).1.pool ∧
      (F.work c call).1.calls = (E.work c call).1.calls ∧
      (F.work c call).1.nextCall = (E.work c call).1.nextCall := by
  have hrun := Task.run_alike h.pool hb call.txn hk
  unfold work at hE hF ⊢
  cases hP : call.task.run E.pool call.txn with
  | mk P' r =>
      cases hQ : call.task.run F.pool call.txn with
      | mk Q' r' =>
          rw [hP] at hE hrun
          rw [hQ] at hF hrun
          -- A call that goes on has not failed for lack of room.
          have hP' : Task.crowded r = false := by
            cases r with
            | inl task => rfl
            | inr outcome => exact hE
          have hQ' : Task.crowded r' = false := by
            cases r' with
            | inl task => rfl
            | inr outcome => exact hF
          rcases hrun hP' hQ' with ⟨hres, h'⟩
          cases hres
          cases r with
          | inl task => exact ⟨rfl, h', by rw [h.calls], h.nextCall⟩
          | inr outcome => exact ⟨rfl, h', by rw [h.calls], h.nextCall⟩

/-- Every event has the same result in both, if both have room. -/
theorem exec_alike {ev : Event} (hev : E.Undisturbed ev) (hE : (E.exec ev).2.isCrowded = false)
    (hF : (F.exec ev).2.isCrowded = false) :
    (E.exec ev).2 = (F.exec ev).2 ∧ (E.exec ev).1.Alike (F.exec ev).1 := by
  have hsane := (sane_exec h.sane hb hev.fits).1
  cases ev with
  | submit t task =>
      refine ⟨?_, hsane, h.pool, ?_, ?_⟩
      · simp only [exec, submit, h.nextCall]
      · simp only [exec, submit, h.nextCall, h.calls]
      · simp only [exec, submit, h.nextCall]
  | act a =>
      rcases Pool.act_alike h.pool hb hev.stays hev.writable with ⟨hres, h'⟩
      exact ⟨hres, hsane, h', h.calls, h.nextCall⟩
  | step c =>
      -- The ruling reads calls and locks only, so both go the same way.
      simp only [exec, step_eq, h.ruling_eq] at hsane hE hF ⊢
      cases hr : E.ruling c with
      | none => exact ⟨rfl, h⟩
      | some r =>
          rcases r with ⟨call, locks, v⟩
          have hset : (E.setLocks locks).Alike (F.setLocks locks) :=
            ⟨⟨h.sane.coherent.setLocks locks, h.sane.fits⟩, h.pool.setLocks locks, h.calls,
              h.nextCall⟩
          rw [hr] at hsane hE hF
          cases v with
          | granted =>
              have hk := h.sane.fits c call (get?_of_ruling hr)
              rcases work_alike hset hb c hk hE hF with ⟨hres, h', hcalls, hnext⟩
              exact ⟨congrArg Answer.stepped hres, hsane, h', hcalls, hnext⟩
          | waits => exact ⟨rfl, hset⟩
          | deadlock => exact ⟨rfl, hsane, hset.pool, by simp only [h.calls], h.nextCall⟩

end Alike

/-- Two engines that are alike go through a run alike. -/
theorem alike_run {E : Engine ρ} {F : Engine σ} (h : E.Alike F) {evs : List Event}
    (hgo : E.Goes Undisturbed evs) (hE : ∀ a ∈ E.answers evs, a.isCrowded = false)
    (hF : ∀ a ∈ F.answers evs, a.isCrowded = false) :
    F.answers evs = E.answers evs ∧
      ∀ before, before <+: evs → (E.run before).Alike (F.run before) := by
  -- The relation is kept by every event, so the induction is over all pairs that are alike.
  induction evs generalizing E F with
  | nil =>
      refine ⟨rfl, fun before hpre => ?_⟩
      rw [List.prefix_nil.1 hpre]
      exact h
  | cons ev rest ih =>
      simp only [answers, List.forall_mem_cons] at hE hF
      rcases exec_alike h hgo.1 hgo.2.1 hE.1 hF.1 with ⟨hres, h'⟩
      rcases ih h' hgo.2.2 hE.2 hF.2 with ⟨hans, hall⟩
      refine ⟨?_, fun before hpre => ?_⟩
      · rw [answers, answers, hres, hans]
      · rcases List.prefix_cons_iff.1 hpre with rfl | ⟨before, rfl, hpre'⟩
        · exact h
        · exact hall before hpre'

/-- How many frames a pool has, and the order in which pages are made to leave, do not show. If
    neither of two runs fails to find room for a page, everything that comes back is the same in
    both, and after every event so are the locks, the calls in progress, the contents of all files,
    the bytes that are shown of every page, and which pages are dirty. -/
theorem cache_transparent {ρ σ : Type} [EvictionOrder ρ] [EvictionOrder σ] (E : Engine ρ)
    (hf : E.Fresh) (frames : Nat) (order : σ) (evs : List Event) (h : E.Goes Undisturbed evs)
    (hE : ∀ a ∈ E.answers evs, a.isCrowded = false)
    (hF : ∀ a ∈ (E.refit frames order).answers evs, a.isCrowded = false) :
    (E.refit frames order).answers evs = E.answers evs ∧
    ∀ before, before <+: evs →
      ((E.refit frames order).run before).pool.locks = (E.run before).pool.locks ∧
      ((E.refit frames order).run before).calls = (E.run before).calls ∧
      (∀ n, (((E.refit frames order).run before).pool.disk.image n).contents =
        ((E.run before).pool.disk.image n).contents) ∧
      (∀ p, ((E.refit frames order).run before).pool.shown p = (E.run before).pool.shown p) ∧
      ∀ p, ((E.refit frames order).run before).pool.cache.isDirty p =
        (E.run before).pool.cache.isDirty p := by
  rcases alike_run (hf.alike_refit frames order) h hE hF with ⟨hans, hall⟩
  refine ⟨hans, fun before hpre => ?_⟩
  have ha := hall before hpre
  exact ⟨ha.pool.locks, ha.calls, ha.pool.contents_eq, congrFun ha.pool.shown,
    ha.pool.isDirty_eq⟩

/-- A row is inserted, flushed and committed, another is inserted and rolled back, and then the
    table is scanned. -/
def flushedAndScanned : List Event :=
  .submit ⟨1⟩ (.insert { table := ⟨1⟩, rows := [#[7]] }) :: List.replicate 6 (.step ⟨0⟩) ++
    .act .flushAll :: .act (.finish ⟨1⟩ .commit) ::
      .submit ⟨2⟩ (.insert { table := ⟨1⟩, rows := [#[9]] }) :: List.replicate 8 (.step ⟨1⟩) ++
        .act (.finish ⟨2⟩ .rollback) ::
          .submit ⟨3⟩ (.advance (Cursor.start { file := .tiny, txn := ⟨3⟩ }) (.drain [])) ::
            List.replicate 6 (.step ⟨2⟩)

/-- One frame, or two of which none is ever given up. -/
theorem cache_transparent_tiny :
    ((tiny 1 ({} : Recency)).run flushedAndScanned).pool.cache.isResident ⟨⟨1⟩, 0⟩ = false ∧
    (((tiny 1 ({} : Recency)).refit 2 (⟨.nothing, {}⟩ : Arranged)).run
      flushedAndScanned).pool.cache.isResident ⟨⟨1⟩, 0⟩ = true ∧
    ((tiny 1 ({} : Recency)).refit 2 (⟨.nothing, {}⟩ : Arranged)).answers flushedAndScanned =
      (tiny 1 ({} : Recency)).answers flushedAndScanned ∧
    ∀ n, ((((tiny 1 ({} : Recency)).refit 2 (⟨.nothing, {}⟩ : Arranged)).run
        flushedAndScanned).pool.disk.image n).contents =
      (((tiny 1 ({} : Recency)).run flushedAndScanned).pool.disk.image n).contents := by
  have hgoes : (tiny 1 ({} : Recency)).Goes Undisturbed flushedAndScanned := by decide +kernel
  have h := cache_transparent (tiny 1 ({} : Recency)) (fresh_tiny 1 _) 2
    (⟨.nothing, {}⟩ : Arranged) flushedAndScanned hgoes (by decide +kernel) (by decide +kernel)
  refine ⟨?_, ?_, h.1, (h.2 _ (List.prefix_refl _)).2.2.1⟩
  all_goals decide +kernel

end Engine

end RowStore
