import RowStore.Proofs.Lock.Growth
import RowStore.Proofs.Run

/-!
# Calls and Locks

How the calls in progress and the lock table go together.

Every call that waits in the lock table is in progress, at the point whose lock it waits
for. A call that goes to work at a point is on the page that the point demands. So much
is true whatever calls a transaction makes at a time and in whichever order they take
their steps. No request takes a page from anyone, and a page that is written is kept
from all other transactions.

One kind of step does harm. A transaction may have a call that waits to read a page, and
come to write the page by another call of its own. If the first one, which is overtaken
then, is resumed, its transaction holds the page only to read it by its account. An
event is `Firm` if it resumes no overtaken call. As long as all events are, a request
adds to what its transaction holds, the two accounts of the lock table agree, and a call
that goes to work holds the lock that its point demands.

## Main definitions

* `Engine.Listed`: The calls that wait are in progress, at the points whose locks they wait for.
* `Engine.Weakens`: An overtaken call of a transaction for a page is resumed.
* `Engine.Firm`: No overtaken call is resumed.
* `Engine.overtakenReader`: A run in which one is.

## Theorems

* `Engine.ruling_judged`: A call has its lock or needs none, or it is judged.
* `Engine.grows_ruling`, `Engine.agreed_ruling`: What a firm request makes of the locks.
* `Engine.held_ruling`, `Engine.others_ruling`, `Engine.guarded_ruling`: What any request makes of
  them.
* `Engine.exclusive_ruling`: Who holds a page to write goes on so, or its overtaken call is resumed.
* `Engine.held_demand`, `Engine.enough_demand`: A call that goes to work is on its page, and holds
  the lock that its point demands.
* `Engine.listed_exec`: Calls and locks go on together.
-/

namespace RowStore

deriving instance DecidableEq for Outcome

namespace Engine

variable {ρ : Type}

/-- Every call that waits is in progress at the point whose lock it waits for, and the number of the
    next call is new. -/
structure Listed (E : Engine ρ) : Prop where
  waiting : ∀ w ∈ E.pool.locks.waiters, ∃ call, E.calls.get? w.call = some call ∧
    call.txn = w.txn ∧ call.task.demand = some (w.page, w.mode)
  numbered : ∀ c call, E.calls.get? c = some call → c.val < E.nextCall

/-- An overtaken call of the transaction for the page is resumed. -/
def Weakens (E : Engine ρ) (t : TxnId) (p : PageId) : Event → Prop
  | .step c => ∃ w, E.pool.locks.waiterOf c = some w ∧ E.pool.locks.Overtaken w ∧
    w.txn = t ∧ w.page = p
  | .submit _ _ | .act _ => False

/-- No overtaken call is resumed. -/
def Firm (E : Engine ρ) (ev : Event) : Prop := ∀ t p, ¬ E.Weakens t p ev

theorem firm_step_iff {E : Engine ρ} {c : CallNo} :
    E.Firm (.step c) ↔ ∀ w ∈ E.pool.locks.waiterOf c, ¬ E.pool.locks.Overtaken w := by
  constructor
  · exact fun h w hw ho => h w.txn w.page ⟨w, hw, ho, rfl, rfl⟩
  · rintro h t p ⟨w, hw, ho, _⟩
    exact h w hw ho

instance (E : Engine ρ) (ev : Event) : Decidable (E.Firm ev) :=
  match ev with
  | .step _ => decidable_of_iff' _ firm_step_iff
  | .submit _ _ | .act _ => isTrue fun _ _ h => h

instance (E : Engine ρ) (t : TxnId) (p : PageId) (ev : Event) : Decidable (E.Weakens t p ev) :=
  match ev with
  | .step c => decidable_of_iff (∃ w ∈ E.pool.locks.waiterOf c, E.pool.locks.Overtaken w ∧
      w.txn = t ∧ w.page = p) Iff.rfl
  | .submit _ _ | .act _ => isFalse id

theorem Listed.ne_next {E : Engine ρ} (hl : E.Listed) {c : CallNo} {call : Call}
    (h : E.calls.get? c = some call) : c ≠ ⟨E.nextCall⟩ := by
  rintro rfl
  exact Nat.lt_irrefl _ (hl.numbered _ call h)

theorem Fresh.listed {E : Engine ρ} (h : E.Fresh) : E.Listed where
  waiting w hw := by
    rw [h.locks] at hw
    cases hw
  numbered c call hc := by
    rw [h.calls] at hc
    cases hc

/-! ## What becomes of a request -/

section ruling

variable {E : Engine ρ} {c : CallNo} {call : Call} {locks : LockTable} {v : Verdict}
  (h : E.ruling c = some (call, locks, v))

include h

/-- No request takes a page from anyone. -/
theorem held_ruling {t : TxnId} {p : PageId} (hh : E.pool.locks.mode? t p ≠ none) :
    locks.mode? t p ≠ none := by
  -- The call asks for no lock, or for the first time, or once more after it has waited.
  rcases ruling_cases h with ⟨_, ⟨_, rfl, _⟩ | ⟨page, mode, _, ⟨_, hj⟩ | ⟨w, _, _, hj⟩⟩⟩
  · exact hh
  · unfold LockTable.request at hj
    split at hj
    · cases hj
      exact hh
    · have hkeep := E.pool.locks.held_judge c call.txn page mode hh
      rw [hj] at hkeep
      exact hkeep
  · have hkeep := (E.pool.locks.without w).held_judge w.call w.txn w.page w.mode hh
    rw [← LockTable.resume_eq, hj] at hkeep
    exact hkeep

/-- Every request leaves the writers of pages to themselves. -/
theorem guarded_ruling (hg : E.pool.locks.Guarded) : locks.Guarded := by
  rcases ruling_cases h with ⟨_, ⟨_, rfl, _⟩ | ⟨page, mode, _, ⟨_, hj⟩ | ⟨w, _, _, hj⟩⟩⟩
  · exact hg
  · have hafter := LockTable.guarded_request hg c call.txn page mode
    rw [hj] at hafter
    exact hafter
  · have hafter := LockTable.guarded_resume hg w
    rw [hj] at hafter
    exact hafter

variable (hl : E.Listed)

include hl

/-- A call has its lock or needs none, and then it does not wait. Or it is judged on the table of
    the others, and asks for no less than its transaction has unless it was overtaken. -/
theorem ruling_judged :
    (locks = E.pool.locks ∧ ∀ w ∈ locks.waiters, w.call ≠ c) ∨
    ∃ p mode, call.task.demand = some (p, mode) ∧
      (¬ E.Weakens call.txn p (.step c) → E.pool.locks.Adds call.txn p mode) ∧
      (E.pool.locks.dismiss c).judge c call.txn p mode = (locks, v) := by
  rcases ruling_cases h with ⟨hcall, ⟨hd, rfl, _⟩ | ⟨p, mode, hd, ⟨hw, hreq⟩ | ⟨w, hw, _, hreq⟩⟩⟩
  · refine Or.inl ⟨rfl, ?_⟩
    -- A call that waits is at a point with a demand.
    rintro w hw rfl
    rcases hl.waiting w hw with ⟨call', hcall', _, hd'⟩
    cases hcall.symm.trans hcall'
    cases hd.symm.trans hd'
  · unfold LockTable.request at hreq
    split at hreq
    · cases hreq
      exact Or.inl ⟨rfl, LockTable.ne_of_waiterOf hw⟩
    · rename_i hh
      rw [← LockTable.dismiss_of_none hw] at hreq
      have hadds := LockTable.adds_of_lacking (Bool.not_eq_true _ ▸ hh)
      exact Or.inr ⟨p, mode, hd, fun _ => hadds, hreq⟩
  · -- What it waits for is what it demands.
    rcases LockTable.mem_of_waiterOf hw with ⟨hm, rfl⟩
    rcases hl.waiting w hm with ⟨call', hcall', htxn, hd'⟩
    cases hcall.symm.trans hcall'
    cases hd.symm.trans hd'
    rw [htxn]
    refine Or.inr ⟨w.page, w.mode, hd', fun hfirm => ?_, hreq⟩
    exact LockTable.adds_of_not_overtaken fun ho => hfirm ⟨w, hw, ho, rfl, rfl⟩

/-- No request touches what other transactions hold. -/
theorem others_ruling {u : TxnId} (hu : u ≠ call.txn) (p : PageId) :
    locks.mode? u p = E.pool.locks.mode? u p := by
  rcases ruling_judged h hl with ⟨rfl, _⟩ | ⟨q, mode, _, _, hj⟩
  · rfl
  · have hsame := LockTable.mode?_judge_other (l := E.pool.locks.dismiss c) c q mode hu p
    rw [hj] at hsame
    exact hsame

/-- Who holds a page to write goes on holding it so, unless an overtaken call of it for the page is
    resumed. -/
theorem exclusive_ruling (hb : E.pool.locks.Backed) {t : TxnId} {p : PageId}
    (hx : E.pool.locks.mode? t p = some .exclusive) (hfirm : ¬ E.Weakens t p (.step c)) :
    locks.mode? t p = some .exclusive := by
  rcases ruling_judged h hl with ⟨rfl, _⟩ | ⟨q, mode, _, hadds, hj⟩
  · exact hx
  · -- The table without the waiting call holds the same, and the call is judged on that.
    have hb' : (E.pool.locks.dismiss c).Backed := ⟨hb.exclusive, hb.covered⟩
    have hkeep := LockTable.exclusive_judge hb'
      (fun ht hp => hadds (ht ▸ hp ▸ hfirm)) hx c
    rw [hj] at hkeep
    exact hkeep

/-- A request that is firm adds to what its transaction holds, and takes nothing from anyone. -/
theorem grows_ruling (hb : E.pool.locks.Backed) (hfirm : E.Firm (.step c)) :
    E.pool.locks.Grows call.txn locks := by
  rcases ruling_judged h hl with ⟨rfl, _⟩ | ⟨p, mode, _, hadds, hj⟩
  · exact LockTable.Grows.of_mode?_eq _ fun _ _ => rfl
  · have hb' : (E.pool.locks.dismiss c).Backed := ⟨hb.exclusive, hb.covered⟩
    have hg := LockTable.grows_judge hb' (hadds (hfirm _ _)) c
    rw [hj] at hg
    exact ⟨hg.others, hg.held, hg.exclusive⟩

/-- It leaves the accounts in agreement. -/
theorem agreed_ruling (ha : E.pool.locks.Agreed) (hfirm : E.Firm (.step c)) : locks.Agreed := by
  rcases ruling_judged h hl with ⟨rfl, _⟩ | ⟨p, mode, _, hadds, hj⟩
  · exact ha
  · have hd : (E.pool.locks.dismiss c).Agreed := ⟨ha.agree, ha.alone⟩
    have hafter := LockTable.agreed_judge hd (hadds (hfirm _ _)) c
    rw [hj] at hafter
    exact hafter

/-- Who waits after a request waited before, or is the call that made it. -/
theorem waiters_ruling {w : Waiter} (hw : w ∈ locks.waiters) :
    (w.call ≠ c ∧ ∃ u ∈ E.pool.locks.waiters,
      u.call = w.call ∧ u.txn = w.txn ∧ u.page = w.page ∧ u.mode = w.mode) ∨
    (v = .waits ∧ w.call = c ∧ w.txn = call.txn ∧ call.task.demand = some (w.page, w.mode)) := by
  rcases ruling_judged h hl with ⟨rfl, hne⟩ | ⟨p, mode, hd, _, hj⟩
  · exact Or.inl ⟨hne w hw, w, hw, rfl, rfl, rfl, rfl⟩
  · rcases LockTable.mem_waiters_judge hj hw with ⟨u, hu, hcall, hrest⟩ | ⟨hv, hc, ht, hp, hmode⟩
    · rcases LockTable.mem_dismiss hu with ⟨hm, hne⟩
      exact Or.inl ⟨hcall ▸ hne, u, hm, hcall, hrest⟩
    · exact Or.inr ⟨hv, hc, ht, by rw [hd, hp, hmode]⟩

end ruling

section demand

variable {E : Engine ρ} (hl : E.Listed) {c : CallNo} {call : Call} {locks : LockTable}
  (h : E.ruling c = some (call, locks, .granted)) {p : PageId} {mode : LockMode}
  (hd : call.task.demand = some (p, mode))

include hl h hd

/-- A call that goes to work has been found to have its lock, or is granted it now. -/
theorem demand_cases :
    (locks = E.pool.locks ∧ (E.pool.locks.holdersOf p).holds call.txn mode = true) ∨
    locks.Enough call.txn p mode := by
  rcases ruling_cases h with ⟨hcall, ⟨hnone, _⟩ | ⟨_, _, hd', ⟨_, hreq⟩ | ⟨w, hw, _, hreq⟩⟩⟩
  · cases hd.symm.trans hnone
  · cases hd.symm.trans hd'
    exact LockTable.request_granted hreq
  · -- What it waited for is what it demands.
    rcases LockTable.mem_of_waiterOf hw with ⟨hm, rfl⟩
    rcases hl.waiting w hm with ⟨call', hcall', htxn, hd'⟩
    cases hcall.symm.trans hcall'
    cases hd.symm.trans hd'
    rw [LockTable.resume_eq] at hreq
    rw [htxn]
    exact Or.inr (LockTable.enough_judge hreq)

/-- A call that goes to work is on the page that its point demands. -/
theorem held_demand (hb : E.pool.locks.Backed) : locks.mode? call.txn p ≠ none := by
  rcases demand_cases hl h hd with ⟨rfl, hh⟩ | he
  · exact hb.held hh
  · exact he.held

/-- It holds the lock that its point demands, if the accounts of the lock table agree. -/
theorem enough_demand (ha : E.pool.locks.Agreed) : locks.Enough call.txn p mode := by
  rcases demand_cases hl h hd with ⟨rfl, hh⟩ | he
  · exact ha.enough hh
  · exact he

end demand

/-! ## Calls in progress -/

/-- What has become of a call and the others when it took a step: it waits, or it has ended, or it
    is at another point. -/
def Stepped (E : Engine ρ) (c : CallNo) (call : Call) (v : Verdict) (E' : Engine ρ) : Prop :=
  E'.calls = E.calls ∨ v ≠ .waits ∧ (E'.calls = E.calls.erase c ∨
    ∃ task, E'.calls = E.calls.insert c { call with task })

/-- A step leaves the locks as the ruling has made them, whatever the call does under them. -/
theorem step_ruled [EvictionOrder ρ] {E : Engine ρ} {c : CallNo} {call : Call} {locks : LockTable}
    {v : Verdict} (h : E.ruling c = some (call, locks, v)) :
    (E.step c).1.pool.locks = locks ∧ (E.step c).1.nextCall = E.nextCall ∧
      E.Stepped c call v (E.step c).1 := by
  refine ⟨(worked_step h).locks, ?_⟩
  rw [step_eq, h]
  cases v with
  | granted =>
      refine ⟨?_, Or.inr ⟨Verdict.noConfusion, ?_⟩⟩
      · simp only [work]
        split <;> rfl
      · rcases (E.setLocks locks).calls_work c call with ⟨task, _, _, hcalls⟩ | ⟨_, _, _, hcalls⟩
        · exact Or.inr ⟨task, hcalls⟩
        · exact Or.inl hcalls
  | waits => exact ⟨rfl, Or.inl rfl⟩
  | deadlock => exact ⟨rfl, Or.inr ⟨Verdict.noConfusion, Or.inl rfl⟩⟩

/-- Of a call in progress nothing changes in a step but perhaps its point, if it is the call that
    takes the step. -/
theorem Stepped.get? {E E' : Engine ρ} {c : CallNo} {call : Call} {v : Verdict}
    (h : E.Stepped c call v E') (hcall : E.calls.get? c = some call) {c' : CallNo} {call' : Call}
    (hc' : E'.calls.get? c' = some call') :
    ∃ old, E.calls.get? c' = some old ∧ old.txn = call'.txn := by
  rcases h with hsame | ⟨_, herase | ⟨task, hins⟩⟩
  · rw [hsame] at hc'
    exact ⟨call', hc', rfl⟩
  · rw [herase, Assoc.get?_erase] at hc'
    split at hc'
    · cases hc'
    · exact ⟨call', hc', rfl⟩
  · rw [hins, Assoc.get?_insert] at hc'
    split at hc'
    · rename_i heq
      cases hc'
      exact ⟨call, heq ▸ hcall, rfl⟩
    · exact ⟨call', hc', rfl⟩

/-- The other calls are where they were. -/
theorem Stepped.get?_other {E E' : Engine ρ} {c : CallNo} {call : Call} {v : Verdict}
    (h : E.Stepped c call v E') {c' : CallNo} (hne : c' ≠ c) :
    E'.calls.get? c' = E.calls.get? c' := by
  rcases h with hsame | ⟨_, herase | ⟨task, hins⟩⟩
  · rw [hsame]
  · rw [herase, Assoc.get?_erase_other _ hne]
  · rw [hins, Assoc.get?_insert_other _ _ hne]

section Listed

variable {E : Engine ρ} (hl : E.Listed)

include hl

/-- A call begins. -/
theorem listed_submit (t : TxnId) (task : Task) : (E.submit t task).2.Listed where
  waiting w hw := by
    rcases hl.waiting w hw with ⟨call, hc, hrest⟩
    exact ⟨call, (Assoc.get?_insert_other _ _ (hl.ne_next hc)).trans hc, hrest⟩
  numbered c call hc := by
    rcases get?_submit hc with ⟨rfl, _⟩ | hold
    · exact Nat.lt_succ_self _
    · exact Nat.lt_succ_of_lt (hl.numbered c call hold)

/-- Those who wait may be woken, but they wait for what they waited for. -/
theorem listed_stirred {E' : Engine ρ} {S : PageId → Bool} (hcalls : E'.calls = E.calls)
    (hnext : E'.nextCall = E.nextCall)
    (hst : LockTable.Stirred E.pool.locks E'.pool.locks S) : E'.Listed where
  waiting w hw := by
    rw [hst.waiters] at hw
    rcases List.mem_map.1 hw with ⟨v, hv, rfl⟩
    rw [hcalls, LockTable.rouse_call, LockTable.rouse_txn, LockTable.rouse_page,
      LockTable.rouse_mode]
    exact hl.waiting v hv
  numbered := by
    rw [hcalls, hnext]
    exact hl.numbered

/-- The pool goes on by itself: it leaves the locks alone, or gives some back. -/
theorem listed_pool {P : Pool ρ} (hlocks : P.locks = E.pool.locks ∨
    (∃ t, P.locks = E.pool.locks.releaseAll t) ∨ ∃ t p, P.locks = E.pool.locks.release t p) :
    Listed { E with pool := P } := by
  rcases hlocks with hlocks | ⟨t, hlocks⟩ | ⟨t, p, hlocks⟩
  · exact ⟨hlocks ▸ hl.waiting, hl.numbered⟩
  · rcases E.pool.locks.stirred_releaseAll t with ⟨S, hst⟩
    exact listed_stirred hl rfl rfl (hlocks ▸ hst)
  · rcases E.pool.locks.stirred_release t p with ⟨S, hst⟩
    exact listed_stirred hl rfl rfl (hlocks ▸ hst)

/-- A call takes a step: it goes on, ends or waits. -/
theorem listed_step [EvictionOrder ρ] (c : CallNo) : (E.step c).1.Listed := by
  cases hr : E.ruling c with
  | none =>
      rw [step_eq, hr]
      exact hl
  | some r =>
      rcases r with ⟨call, locks, v⟩
      rcases step_ruled hr with ⟨hlocks, hnext, hcalls⟩
      have hcall := get?_of_ruling hr
      refine ⟨fun w hm => ?_, fun c' call' hc' => ?_⟩
      · rw [hlocks] at hm
        -- Who waits now waited before, and then is another call than this one, or is this one.
        rcases waiters_ruling hr hl hm with ⟨hne, u, hu, hcu, htu, hpu, hmu⟩ | ⟨rfl, hwc, hwt, hwd⟩
        · rcases hl.waiting u hu with ⟨call', hc', ht', hd'⟩
          rw [hcu] at hc'
          exact ⟨call', (hcalls.get?_other hne).trans hc', ht'.trans htu,
            by rw [← hpu, ← hmu]; exact hd'⟩
        · rcases hcalls with hsame | ⟨hv, _⟩
          · exact ⟨call, by rw [hsame, hwc]; exact hcall, hwt.symm, hwd⟩
          · exact absurd rfl hv
      · rcases hcalls.get? hcall hc' with ⟨old, hold, _⟩
        rw [hnext]
        exact hl.numbered c' old hold

/-- Calls and locks go on together whatever happens. -/
theorem listed_exec [EvictionOrder ρ] (ht : E.pool.cache.Tidy) (ev : Event) :
    (E.exec ev).1.Listed := by
  cases ev with
  | submit t task => exact listed_submit hl t task
  | step c => exact listed_step hl c
  | act a => exact listed_pool hl (Pool.act_locks ht a)

end Listed

/-- A transaction has two calls that wait for a page, the first to read it and the second to write
    it, when the writer of the page commits. The second goes on first, and the transaction writes
    the page. Then the first one, which was overtaken, goes on. -/
def overtakenReader : List Event :=
  [.submit ⟨2⟩ (.fetch ⟨⟨1⟩, 0⟩ .readWrite false), .step ⟨0⟩,
    .submit ⟨1⟩ (.fetch ⟨⟨1⟩, 0⟩ .readOnly false), .step ⟨1⟩,
    .submit ⟨1⟩ (.fetch ⟨⟨1⟩, 0⟩ .readWrite true), .step ⟨2⟩,
    .act (.close ⟨2⟩ .commit), .step ⟨2⟩, .act (.write ⟨0⟩ (.fill 5)), .step ⟨1⟩]

end Engine

end RowStore
