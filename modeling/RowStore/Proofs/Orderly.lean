import RowStore.Proofs.Requests

/-!
# One Call at a Time

Transactions that make no call before their last one has ended.

Such a transaction asks for a lock only when it has no call that waits, so the lock table
stays sound: a call that waits lacks what it waits for, and nothing its transaction does
meanwhile can change that. In particular no call is ever overtaken. So whatever is true
as long as all events are firm is true of such transactions.

## Main definitions

* `Engine.Orderly`: No transaction has two calls in progress.

## Theorems

* `Engine.orderly_submit`, `Engine.orderly_step`, `Engine.orderly_pool`: It stays so.
* `Engine.Orderly.firm`: No overtaken call is resumed.
-/

namespace RowStore

namespace Engine

variable {ρ : Type}

/-- No transaction has two calls in progress. -/
structure Orderly (E : Engine ρ) : Prop extends Listed E where
  sound : E.pool.locks.Sound
  single : ∀ c c' call call', E.calls.get? c = some call → E.calls.get? c' = some call' →
    call.txn = call'.txn → c = c'

theorem Fresh.orderly {E : Engine ρ} (h : E.Fresh) : E.Orderly where
  toListed := h.listed
  sound := h.locks ▸ LockTable.sound_empty
  single c c' call call' hc := by
    rw [h.calls] at hc
    cases hc

section Orderly

variable {E : Engine ρ} (ho : E.Orderly)

include ho

/-- No overtaken call is resumed, because there is none. -/
theorem Orderly.firm (ev : Event) : E.Firm ev := by
  cases ev with
  | step c =>
      refine firm_step_iff.2 fun w hw => ?_
      exact ho.sound.not_overtaken (LockTable.mem_of_waiterOf hw).1
  | submit _ _ | act _ => exact fun _ _ h => h

/-- What a call in progress has asked for leaves the lock table sound. -/
theorem sound_ruling {c : CallNo} {call : Call} {locks : LockTable} {v : Verdict}
    (h : E.ruling c = some (call, locks, v)) : locks.Sound := by
  rcases ruling_cases h with ⟨hcall, ⟨_, rfl, _⟩ | ⟨p, mode, _, ⟨hw, hj⟩ | ⟨w, hw, _, hj⟩⟩⟩
  · exact ho.sound
  · have hfresh := LockTable.ne_of_waiterOf hw
    -- Were another call of its transaction waiting, it would be this one, which is not.
    have hidle : E.pool.locks.Idle call.txn := by
      intro w hm heq
      rcases ho.waiting w hm with ⟨call', hcall', htxn, _⟩
      exact hfresh w hm (ho.single _ _ _ _ hcall' hcall (htxn.trans heq))
    have hsound := LockTable.sound_request ho.sound c call.txn p mode hidle hfresh
    rw [hj] at hsound
    exact hsound
  · have hsound := LockTable.sound_resume ho.sound (LockTable.mem_of_waiterOf hw).1
    rw [hj] at hsound
    exact hsound

/-- A call that begins when its transaction has none in progress. -/
theorem orderly_submit {t : TxnId} (hb : E.isBusy t = false) (task : Task) :
    (E.submit t task).2.Orderly where
  toListed := listed_submit ho.toListed t task
  sound := ho.sound
  single := by
    -- Were it in progress for this transaction, the transaction would be busy.
    have hbusy : ∀ c call, E.calls.get? c = some call → call.txn ≠ t := by
      intro c call hc heq
      have hm : call ∈ E.calls.values :=
        List.mem_map.2 ⟨(c, call), (Assoc.mem_entries_iff _ c call).2 hc, rfl⟩
      have hany : E.isBusy t = true := List.any_eq_true.2 ⟨call, hm, decide_eq_true heq⟩
      rw [hb] at hany
      cases hany
    intro c c' call call' hc hc' htxn
    -- Two calls of one transaction: the new one is its only call, and of the old no two share one.
    rcases get?_submit hc with ⟨rfl, rfl⟩ | hold
    · rcases get?_submit hc' with ⟨rfl, _⟩ | hold'
      · rfl
      · exact absurd htxn.symm (hbusy c' call' hold')
    · rcases get?_submit hc' with ⟨rfl, rfl⟩ | hold'
      · exact absurd htxn (hbusy c call hold)
      · exact ho.single c c' call call' hold hold' htxn

/-- The pool goes on by itself: it leaves the locks alone, or gives some back. -/
theorem orderly_pool {P : Pool ρ} (hl : P.locks = E.pool.locks ∨
    (∃ t, P.locks = E.pool.locks.releaseAll t) ∨ ∃ t p, P.locks = E.pool.locks.release t p) :
    Orderly { E with pool := P } where
  toListed := listed_pool ho.toListed hl
  sound := by
    rcases hl with hl | ⟨t, hl⟩ | ⟨t, p, hl⟩
    · exact hl ▸ ho.sound
    · exact hl ▸ LockTable.sound_releaseAll ho.sound t
    · exact hl ▸ LockTable.sound_release ho.sound t p
  single := ho.single

/-- A call takes a step. -/
theorem orderly_step [EvictionOrder ρ] (c : CallNo) : (E.step c).1.Orderly := by
  cases hr : E.ruling c with
  | none =>
      rw [step_eq, hr]
      exact ho
  | some r =>
      rcases r with ⟨call, locks, v⟩
      rcases step_ruled hr with ⟨hlocks, _, hcalls⟩
      refine ⟨listed_step ho.toListed c, ?_, fun c₁ c₂ call₁ call₂ h₁ h₂ htxn => ?_⟩
      · rw [hlocks]
        exact sound_ruling ho hr
      · -- No step makes a call another transaction's.
        rcases hcalls.get? (get?_of_ruling hr) h₁ with ⟨old₁, ho₁, ht₁⟩
        rcases hcalls.get? (get?_of_ruling hr) h₂ with ⟨old₂, ho₂, ht₂⟩
        exact ho.single c₁ c₂ old₁ old₂ ho₁ ho₂ (ht₁.trans (htxn.trans ht₂.symm))

end Orderly

end Engine

end RowStore
