import RowStore.Proofs.Moves
import RowStore.Recency

/-!
# Keeping Locks

A lock stays what it is until its transaction ends, if none is given back early and none
weakens.

A transaction may have any number of calls in progress, and any number of them may wait.
Of the two conditions the second is about the steps of calls: no overtaken call is
resumed, so that every event is `Firm`. Then a request adds to what its transaction
holds, and whoever owns a dirty copy goes on holding its page to write.

That is what an ending relies on. It visits the pages that its transaction holds to
write, and no others. A copy that is dirty while its owner holds the page only to read
would be written out by no commit and brought back by no rollback, and once the owner
has left it would belong to no one. `Engine.dirty_copy_is_held` says that there is none,
and `Engine.overtaken_owner` that there may be one if an overtaken call is resumed.

Of tables and files nothing is asked once a new pool has been put to use: they may be
replaced or changed by others, and flushing and restoring may fail at any page for any
reason.

## Main definitions

* `Engine.goesOn`: A call does not end by a move.
* `Move.keepsLocks`: No lock is given back early.
* `Engine.Keeps`: No lock is given back early and no overtaken call is resumed.

## Theorems

* `Engine.get?_move_other`: A call moves on by its own steps only.
* `Engine.goes_cases`: A call that does not end is where it was, or has worked.
* `Engine.kept_move`: What is kept is kept by every move that is admitted.
* `Engine.mode?_move`: What is held is held in the same way until its holder leaves.
* `Engine.held_move`: A page that is held is held until its holder leaves.
* `Engine.dirty_copy_is_held`: The owner of a dirty copy holds its page to write.
* `Engine.overtaken_owner`: It need not if an overtaken call is resumed.
-/

namespace RowStore

/-- Whether a move is a step of this call. -/
def Move.isStep {ρ : Type} (c : CallNo) : Move ρ → Bool
  | .event (.step c') => c' = c
  | _ => false

theorem Move.eq_step {ρ : Type} {c : CallNo} {m : Move ρ} (h : m.isStep c = true) :
    m = .event (.step c) := by
  cases m with
  | event ev =>
      cases ev with
      | step c' => rw [of_decide_eq_true h]
      | _ => cases h
  | _ => cases h

/-- Whether a move gives no lock back before its transaction ends. -/
def Move.keepsLocks {ρ : Type} : Move ρ → Bool
  | .event ev => ev.keepsLocks
  | .finishIn _ _ _ | .giveUp _ | .register _ | .outside _ | .reorder _ => true

namespace Engine

variable {ρ : Type}

/-! ## Calls -/

/-- A call is where it was after every move that is not a step of its own. -/
theorem get?_move_other [EvictionOrder ρ] {E : Engine ρ} (hl : E.Listed) {c : CallNo} {call : Call}
    (hcall : E.calls.get? c = some call) {m : Move ρ} (hm : m ≠ .event (.step c)) :
    (E.move m).calls.get? c = some call := by
  cases m with
  | event ev =>
      cases ev with
      | submit t task => exact (Assoc.get?_insert_other _ _ (hl.ne_next hcall)).trans hcall
      | step c' =>
          have hne : c ≠ c' := by
            rintro rfl
            exact hm rfl
          cases hr : E.ruling c' with
          | none =>
              have heq : (E.step c').1 = E := by rw [step_eq, hr]
              simp only [move, exec, heq]
              exact hcall
          | some r => exact ((step_ruled hr).2.2.get?_other hne).trans hcall
      | act a => exact hcall
  | _ => exact hcall

/-- Whether a call, if a move is a step of it, does not end by it. -/
def goesOn [EvictionOrder ρ] (E : Engine ρ) (c : CallNo) (m : Move ρ) : Bool :=
  !m.isStep c || (E.step c).2.isNone

/-- A call that does not end by a move is where it was, or it has taken a step and worked. -/
theorem goes_cases [EvictionOrder ρ] {E : Engine ρ} (hl : E.Listed) {c : CallNo} {call : Call}
    (hcall : E.calls.get? c = some call) {m : Move ρ} (hgo : E.goesOn c m = true) :
    ((E.move m).calls.get? c = some call ∧
      (m = .event (.step c) → ∀ locks, E.ruling c ≠ some (call, locks, .granted))) ∨
    ∃ locks Q task, m = .event (.step c) ∧ E.ruling c = some (call, locks, .granted) ∧
      call.task.run (E.pool.setLocks locks) call.txn = (Q, .inl task) ∧
      E.move m = { E with pool := Q, calls := E.calls.insert c { call with task } } := by
  by_cases hm : m = .event (.step c)
  · subst hm
    have hnone : (E.step c).2 = none := by simpa [goesOn, Move.isStep] using hgo
    rcases E.step_cases c with ⟨hrule, heq⟩ | ⟨call', locks, hrule, heq⟩ |
      ⟨call', locks, hrule, heq⟩ | ⟨call', locks, page, mode, hrule, _, heq⟩
    · refine Or.inl ⟨?_, fun _ locks h => by cases hrule.symm.trans h⟩
      simp only [move, exec, heq]
      exact hcall
    · -- Where the work ends the call, so would the move.
      cases hcall.symm.trans (get?_of_ruling hrule)
      cases hrun : call.task.run (E.pool.setLocks locks) call.txn with
      | mk Q r =>
          have hwork : E.step c = (E.setLocks locks).work c call := heq
          cases r with
          | inr outcome =>
              have hsome : (E.step c).2 = some outcome := by
                rw [hwork, work]
                have hrun' : call.task.run (E.setLocks locks).pool call.txn = (Q, .inr outcome) :=
                  hrun
                rw [hrun']
              cases hnone.symm.trans hsome
          | inl task =>
              refine Or.inr ⟨locks, Q, task, rfl, hrule, hrun, ?_⟩
              have hrun' : call.task.run (E.setLocks locks).pool call.txn = (Q, .inl task) := hrun
              simp only [move, exec, hwork, work, hrun']
              rfl
    · refine Or.inl ⟨?_, fun _ locks h => by cases hrule.symm.trans h⟩
      simp only [move, exec, heq]
      exact hcall
    · rw [heq] at hnone
      cases hnone
  · exact Or.inl ⟨get?_move_other hl hcall hm, fun h => absurd h hm⟩

/-! ## Locks -/

/-- What is asked of a move: no lock is given back early, no overtaken call is resumed, and an
    ending visits all the pages that its transaction holds to write. -/
def Keeps (E : Engine ρ) : Move ρ → Prop
  | .event ev => ev.keepsLocks = true ∧ E.Firm ev
  | .finishIn order t _ => ∀ p ∈ E.pool.locks.exclusivePages t, p ∈ order
  | .giveUp _ | .register _ | .outside _ | .reorder _ => True

instance (E : Engine ρ) (m : Move ρ) : Decidable (E.Keeps m) :=
  match m with
  | .event ev => inferInstanceAs (Decidable (ev.keepsLocks = true ∧ E.Firm ev))
  | .finishIn order t _ =>
    inferInstanceAs (Decidable (∀ p ∈ E.pool.locks.exclusivePages t, p ∈ order))
  | .giveUp _ | .register _ | .outside _ | .reorder _ => inferInstanceAs (Decidable True)

theorem Keeps.keepsLocks {E : Engine ρ} {m : Move ρ} (h : E.Keeps m) : m.keepsLocks = true := by
  cases m with
  | event ev => exact h.1
  | _ => rfl

/-- An overtaken call of the transaction for the page is resumed by a move. -/
def Relaxes (E : Engine ρ) (t : TxnId) (p : PageId) : Move ρ → Prop
  | .event ev => E.Weakens t p ev
  | .finishIn _ _ _ | .giveUp _ | .register _ | .outside _ | .reorder _ => False

instance (E : Engine ρ) (t : TxnId) (p : PageId) (m : Move ρ) : Decidable (E.Relaxes t p m) :=
  match m with
  | .event ev => inferInstanceAs (Decidable (E.Weakens t p ev))
  | .finishIn _ _ _ | .giveUp _ | .register _ | .outside _ | .reorder _ => isFalse id

theorem Keeps.not_relaxes {E : Engine ρ} {m : Move ρ} (h : E.Keeps m) (t : TxnId) (p : PageId) :
    ¬ E.Relaxes t p m := by
  cases m with
  | event ev => exact h.2 t p
  | _ => exact id

/-- Who holds a page to write goes on holding it so during a move, unless an overtaken call of it
    for the page is resumed. -/
theorem exclusive_during {E : Engine ρ} (hl : E.Listed) (hb : E.pool.locks.Backed) {m : Move ρ}
    {t : TxnId} {p : PageId} (hm : ¬ E.Relaxes t p m)
    (hx : E.pool.locks.mode? t p = some .exclusive) :
    (E.locksDuring m).mode? t p = some .exclusive := by
  rcases E.locksDuring_cases m with hsame | ⟨c, _, _, rfl, hr⟩
  · rw [hsame]
    exact hx
  · exact exclusive_ruling hr hl hb hx hm

variable [EvictionOrder ρ]

section Kept

variable {E : Engine ρ} (hk : E.Kept) {m : Move ρ} (hm : E.Keeps m)

include hk hm

/-- What is kept is kept by every move that is admitted. -/
theorem kept_move : (E.move m).Kept := by
  have ho := hk.owned
  cases m with
  | event ev => exact kept_exec hk hm.1 hm.2
  | finishIn order t e =>
      refine kept_pool hk (Pool.owned_finishIn ho hm e) ?_
      rcases Pool.finishIn_visited ho.tidy order t e with ⟨Q, _, hv, _, ⟨heq, _⟩ | ⟨cause, heq⟩⟩
      · rw [heq]
        exact Or.inr (Or.inl ⟨t, rfl⟩)
      · rw [heq]
        exact Or.inl hv.locks
  | giveUp t =>
      refine kept_pool hk (Pool.owned_giveUp ho) ?_
      rcases Pool.giveUp_cleaned ho.tidy t with ⟨Q, _, heq⟩
      rw [heq]
      exact Or.inr (Or.inl ⟨t, rfl⟩)
  | register f => exact kept_pool hk (ho.congr rfl rfl) (Or.inl rfl)
  | outside disk => exact kept_pool hk (ho.congr rfl rfl) (Or.inl rfl)
  | reorder order =>
      refine kept_pool hk (ho.of_owner (Cache.tidy_order ho.tidy order) rfl ?_) (Or.inl rfl)
      exact fun _ _ => Or.inl

end Kept

section stays

variable {E : Engine ρ} (ht : E.pool.cache.Tidy) {m : Move ρ} (hm : m.keepsLocks = true)
  {t : TxnId} (hstay : m.leaver? ≠ some t)

include ht hm hstay

/-- What a transaction holds during a move it holds afterwards in the same way, unless it leaves by
    the move. -/
theorem mode?_move (p : PageId) :
    (E.move m).pool.locks.mode? t p = (E.locksDuring m).mode? t p := by
  rcases locks_move ht m with hl | ⟨u, hleave, hl⟩ | ⟨u, q, rfl, _⟩
  · rw [hl]
  · have hne : t ≠ u := by
      rintro rfl
      exact hstay hleave
    rw [hl, LockTable.mode?_releaseAll, if_neg hne]
    -- A move by which a transaction leaves is no step of a call.
    rcases E.locksDuring_cases m with hsame | ⟨_, _, _, rfl, _⟩
    · rw [hsame]
    · cases hleave
  · cases hm

/-- Who holds a page to write during a move holds it so afterwards. -/
theorem exclusive_move {p : PageId} (hx : (E.locksDuring m).mode? t p = some .exclusive) :
    (E.move m).pool.locks.mode? t p = some .exclusive :=
  (mode?_move ht hm hstay p).trans hx

/-- Who holds a page, in whichever mode, goes on holding it. -/
theorem held_move {p : PageId} (hh : E.pool.locks.mode? t p ≠ none) :
    (E.move m).pool.locks.mode? t p ≠ none := by
  rw [mode?_move ht hm hstay]
  exact held_during m hh

end stays

/-- Who holds a page to write after a move held it so during the move. -/
theorem during_of_exclusive {E : Engine ρ} (ht : E.pool.cache.Tidy) {m : Move ρ} {t : TxnId}
    {p : PageId} (hx : (E.move m).pool.locks.mode? t p = some .exclusive) :
    (E.locksDuring m).mode? t p = some .exclusive := by
  rcases locks_move ht m with hl | ⟨u, hleave, hl⟩ | ⟨u, q, rfl, hl⟩
  · exact hl ▸ hx
  · rw [hl, LockTable.mode?_releaseAll] at hx
    split at hx
    · cases hx
    · rcases E.locksDuring_cases m with hsame | ⟨_, _, _, rfl, _⟩
      · exact hsame ▸ hx
      · cases hleave
  · rw [hl, LockTable.mode?_release] at hx
    split at hx
    · cases hx
    · exact hx

theorem Arises.kept {ok : Engine ρ → Move ρ → Prop} (hok : ∀ E m, ok E m → E.Keeps m)
    {E : Engine ρ} (h : E.Arises ok) : E.Kept := by
  induction h with
  | fresh h => exact h.kept
  | move h hm ih => exact kept_move ih (hok _ _ hm)

/-! ## Owners of dirty copies -/

/-- If no lock is given back before its transaction ends and no overtaken call is resumed, whoever
    was the last to change a resident copy that is dirty holds its page to write, by the account of
    the page and by that of the transaction. So a transaction without locks is the owner of no dirty
    copy. -/
theorem dirty_copy_is_held {E : Engine ρ} (h : E.Arises Keeps) :
    (∀ p page t, E.pool.cache.page? p = some page → page.dirtiedBy = some t →
      (E.pool.locks.holdersOf p).exclusive = some t ∧ p ∈ E.pool.locks.exclusivePages t) ∧
    ∀ t, E.pool.locks.lockedPages t = [] →
      ∀ p page, E.pool.cache.page? p = some page → page.dirtiedBy ≠ some t := by
  have hk := h.kept fun _ _ => id
  have hheld : ∀ p page t, E.pool.cache.page? p = some page → page.dirtiedBy = some t →
      E.pool.locks.mode? t p = some .exclusive :=
    fun p page t hp hd => hk.owned.held p t ((Pool.owner?_of_page hp).trans hd)
  refine ⟨fun p page t hp hd => ?_, fun t ht p page hp hd => ?_⟩
  · have hx := hheld p page t hp hd
    exact ⟨hk.agreed.backed.exclusive t p hx, (LockTable.mem_exclusivePages _ _ _).2 hx⟩
  · have hx := hheld p page t hp hd
    have hm : p ∈ E.pool.locks.lockedPages t :=
      (Assoc.mem_keys_iff _ p).2 (Option.isSome_iff_exists.2 ⟨_, hx⟩)
    rw [ht] at hm
    cases hm

/-- A transaction writes a page while the device refuses everything. It can neither commit nor roll
    back, so the page is made to leave. Another transaction writes the page then, and the first one
    tries to go on by the handle that it has kept. -/
def givenUp : List (Move Recency) :=
  [.event (.submit ⟨1⟩ (.fetch ⟨⟨1⟩, 0⟩ .readWrite true)), .event (.step ⟨0⟩),
    .event (.act (.write ⟨0⟩ (.fill 5))),
    .event (.act (.device ⟨fun _ => some .notFound, fun _ => some .notFound⟩)),
    .event (.act (.close ⟨1⟩ .commit)), .event (.act (.device {})),
    .event (.submit ⟨2⟩ (.fetch ⟨⟨1⟩, 0⟩ .readWrite true)), .event (.step ⟨1⟩),
    .event (.act (.write ⟨1⟩ (.fill 7))), .event (.act (.write ⟨0⟩ (.fill 9)))]

/-- The page belongs to the second transaction, which holds it, and the first one owns nothing. -/
theorem dirty_copy_is_held_givenUp :
    ((tiny 1 ({} : Recency)).moves givenUp).pool.cache.page? ⟨⟨1⟩, 0⟩ =
      some ⟨⟨⟨1⟩, 0⟩, #[7, 7], some ⟨2⟩⟩ ∧
    (((tiny 1 ({} : Recency)).moves givenUp).pool.locks.holdersOf ⟨⟨1⟩, 0⟩).exclusive = some ⟨2⟩ ∧
    ⟨⟨1⟩, 0⟩ ∈ ((tiny 1 ({} : Recency)).moves givenUp).pool.locks.exclusivePages ⟨2⟩ ∧
    ∀ p page, ((tiny 1 ({} : Recency)).moves givenUp).pool.cache.page? p = some page →
      page.dirtiedBy ≠ some ⟨1⟩ := by
  have harises : ((tiny 1 ({} : Recency)).moves givenUp).Arises Keeps :=
    (Arises.fresh (fresh_tiny 1 ({} : Recency))).moves (by decide +kernel)
  have h := dirty_copy_is_held harises
  have hp : ((tiny 1 ({} : Recency)).moves givenUp).pool.cache.page? ⟨⟨1⟩, 0⟩ =
      some ⟨⟨⟨1⟩, 0⟩, #[7, 7], some ⟨2⟩⟩ := by decide +kernel
  have hl : ((tiny 1 ({} : Recency)).moves givenUp).pool.locks.lockedPages ⟨1⟩ = [] := by
    decide +kernel
  exact ⟨hp, (h.1 _ _ _ hp rfl).1, (h.1 _ _ _ hp rfl).2, h.2 ⟨1⟩ hl⟩

/-- A call is resumed that was overtaken, as moves of a pool. -/
def overtakenMoves : List (Move Recency) := overtakenReader.map .event

/-- No lock was given back early, and yet the copy is dirty of a transaction that holds its page
    only to read, and none to write. -/
theorem overtaken_owner :
    ((tiny 1 ({} : Recency)).moves overtakenMoves).Arises (fun _ m => m.keepsLocks = true) ∧
    ((tiny 1 ({} : Recency)).moves overtakenMoves).pool.cache.page? ⟨⟨1⟩, 0⟩ =
      some ⟨⟨⟨1⟩, 0⟩, #[5, 5], some ⟨1⟩⟩ ∧
    ((tiny 1 ({} : Recency)).moves overtakenMoves).pool.locks.mode? ⟨1⟩ ⟨⟨1⟩, 0⟩ =
      some .shared ∧
    ((tiny 1 ({} : Recency)).moves overtakenMoves).pool.locks.exclusivePages ⟨1⟩ = [] :=
  ⟨(Arises.fresh (fresh_tiny 1 ({} : Recency))).moves (by decide +kernel), by decide +kernel,
    by decide +kernel, by decide +kernel⟩

end Engine

end RowStore
