import RowStore.Proofs.Ownership

/-!
# Moves of a Pool and of the World around It

Everything that can happen to a pool, to the calls at work on it, and around it.

An event is something that a pool is asked to do, and it is done in one way. A move can
also be one that nobody asks the pool for: an ending that visits its pages in an order
of its own, a transaction that is given up, a table that becomes known or is replaced,
a file that others change, a record of use that comes to propose other pages. With the
last of these an order of eviction is as free as it can be, because between any two
uses it may be made another one.

Some statements hold whatever the moves are. Others ask something of each move, and
`Engine.Arises` is a state that was come to by moves which were as asked when they were
made.

## Main definitions

* `Move`: What can happen to a pool and around it.
* `Engine.move`, `Engine.moves`: The engine after a move, and after some of them.
* `Engine.Arises`: The states that can be come to by admitted moves.
* `Engine.Admits`: A run in which every move is admitted.
* `Engine.locksDuring`: The locks under which the work of a move is done.

## Theorems

* `Engine.tidy_move`: Pages, frames and handles fit together whatever happens.
* `Engine.locks_move`: Locks stay as they were during the move, or some are given back.
* `Engine.listed_move`: The calls that wait are in progress whatever happens.
* `Engine.guarded_move`: The writer of a page keeps all others off it whatever happens.
* `Engine.held_during`: A page that is held is held during a move.
-/

namespace RowStore

/-- What can happen to a pool and around it. -/
inductive Move (ρ : Type)
  /-- A call begins or takes a step, or the pool is asked for something that needs no lock. -/
  | event (ev : Event)
  /-- An ending is tried that visits its pages in this order. -/
  | finishIn (order : List PageId) (t : TxnId) (e : Ending)
  /-- A transaction is given up that could not be rolled back. -/
  | giveUp (t : TxnId)
  /-- A table becomes known, or is known by another file. -/
  | register (f : TableFile)
  /-- Others change files. -/
  | outside (disk : Disk)
  /-- The record of use becomes another one. -/
  | reorder (order : ρ)

/-- The transaction that may give all its locks back by a move. -/
def Move.leaver? {ρ : Type} : Move ρ → Option TxnId
  | .event (.act a) => a.leaver?
  | .finishIn _ t _ | .giveUp t => some t
  | .event (.submit _ _) | .event (.step _) | .register _ | .outside _ | .reorder _ => none

namespace Pool

variable {ρ : Type}

theorem tidy_alter {P : Pool ρ} (ht : P.cache.Tidy) {h : Handle} (hg : P.Grasps h) {α : Type}
    (work : Bytes → Except StoreError (α × Bytes)) : (P.alter h work).1.cache.Tidy := by
  have hmarked : (P.marked h).cache.Tidy := Cache.tidy_updateFrame ht h.frame fun _ => rfl
  rcases alter_cases hg work with ⟨e, _, heq⟩ | ⟨_, e, _, heq⟩ | ⟨_, a, bytes, _, heq⟩
  · rw [heq]
    exact ht
  · rw [heq]
    exact hmarked
  · rw [heq]
    exact Cache.tidy_updateFrame hmarked h.frame fun _ => rfl

variable [EvictionOrder ρ]

theorem tidy_worked {P Q : Pool ρ} {t : TxnId} (ht : P.cache.Tidy) (h : Task.Worked t P Q) :
    Q.cache.Tidy := by
  cases h with
  | same => exact ht
  | grown h => exact ht
  | fetched p => exact (fetch_tidy ht (p := p) rfl).1
  | kept access h =>
      rcases fetch_tidy ht h with ⟨hR, _, hres⟩
      exact Cache.tidy_pin hR (hres _ rfl)
  | @altered p f R α work hsize h =>
      rcases fetch_tidy ht h with ⟨hR, _, hres⟩
      exact tidy_alter (h := ⟨p, f, t, .readWrite⟩) hR (hR.framed p f (hres f rfl)) work

theorem tidy_act {P : Pool ρ} (ht : P.cache.Tidy) (a : Action) : (P.act a).1.cache.Tidy := by
  have hround : ∀ l, (P.forEach flush l).1.cache.Tidy := by
    intro l
    rcases visited_forEach_flush l ht with ⟨_, hv⟩
    exact hv.tidy
  cases a with
  | write n e =>
      simp only [act, edit]
      cases hn : P.cache.handles.get? n with
      | none => exact ht
      | some h => exact tidy_alter ht (ht.handled n h hn) _
  | drop n => exact Cache.tidy_unpin ht n
  | finish t e =>
      simp only [act, finish]
      rcases finishIn_visited ht (P.locks.exclusivePages t) t e with
        ⟨Q, _, hv, _, ⟨heq, _⟩ | ⟨cause, heq⟩⟩
      · rw [heq]
        exact hv.tidy
      · rw [heq]
        exact hv.tidy
  | close t e =>
      rcases close_cleaned ht t e with ⟨Q, _, hc, _, heq⟩
      simp only [act, heq]
      exact hc.tidy
  | abandon t =>
      rcases abandon_cleaned ht t with ⟨Q, _, hc, _, heq⟩
      simp only [act, heq]
      exact hc.tidy
  | grow t =>
      simp only [act, grow]
      split
      · exact ht
      · split <;> exact ht
  | flushAll => exact hround _
  | flushTxn t => exact hround _
  | discard p => exact Cache.tidy_discard ht p
  | begin | read _ | releasePage _ _ | releaseLocks _ | device _ => exact ht

end Pool

namespace Engine

variable {ρ : Type} [EvictionOrder ρ]

/-- The engine after a move. -/
def move (E : Engine ρ) : Move ρ → Engine ρ
  | .event ev => (E.exec ev).1
  | .finishIn order t e => { E with pool := (E.pool.finishIn order t e).1 }
  | .giveUp t => { E with pool := E.pool.giveUp t }
  | .register f => { E with pool := E.pool.register f }
  | .outside disk => { E with pool := { E.pool with disk } }
  | .reorder order => { E with pool := { E.pool with cache := { E.pool.cache with order } } }

/-- The engine after some moves. -/
def moves (E : Engine ρ) : List (Move ρ) → Engine ρ
  | [] => E
  | m :: rest => (E.move m).moves rest

/-- What can come of a pool on which nothing has been done, by moves that are admitted. -/
inductive Arises (ok : Engine ρ → Move ρ → Prop) : Engine ρ → Prop
  | fresh {E : Engine ρ} (h : E.Fresh) : Arises ok E
  | move {E : Engine ρ} {m : Move ρ} (h : Arises ok E) (hm : ok E m) : Arises ok (E.move m)

/-- Every one of some moves is admitted when it is made. -/
def Admits (ok : Engine ρ → Move ρ → Prop) (E : Engine ρ) : List (Move ρ) → Prop
  | [] => True
  | m :: rest => ok E m ∧ Admits ok (E.move m) rest

instance Admits.decidable (ok : Engine ρ → Move ρ → Prop) [∀ E m, Decidable (ok E m)] :
    ∀ (E : Engine ρ) (ms : List (Move ρ)), Decidable (E.Admits ok ms)
  | _, [] => inferInstanceAs (Decidable True)
  | E, m :: rest =>
    have := Admits.decidable ok (E.move m) rest
    inferInstanceAs (Decidable (ok E m ∧ Admits ok (E.move m) rest))

/-- What every admitted move leads on to is so at the end of a run, and what is so of every admitted
    move is so of a run. -/
theorem Admits.along {ok ok' : Engine ρ → Move ρ → Prop} {I : Engine ρ → Prop}
    (hstep : ∀ E m, I E → ok E m → I (E.move m)) (himp : ∀ E m, I E → ok E m → ok' E m)
    {E : Engine ρ} (hI : I E) {ms : List (Move ρ)} (hms : E.Admits ok ms) :
    I (E.moves ms) ∧ E.Admits ok' ms := by
  induction ms generalizing E with
  | nil => exact ⟨hI, trivial⟩
  | cons m rest ih =>
      rcases ih (hstep E m hI hms.1) hms.2 with ⟨hend, hrest⟩
      exact ⟨hend, himp E m hI hms.1, hrest⟩

/-- What comes of moves that are admitted comes of moves of which less is asked. -/
theorem Arises.mono {ok ok' : Engine ρ → Move ρ → Prop} (hok : ∀ E m, ok E m → ok' E m)
    {E : Engine ρ} (h : E.Arises ok) : E.Arises ok' := by
  induction h with
  | fresh h => exact .fresh h
  | move _ hm ih => exact .move ih (hok _ _ hm)

/-- A run leads from one such state to another. -/
theorem Arises.moves {ok : Engine ρ → Move ρ → Prop} {E : Engine ρ} (h : E.Arises ok)
    {ms : List (Move ρ)} (hms : E.Admits ok ms) : (E.moves ms).Arises ok := by
  induction ms generalizing E with
  | nil => exact h
  | cons m rest ih => exact ih (.move h hms.1) hms.2

theorem moves_append (E : Engine ρ) (l l' : List (Move ρ)) :
    E.moves (l ++ l') = (E.moves l).moves l' := by
  induction l generalizing E with
  | nil => rfl
  | cons m rest ih => exact ih (E.move m)

/-- A run can be cut anywhere. -/
theorem Admits.split {ok : Engine ρ → Move ρ → Prop} {E : Engine ρ} {l l' : List (Move ρ)}
    (h : E.Admits ok (l ++ l')) : E.Admits ok l ∧ (E.moves l).Admits ok l' := by
  induction l generalizing E with
  | nil => exact ⟨trivial, h⟩
  | cons m rest ih =>
      rcases ih h.2 with ⟨hrest, htail⟩
      exact ⟨⟨h.1, hrest⟩, htail⟩

/-- Pages, frames and handles fit together whatever happens. -/
theorem tidy_move {E : Engine ρ} (ht : E.pool.cache.Tidy) (m : Move ρ) :
    (E.move m).pool.cache.Tidy := by
  cases m with
  | event ev =>
      cases ev with
      | submit t task => exact ht
      | step c =>
          cases hr : E.ruling c with
          | none =>
              have heq : (E.step c).1 = E := by rw [step_eq, hr]
              simp only [move, exec, heq]
              exact ht
          | some r => exact Pool.tidy_worked (P := E.pool.setLocks r.2.1) ht (worked_step hr)
      | act a => exact Pool.tidy_act ht a
  | finishIn order t e =>
      rcases Pool.finishIn_visited ht order t e with ⟨Q, _, hv, _, ⟨heq, _⟩ | ⟨cause, heq⟩⟩
      · simp only [move, heq]
        exact hv.tidy
      · simp only [move, heq]
        exact hv.tidy
  | giveUp t =>
      rcases Pool.giveUp_cleaned ht t with ⟨Q, hc, heq⟩
      simp only [move, heq]
      exact hc.tidy
  | register f => exact ht
  | outside disk => exact ht
  | reorder order => exact Cache.tidy_order ht order

omit [EvictionOrder ρ] in
/-- The locks under which the work of a move is done: before a call goes on it may be granted the
    one that it has asked for. -/
def locksDuring (E : Engine ρ) : Move ρ → LockTable
  | .event (.step c) =>
    match E.ruling c with
    | some (_, locks, _) => locks
    | none => E.pool.locks
  | _ => E.pool.locks

omit [EvictionOrder ρ] in
theorem locksDuring_step {E : Engine ρ} {c : CallNo} {call : Call} {locks : LockTable} {v : Verdict}
    (h : E.ruling c = some (call, locks, v)) : E.locksDuring (.event (.step c)) = locks := by
  simp only [locksDuring, h]

omit [EvictionOrder ρ] in
/-- The locks during a move are those before it, or a call has asked for one. -/
theorem locksDuring_cases (E : Engine ρ) (m : Move ρ) :
    E.locksDuring m = E.pool.locks ∨
    ∃ c call v, m = .event (.step c) ∧ E.ruling c = some (call, E.locksDuring m, v) := by
  cases m with
  | event ev =>
      cases ev with
      | step c =>
          cases hr : E.ruling c with
          | none => exact Or.inl (by simp only [locksDuring, hr])
          | some r =>
              rcases r with ⟨call, locks, v⟩
              rw [locksDuring_step hr]
              exact Or.inr ⟨c, call, v, rfl, hr⟩
      | _ => exact Or.inl rfl
  | _ => exact Or.inl rfl

/-- A step leaves the locks under which it was done. -/
theorem locks_step (E : Engine ρ) (c : CallNo) :
    (E.step c).1.pool.locks = E.locksDuring (.event (.step c)) := by
  cases hr : E.ruling c with
  | none =>
      have heq : (E.step c).1 = E := by rw [step_eq, hr]
      simp only [heq, locksDuring, hr]
  | some r => exact (step_ruled hr).1.trans (locksDuring_step hr).symm

/-- A move leaves the locks as they were during it, or its leaver gives all its locks back, or it
    gives back one lock. -/
theorem locks_move {E : Engine ρ} (ht : E.pool.cache.Tidy) (m : Move ρ) :
    (E.move m).pool.locks = E.locksDuring m ∨
    (∃ t, m.leaver? = some t ∧ (E.move m).pool.locks = E.pool.locks.releaseAll t) ∨
    ∃ t p, m = .event (.act (.releasePage t p)) ∧
      (E.move m).pool.locks = E.pool.locks.release t p := by
  cases m with
  | event ev =>
      cases ev with
      | submit t task => exact Or.inl rfl
      | step c => exact Or.inl (locks_step E c)
      | act a =>
          rcases Pool.act_locks_cases ht a with hl | ⟨t, hleave, hl⟩ | ⟨t, p, rfl, hl⟩
          · exact Or.inl hl
          · exact Or.inr (Or.inl ⟨t, hleave, hl⟩)
          · exact Or.inr (Or.inr ⟨t, p, rfl, hl⟩)
  | finishIn order t e =>
      rcases Pool.finishIn_visited ht order t e with ⟨Q, _, hv, _, ⟨heq, _⟩ | ⟨cause, heq⟩⟩
      · simp only [move, heq]
        exact Or.inr (Or.inl ⟨t, rfl, rfl⟩)
      · simp only [move, heq]
        exact Or.inl hv.locks
  | giveUp t =>
      rcases Pool.giveUp_cleaned ht t with ⟨Q, _, heq⟩
      simp only [move, heq]
      exact Or.inr (Or.inl ⟨t, rfl, rfl⟩)
  | register f => exact Or.inl rfl
  | outside disk => exact Or.inl rfl
  | reorder order => exact Or.inl rfl

/-- Every call that waits is in progress, whatever happens. -/
theorem listed_move {E : Engine ρ} (ht : E.pool.cache.Tidy) (hl : E.Listed) (m : Move ρ) :
    (E.move m).Listed := by
  cases m with
  | event ev => exact listed_exec hl ht ev
  | finishIn order t e =>
      refine listed_pool hl ?_
      rcases Pool.finishIn_visited ht order t e with ⟨Q, _, hv, _, ⟨heq, _⟩ | ⟨cause, heq⟩⟩
      · rw [heq]
        exact Or.inr (Or.inl ⟨t, rfl⟩)
      · rw [heq]
        exact Or.inl hv.locks
  | giveUp t =>
      refine listed_pool hl ?_
      rcases Pool.giveUp_cleaned ht t with ⟨Q, _, heq⟩
      rw [heq]
      exact Or.inr (Or.inl ⟨t, rfl⟩)
  | _ => exact listed_pool hl (Or.inl rfl)

omit [EvictionOrder ρ] in
theorem guarded_during {E : Engine ρ} (hg : E.pool.locks.Guarded) (m : Move ρ) :
    (E.locksDuring m).Guarded := by
  rcases E.locksDuring_cases m with hl | ⟨_, _, _, _, hr⟩
  · rw [hl]
    exact hg
  · exact guarded_ruling hr hg

/-- Who is on a page has it on its account and the other way round, and the writer of a page keeps
    all others off it, whatever happens and however many calls a transaction makes at a time. -/
theorem guarded_move {E : Engine ρ} (ht : E.pool.cache.Tidy) (hg : E.pool.locks.Guarded)
    (m : Move ρ) : (E.move m).pool.locks.Guarded := by
  rcases locks_move ht m with hl | ⟨t, _, hl⟩ | ⟨t, p, _, hl⟩
  · rw [hl]
    exact guarded_during hg m
  · rw [hl]
    exact LockTable.guarded_releaseAll hg t
  · rw [hl]
    exact LockTable.guarded_release hg t p

omit [EvictionOrder ρ] in
/-- Who holds a page goes on holding it during a move, though perhaps in another mode. -/
theorem held_during {E : Engine ρ} {t : TxnId} {p : PageId} (m : Move ρ)
    (hh : E.pool.locks.mode? t p ≠ none) : (E.locksDuring m).mode? t p ≠ none := by
  rcases E.locksDuring_cases m with hl | ⟨_, _, _, _, hr⟩
  · rw [hl]
    exact hh
  · exact held_ruling hr hh

theorem Arises.tidy {ok : Engine ρ → Move ρ → Prop} {E : Engine ρ} (h : E.Arises ok) :
    E.pool.cache.Tidy := by
  induction h with
  | fresh h => exact h.sane.coherent.tidy
  | move h hm ih => exact tidy_move ih _

theorem Arises.listed {ok : Engine ρ → Move ρ → Prop} {E : Engine ρ} (h : E.Arises ok) :
    E.Listed := by
  induction h with
  | fresh h => exact h.listed
  | move h hm ih => exact listed_move h.tidy ih _

theorem Arises.guarded {ok : Engine ρ → Move ρ → Prop} {E : Engine ρ} (h : E.Arises ok) :
    E.pool.locks.Guarded := by
  induction h with
  | fresh h => exact h.locks ▸ LockTable.guarded_empty
  | move h hm ih => exact guarded_move h.tidy ih _

end Engine

end RowStore
