import RowStore.Proofs.Moves
import RowStore.Recency

/-!
# Who Has to Leave

How many pages are resident, and which of them have to leave.

The cache asks its order of eviction for proposals and takes the first that may leave.
Nothing is known of the proposals: pages may be proposed twice or in any order, pages
that are not resident may be proposed, and those that could leave may be withheld. A
proposal of a page that is not resident frees no frame. If it were taken for one, a page
would be taken in without room for it. So all that is said here comes from the check
that the cache makes of each proposal, and from its making room only when it is full.

Of the pages that are resident there can be no more than frames. A page leaves on its
own only in a full cache, for one page that comes, and if it is clean and no handle is
on its frame. Whoever makes pages leave otherwise has asked for it: a page is discarded,
or a transaction gives up what it can neither write out nor bring back. A handle that is
left from the time before its page was discarded is on another frame, and keeps nothing.

## Main definitions

* `Cache.Turnover`: What becomes of the resident pages when one is to be taken in.
* `Engine.givesUp`: A move that makes pages leave whatever their state.

## Theorems

* `Cache.turnover_takeIn`, `Pool.turnover_fetch`, `Engine.turnover_step`: A step takes in at most
  one page, and at most one page leaves for it.
* `Engine.residents_move`: No other move takes a page in, and none leaves unless it is given up.
* `Engine.only_idle_pages_leave`: The frames suffice, and only a clean page without handles leaves.
-/

namespace RowStore

namespace Cache

variable {ρ : Type}

/-- What becomes of the resident pages when one is to be taken in: nothing, or it is given a frame
    to spare, or it takes the place of a page that may leave, and then the cache was full. -/
inductive Turnover (c : Cache ρ) (p : PageId) (c' : Cache ρ) : Prop
  | same (hres : c'.resident = c.resident)
  | came (f : FrameNo) (hnew : c.resident.get? p = none) (hroom : c.size < c.capacity)
      (hres : c'.resident = c.resident.insert p f)
  | replaced (f : FrameNo) (q : PageId) (g : FrameNo) (hnew : c.resident.get? p = none)
      (hfull : c.capacity ≤ c.size) (hq : c.resident.get? q = some g)
      (hidle : c.isEvictable g = true) (hres : c'.resident = (c.resident.erase q).insert p f)

/-- Who is to be taken in is as before, and the rest of the cache may be another one. -/
theorem Turnover.congr {c c' c'' : Cache ρ} {p : PageId} (h : Turnover c p c')
    (hres : c''.resident = c'.resident) : Turnover c p c'' := by
  cases h with
  | same h => exact .same (hres.trans h)
  | came f hnew hroom h => exact .came f hnew hroom (hres.trans h)
  | replaced f q g hnew hfull hq hidle h =>
      exact .replaced f q g hnew hfull hq hidle (hres.trans h)

/-- Where a page comes for another, there are as many as before; else there was a frame to spare. -/
theorem Turnover.size_le {c c' : Cache ρ} {p : PageId} (h : Turnover c p c')
    (hc : c.size ≤ c.capacity) : c'.size ≤ c.capacity := by
  unfold size at hc ⊢
  cases h with
  | same hres =>
      rw [hres]
      exact hc
  | came f hnew hroom hres =>
      rw [hres, Assoc.size_insert _ _ _ hnew]
      exact hroom
  | replaced f q g hnew hfull hq hidle hres =>
      have hgone : (c.resident.erase q).get? p = none := by
        rw [Assoc.get?_erase, hnew, ite_self]
      rw [hres, Assoc.size_insert _ _ _ hgone, Assoc.size_erase _ hq]
      exact hc

variable [EvictionOrder ρ]

/-- Whatever is proposed, a page is taken in if there is a frame to spare, or if one is freed. -/
theorem turnover_takeIn (c : Cache ρ) (image : Page) (hnew : c.resident.get? image.id = none) :
    (c.takeIn image).1.capacity = c.capacity ∧ Turnover c image.id (c.takeIn image).1 := by
  unfold takeIn
  by_cases hs : c.size < c.capacity
  · rw [if_pos hs]
    exact ⟨rfl, .came _ hnew hs rfl⟩
  · rw [if_neg hs]
    rcases evictFrom_cases (EvictionOrder.candidates c.order) c with
      ⟨order, h⟩ | ⟨q, g, order, hq, hidle, h⟩
    · rw [evict, h]
      exact ⟨rfl, .same rfl⟩
    · rw [evict, h]
      exact ⟨rfl, .replaced _ q g hnew (Nat.le_of_not_lt hs) hq hidle rfl⟩

end Cache

namespace Pool

variable {ρ : Type}

/-- An ending that stops or not leaves the resident pages as they are. -/
theorem residents_finishIn {P : Pool ρ} (ht : P.cache.Tidy) (order : List PageId) (t : TxnId)
    (e : Ending) : (P.finishIn order t e).1.cache.capacity = P.cache.capacity ∧
      (P.finishIn order t e).1.cache.resident = P.cache.resident := by
  rcases finishIn_visited ht order t e with ⟨Q, _, hv, _, ⟨heq, _⟩ | ⟨cause, heq⟩⟩
  · rw [heq]
    exact ⟨hv.capacity, hv.resident⟩
  · rw [heq]
    exact ⟨hv.capacity, hv.resident⟩

variable [EvictionOrder ρ]

/-- A page that is wanted is resident already, or cannot be loaded, or is taken in. -/
theorem turnover_fetch (P : Pool ρ) (p : PageId) :
    (P.fetch p).1.cache.capacity = P.cache.capacity ∧
      P.cache.Turnover p (P.fetch p).1.cache := by
  unfold fetch
  cases hr : P.cache.resident.get? p with
  | some f => exact ⟨rfl, .same rfl⟩
  | none =>
      cases hl : P.loadImage p with
      | error e => exact ⟨rfl, .same rfl⟩
      | ok image =>
          rcases loadImage_eq_ok hl with ⟨rfl, _, _⟩
          have hin := P.cache.turnover_takeIn ⟨p, P.stored p, none⟩ hr
          simp only
          cases htake : P.cache.takeIn ⟨p, P.stored p, none⟩ with
          | mk c r =>
              rw [htake] at hin
              cases r <;> exact hin

/-- The work of a point wants one page at most. -/
theorem turnover_worked {P Q : Pool ρ} {t : TxnId} (h : Task.Worked t P Q) :
    Q.cache.capacity = P.cache.capacity ∧ ∃ p, P.cache.Turnover p Q.cache := by
  cases h with
  | same => exact ⟨rfl, ⟨⟨0⟩, 0⟩, .same rfl⟩
  | grown h => exact ⟨rfl, ⟨⟨0⟩, 0⟩, .same rfl⟩
  | fetched p => exact ⟨(P.turnover_fetch p).1, p, (P.turnover_fetch p).2⟩
  | @kept p f R access h =>
      have hf := P.turnover_fetch p
      rw [h] at hf
      exact ⟨hf.1, p, hf.2.congr rfl⟩
  | @altered p f R α work hsize h =>
      have hf := P.turnover_fetch p
      rw [h] at hf
      rcases Task.alter_apart R ⟨p, f, t, .readWrite⟩ work with ⟨frames, heq⟩
      rw [heq]
      exact ⟨hf.1, p, hf.2.congr rfl⟩

/-- Whether an action makes pages leave whatever their state: one is discarded, or a transaction is
    left alone that cannot be rolled back. -/
def givesUp (P : Pool ρ) : Action → Bool
  | .discard _ => true
  | .abandon t => !(P.finish t .rollback).2.isOk
  | .close t e => !(P.finish t e).2.isOk && !((P.finish t e).1.finish t .rollback).2.isOk
  | _ => false

theorem size_foldl_discard (l : List PageId) (P : Pool ρ) :
    (l.foldl discard P).cache.capacity = P.cache.capacity ∧
      (l.foldl discard P).cache.size ≤ P.cache.size := by
  induction l generalizing P with
  | nil => exact ⟨rfl, Nat.le_refl _⟩
  | cons p rest ih =>
      rcases ih (P.discard p) with ⟨hcap, hsize⟩
      exact ⟨hcap, Nat.le_trans hsize (Assoc.size_erase_le _ _)⟩

/-- What an ending does when it fails: the rest is restored, or given up. -/
theorem residents_abandon {P : Pool ρ} (ht : P.cache.Tidy) (t : TxnId) :
    (P.abandon t).cache.capacity = P.cache.capacity ∧
      (P.abandon t).cache.size ≤ P.cache.size ∧
      ((P.finish t .rollback).2.isOk = true →
        (P.abandon t).cache.resident = P.cache.resident) := by
  rcases residents_finishIn ht (P.locks.exclusivePages t) t .rollback with ⟨hcap, hres⟩
  unfold abandon finish
  cases hfin : P.finishIn (P.locks.exclusivePages t) t .rollback with
  | mk Q r =>
      rw [hfin] at hcap hres
      cases r with
      | ok u => exact ⟨hcap, Nat.le_of_eq (congrArg Assoc.size hres), fun _ => hres⟩
      | error cause =>
          rcases size_foldl_discard (Q.locks.exclusivePages t) Q with ⟨hcap', hsize⟩
          refine ⟨hcap'.trans hcap, Nat.le_trans hsize ?_, fun h => by cases h⟩
          exact Nat.le_of_eq (congrArg Assoc.size hres)

theorem residents_close {P : Pool ρ} (ht : P.cache.Tidy) (t : TxnId) (e : Ending) :
    (P.close t e).1.cache.capacity = P.cache.capacity ∧
      (P.close t e).1.cache.size ≤ P.cache.size ∧
      (P.givesUp (.close t e) = false →
        (P.close t e).1.cache.resident = P.cache.resident) := by
  rcases residents_finishIn ht (P.locks.exclusivePages t) t e with ⟨hcap, hres⟩
  have htidy : (P.finish t e).1.cache.Tidy := tidy_act ht (.finish t e)
  unfold close
  unfold finish at htidy ⊢
  cases hfin : P.finishIn (P.locks.exclusivePages t) t e with
  | mk Q r =>
      rw [hfin] at hcap hres htidy
      cases r with
      | ok u => exact ⟨hcap, Nat.le_of_eq (congrArg Assoc.size hres), fun _ => hres⟩
      | error cause =>
          rcases residents_abandon htidy t with ⟨hcap', hsize, hkept⟩
          refine ⟨hcap'.trans hcap,
            Nat.le_trans hsize (Nat.le_of_eq (congrArg Assoc.size hres)), fun h => ?_⟩
          refine (hkept ?_).trans hres
          simpa [givesUp, finish, hfin, Except.isOk, Except.toBool] using h

/-- No action takes a page in, and none leaves unless it is given up. -/
theorem residents_act {P : Pool ρ} (ht : P.cache.Tidy) (a : Action) :
    (P.act a).1.cache.capacity = P.cache.capacity ∧
      (P.act a).1.cache.size ≤ P.cache.size ∧
      (P.givesUp a = false → (P.act a).1.cache.resident = P.cache.resident) := by
  have hsame : ∀ {Q : Pool ρ}, Q.cache.capacity = P.cache.capacity →
      Q.cache.resident = P.cache.resident → Q.cache.capacity = P.cache.capacity ∧
        Q.cache.size ≤ P.cache.size ∧
        (P.givesUp a = false → Q.cache.resident = P.cache.resident) :=
    fun hcap hres => ⟨hcap, Nat.le_of_eq (congrArg Assoc.size hres), fun _ => hres⟩
  have hround : ∀ l, (P.forEach flush l).1.cache.capacity = P.cache.capacity ∧
      (P.forEach flush l).1.cache.resident = P.cache.resident := by
    intro l
    rcases visited_forEach_flush l ht with ⟨_, hv⟩
    exact ⟨hv.capacity, hv.resident⟩
  cases a with
  | write n e =>
      simp only [act, edit]
      cases hn : P.cache.handles.get? n with
      | none => exact hsame rfl rfl
      | some h =>
          rcases Task.alter_apart P h fun b => .ok ((), e.apply b) with ⟨frames, hf⟩
          exact hsame (by simp only [hf]) (by simp only [hf])
  | finish t e =>
      rcases residents_finishIn ht (P.locks.exclusivePages t) t e with ⟨hcap, hres⟩
      exact hsame hcap hres
  | close t e => exact residents_close ht t e
  | abandon t =>
      rcases residents_abandon ht t with ⟨hcap, hsize, hres⟩
      refine ⟨hcap, hsize, fun h => hres ?_⟩
      simpa [givesUp] using h
  | grow t =>
      simp only [act, grow]
      split
      · exact hsame rfl rfl
      · split <;> exact hsame rfl rfl
  | flushAll => exact hsame (hround _).1 (hround _).2
  | flushTxn t => exact hsame (hround _).1 (hround _).2
  | discard p => exact ⟨rfl, Assoc.size_erase_le _ _, fun h => by cases h⟩
  | begin | read _ | drop _ | releasePage _ _ | releaseLocks _ | device _ => exact hsame rfl rfl

end Pool

namespace Engine

variable {ρ : Type} [EvictionOrder ρ]

/-- Whether a move makes pages leave whatever their state. -/
def givesUp (E : Engine ρ) : Move ρ → Bool
  | .event (.act a) => E.pool.givesUp a
  | .giveUp _ => true
  | _ => false

/-- A call that takes a step takes in one page at most. -/
theorem turnover_step (E : Engine ρ) (c : CallNo) :
    (E.step c).1.pool.cache.capacity = E.pool.cache.capacity ∧
      ∃ p, E.pool.cache.Turnover p (E.step c).1.pool.cache := by
  cases hr : E.ruling c with
  | none =>
      rw [step_eq, hr]
      exact ⟨rfl, ⟨⟨0⟩, 0⟩, .same rfl⟩
  | some r => exact Pool.turnover_worked (P := E.pool.setLocks r.2.1) (worked_step hr)

/-- No other move takes a page in, and none leaves unless it is given up. -/
theorem residents_move {E : Engine ρ} (ht : E.pool.cache.Tidy) (m : Move ρ) :
    (∃ c, m = .event (.step c)) ∨
    (E.move m).pool.cache.capacity = E.pool.cache.capacity ∧
      (E.move m).pool.cache.size ≤ E.pool.cache.size ∧
      (E.givesUp m = false → (E.move m).pool.cache.resident = E.pool.cache.resident) := by
  cases m with
  | event ev =>
      cases ev with
      | submit t task => exact Or.inr ⟨rfl, Nat.le_refl _, fun _ => rfl⟩
      | step c => exact Or.inl ⟨c, rfl⟩
      | act a => exact Or.inr (Pool.residents_act ht a)
  | finishIn order t e =>
      rcases Pool.residents_finishIn ht order t e with ⟨hcap, hres⟩
      exact Or.inr ⟨hcap, Nat.le_of_eq (congrArg Assoc.size hres), fun _ => hres⟩
  | giveUp t =>
      rcases Pool.size_foldl_discard (E.pool.locks.exclusivePages t) E.pool with ⟨hcap, hsize⟩
      exact Or.inr ⟨hcap, hsize, fun h => by cases h⟩
  | register f => exact Or.inr ⟨rfl, Nat.le_refl _, fun _ => rfl⟩
  | outside disk => exact Or.inr ⟨rfl, Nat.le_refl _, fun _ => rfl⟩
  | reorder order => exact Or.inr ⟨rfl, Nat.le_refl _, fun _ => rfl⟩

/-- The frames suffice for the resident pages, whatever happens. -/
theorem Arises.size_le {ok : Engine ρ → Move ρ → Prop} {E : Engine ρ} (h : E.Arises ok) :
    E.pool.cache.size ≤ E.pool.cache.capacity := by
  induction h with
  | fresh h =>
      unfold Cache.size
      rw [h.resident]
      exact Nat.zero_le _
  | @move E m h hm ih =>
      rcases residents_move h.tidy m with ⟨c, rfl⟩ | ⟨hcap, hsize, _⟩
      · rcases E.turnover_step c with ⟨hcap, p, hturn⟩
        exact Nat.le_trans (hturn.size_le ih) (Nat.le_of_eq hcap.symm)
      · rw [hcap]
        exact Nat.le_trans hsize ih

/-- However many frames there are, whatever pages the order of eviction proposes, and whatever has
    happened: there are no more resident pages than frames. And if a page leaves that was not given
    up, it was clean, no handle was on its frame, every frame was taken, and it left for a page that
    was taken in by the step of a call, while all other pages stayed where they were. -/
theorem only_idle_pages_leave {E : Engine ρ} (h : E.Arises fun _ _ => True) :
    E.pool.cache.size ≤ E.pool.cache.capacity ∧
    ∀ m p f, E.givesUp m = false → E.pool.cache.resident.get? p = some f →
      (E.move m).pool.cache.resident.get? p = none →
      E.pool.owner? p = none ∧
      (∀ n hd, E.pool.cache.handles.get? n = some hd → hd.frame ≠ f) ∧
      E.pool.cache.size = E.pool.cache.capacity ∧
      ∃ c q, m = .event (.step c) ∧ E.pool.cache.resident.get? q = none ∧
        (E.move m).pool.cache.resident.get? q ≠ none ∧
        ∀ r, r ≠ p → r ≠ q →
          (E.move m).pool.cache.resident.get? r = E.pool.cache.resident.get? r := by
  refine ⟨h.size_le, fun m p f hkeep hp hgone => ?_⟩
  rcases residents_move h.tidy m with ⟨c, rfl⟩ | ⟨_, _, hres⟩
  · rcases E.turnover_step c with ⟨_, q, hturn⟩
    have hgone' : (E.step c).1.pool.cache.resident.get? p = none := hgone
    cases hturn with
    | same hres =>
        rw [hres, hp] at hgone'
        cases hgone'
    | came g hnew hroom hres =>
        -- A page that comes to a frame to spare drives no other one out.
        rw [hres, Assoc.get?_insert] at hgone'
        split at hgone'
        · cases hgone'
        · rw [hp] at hgone'
          cases hgone'
    | replaced g r k hnew hfull hr hidle hres =>
        have hpr : p = r := by
          by_contra hne
          rw [hres, Assoc.get?_insert] at hgone'
          split at hgone'
          · cases hgone'
          · rw [Assoc.get?_erase_other _ hne, hp] at hgone'
            cases hgone'
        subst hpr
        cases hp.symm.trans hr
        rcases h.tidy.exists_page hp with ⟨page, hpage, hframe, _⟩
        refine ⟨(Pool.owner?_of_page hpage).trans (Cache.clean_of_evictable hidle hframe),
          fun n hd hn => Cache.frame_ne_of_evictable hidle hn, Nat.le_antisymm h.size_le hfull,
          c, q, rfl, hnew, ?_, fun s hs hsq => ?_⟩
        · show (E.step c).1.pool.cache.resident.get? q ≠ none
          rw [hres, Assoc.get?_insert_self]
          exact Option.some_ne_none _
        · show (E.step c).1.pool.cache.resident.get? s = _
          rw [hres, Assoc.get?_insert_other _ _ hsq, Assoc.get?_erase_other _ hs]
  · rw [hres hkeep, hp] at hgone
    cases hgone

/-- A record of use that proposes a page twice which is not resident, before the one that is. -/
def misled : Recency := ⟨3, ∅, ⟨[(3, ⟨⟨1⟩, 0⟩), (2, ⟨⟨1⟩, 1⟩), (1, ⟨⟨1⟩, 1⟩)], by decide⟩⟩

/-- The only frame is taken by the first page when the second is asked for. -/
def crowded : List (Move Recency) :=
  [.event (.submit ⟨1⟩ (.fetch ⟨⟨1⟩, 0⟩ .readOnly false)), .event (.step ⟨0⟩), .reorder misled,
    .event (.submit ⟨1⟩ (.fetch ⟨⟨1⟩, 1⟩ .readOnly false))]

/-- The proposals that free no frame are passed over, and the first page leaves for the second. -/
theorem only_idle_pages_leave_crowded :
    ((tiny 1 ({} : Recency)).moves crowded).pool.cache.size = 1 ∧
    ((tiny 1 ({} : Recency)).moves crowded).pool.owner? ⟨⟨1⟩, 0⟩ = none ∧
    ∃ c q, Move.event (.step ⟨1⟩) = (.event (.step c) : Move Recency) ∧
      ((tiny 1 ({} : Recency)).moves crowded).pool.cache.resident.get? q = none ∧
      (((tiny 1 ({} : Recency)).moves crowded).move
        (.event (.step ⟨1⟩))).pool.cache.resident.get? q ≠ none := by
  have harises : ((tiny 1 ({} : Recency)).moves crowded).Arises fun _ _ => True :=
    (Arises.fresh (fresh_tiny 1 ({} : Recency))).moves (by decide +kernel)
  have hp : ((tiny 1 ({} : Recency)).moves crowded).pool.cache.resident.get? ⟨⟨1⟩, 0⟩ =
      some ⟨0⟩ := by decide +kernel
  rcases (only_idle_pages_leave harises).2 (.event (.step ⟨1⟩)) ⟨⟨1⟩, 0⟩ ⟨0⟩ rfl hp
    (by decide +kernel) with ⟨hclean, _, hfull, c, q, hm, hq, hq', _⟩
  exact ⟨hfull.trans (by decide +kernel), hclean, c, q, hm, hq, hq'⟩

end Engine

end RowStore
