import Mathlib.Logic.Relation
import RowStore.Proofs.Lock.Attained
import RowStore.Proofs.Requests
import RowStore.Recency

/-!
# Verdicts

What becomes of a call that asks for a lock, told by who holds what and who waits for
what.

A call that asks is judged by a search of the graph of waiting, and the graph is only
a record. Here the verdict is told without it. One transaction waits for another if it
has a call that waits for a page and the other holds that page in a mode that does not
go with the one asked for. A request is granted if what the transaction holds is
enough or no other transaction is in its way; it fails if one of those in its way
waits, directly or through others, for the transaction itself; else it waits.

When every call has come to rest the record and the relation are the same for all
transactions that hold anything. A path from someone in the way runs through such
transactions only, because whoever is waited for holds what is waited for. So the
search finds what it should even where edges are missing from the record.

## Main definitions

* `LockTable.InTheWay`: Another transaction holds a page in a mode that does not go with one.
* `LockTable.WaitsFor`: A transaction waits for another.
* `Engine.acquire`: A transaction asks for a lock, and the call goes as far as it can.

## Theorems

* `LockTable.mem_blockers_iff`: Those in the way of a request are in the way.
* `LockTable.path_iff`: The graph of waiting is the relation, from whoever holds anything.
* `LockTable.request_cases`: What becomes of a request.
* `Engine.acquire_verdict`: A request is granted, fails or waits as it should.
-/

namespace RowStore

namespace LockTable

/-- Another transaction holds the page in a mode that does not go with the one asked for. -/
def InTheWay (l : LockTable) (t : TxnId) (p : PageId) (mode : LockMode) (u : TxnId) : Prop :=
  u ≠ t ∧ ∃ held, l.mode? u p = some held ∧ mode.compatible held = false

/-- The first transaction has a call that waits for a page, and the second is in its way there. -/
def WaitsFor (l : LockTable) (t u : TxnId) : Prop :=
  ∃ w ∈ l.waiters, w.txn = t ∧ l.InTheWay t w.page w.mode u

/-- What becomes of a request, told by the holders of its page and the search of the graph. One that
    fails changes nothing but the graph. -/
theorem request_cases (l : LockTable) (call : CallNo) (t : TxnId) (p : PageId) (mode : LockMode) :
    ((l.request call t p mode).2 = .granted ∧
      ((l.holdersOf p).holds t mode = true ∨ l.blockers t p mode = [])) ∨
    ((l.request call t p mode).2 = .waits ∧ (l.holdersOf p).holds t mode = false ∧
      l.blockers t p mode ≠ [] ∧ (l.graph.waitOn t (l.blockers t p mode)).2 = true) ∨
    (l.request call t p mode = (l.refuse t p mode, .deadlock) ∧
      (l.holdersOf p).holds t mode = false ∧ l.blockers t p mode ≠ [] ∧
      (l.graph.waitOn t (l.blockers t p mode)).2 = false) := by
  unfold request
  by_cases hh : (l.holdersOf p).holds t mode = true
  · rw [if_pos hh]
    exact Or.inl ⟨rfl, Or.inl hh⟩
  · rw [if_neg hh]
    rw [Bool.not_eq_true] at hh
    rcases l.judge_cases call t p mode with ⟨hb, he⟩ | ⟨hb, hok, he⟩ | ⟨hb, hno, he⟩
    · rw [he]
      exact Or.inl ⟨rfl, Or.inr hb⟩
    · rw [he]
      exact Or.inr (Or.inl ⟨rfl, hh, hb, hok⟩)
    · exact Or.inr (Or.inr ⟨he, hh, hb, hno⟩)

section Sound

variable {l : LockTable} (hs : l.Sound)

include hs

/-- Those in the way of a request by the account of the page are those in its way by their own. -/
theorem mem_blockers_iff (t : TxnId) (p : PageId) (mode : LockMode) (u : TxnId) :
    u ∈ l.blockers t p mode ↔ l.InTheWay t p mode u := by
  unfold blockers InTheWay
  rw [Holders.mem_blockers, ← hs.exclusive_iff, ← hs.shared_iff]
  refine and_congr_right fun _ => ?_
  constructor
  · rintro (hx | ⟨rfl, hr⟩)
    · exact ⟨.exclusive, hx, by cases mode <;> rfl⟩
    · exact ⟨.shared, hr, rfl⟩
  · rintro ⟨held, hm, hc⟩
    cases held with
    | exclusive => exact Or.inl hm
    | shared =>
        cases mode with
        | shared => cases hc
        | exclusive => exact Or.inr ⟨rfl, hm⟩

theorem blockers_eq_nil_iff (t : TxnId) (p : PageId) (mode : LockMode) :
    l.blockers t p mode = [] ↔ ∀ u, ¬ l.InTheWay t p mode u := by
  rw [List.eq_nil_iff_forall_not_mem]
  exact forall_congr' fun u => not_congr (mem_blockers_iff hs t p mode u)

/-- What is enough by the transaction's account is found to be enough by the page's. -/
theorem holds_iff_enough (t : TxnId) (p : PageId) (mode : LockMode) :
    (l.holdersOf p).holds t mode = true ↔ l.Enough t p mode := by
  refine ⟨hs.agreed.enough, fun h => ?_⟩
  cases mode with
  | shared => exact (hs.holdsPage_iff t p).2 h.held
  | exclusive =>
      rw [Holders.holds_exclusive, ← hs.agree, h.exclusive rfl]
      rfl

end Sound

section rest

variable {l : LockTable} (hs : l.Sound) (ha : l.Attentive) (hq : l.Quiet)

include hs ha hq

/-- The edges of a transaction that holds anything lead to those it waits for. -/
theorem edge_iff_waitsFor {t : TxnId} {p : PageId} (hp : l.mode? t p ≠ none) (u : TxnId) :
    l.graph.Edge t u ↔ l.WaitsFor t u := by
  -- A call of the transaction sleeps, and it cannot be one whose transaction holds nothing.
  have haware : ∀ w ∈ l.waiters, w.txn = t → l.Aware w := by
    rintro w hw rfl
    exact (ha.asleep w hw (hq w hw)).elim id fun h => absurd (h.2.1 p) hp
  constructor
  · intro he
    have hbusy : ¬ l.Idle t := fun hidle => ha.idle t hidle u he
    unfold Idle at hbusy
    push Not at hbusy
    rcases hbusy with ⟨w, hw, rfl⟩
    exact ⟨w, hw, rfl, (mem_blockers_iff hs _ _ _ u).1 (((haware w hw rfl).2 u).1 he)⟩
  · rintro ⟨w, hw, rfl, hway⟩
    exact ((haware w hw rfl).2 u).2 ((mem_blockers_iff hs _ _ _ u).2 hway)

/-- From a transaction that holds anything, the graph leads where the waiting leads. -/
theorem path_iff {t : TxnId} {p : PageId} (hp : l.mode? t p ≠ none) (u : TxnId) :
    l.graph.Path t u ↔ Relation.ReflTransGen l.WaitsFor t u := by
  -- Whoever is waited for holds the page that is waited for, so the next step is one from a
  -- transaction that holds something too.
  have hnext : ∀ {a b}, l.WaitsFor a b → ∃ q, l.mode? b q ≠ none := by
    rintro a b ⟨w, _, _, _, held, hm, _⟩
    exact ⟨w.page, by rw [hm]; exact Option.some_ne_none held⟩
  constructor
  · intro h
    induction h generalizing p with
    | refl a => exact .refl
    | step hab _ ih =>
        have hw := (edge_iff_waitsFor hs ha hq hp _).1 hab
        rcases hnext hw with ⟨q, hq'⟩
        exact .head hw (ih hq')
  · intro h
    induction h using Relation.ReflTransGen.head_induction_on generalizing p with
    | refl => exact .refl u
    | head hab _ ih =>
        rcases hnext hab with ⟨q, hq'⟩
        exact .step ((edge_iff_waitsFor hs ha hq hp _).2 hab) (ih hq')

/-- A transaction with no call that waits may not wait if someone in its way waits for it. -/
theorem waitOn_eq_false_iff {t : TxnId} (hidle : l.Idle t) (p : PageId) (mode : LockMode) :
    (l.graph.waitOn t (l.blockers t p mode)).2 = false ↔
      ∃ u, l.InTheWay t p mode u ∧ Relation.ReflTransGen l.WaitsFor u t := by
  -- The transaction has no edges, so nothing is lost when they are dropped before the search.
  have hclear : ∀ u, (l.graph.clear t).Path u t ↔ l.graph.Path u t := by
    refine fun u => ⟨.mono fun a b h => ((l.graph.edge_clear t a b).1 h).2, .mono fun a b h => ?_⟩
    exact (l.graph.edge_clear t a b).2 ⟨fun heq => ha.idle t hidle b (heq ▸ h), h⟩
  rw [← Bool.not_eq_true, WaitGraph.waitOn_eq_true_iff]
  push Not
  refine exists_congr fun u => ?_
  rw [mem_blockers_iff hs, hclear]
  refine and_congr_right fun hway => ?_
  rcases hway with ⟨_, held, hm, _⟩
  exact path_iff hs ha hq (by rw [hm]; exact Option.some_ne_none held) t

end rest

end LockTable

namespace Engine

variable {ρ : Type} [EvictionOrder ρ]

/-- A transaction asks for the lock on a page, and the call goes as far as it can at once. -/
def acquire (E : Engine ρ) (t : TxnId) (p : PageId) (access : Access) :
    Engine ρ × Option Outcome :=
  (E.submit t (.lock p access)).2.step (E.submit t (.lock p access)).1

/-- The call makes one request, and what comes of it is the verdict. -/
theorem acquire_eq (E : Engine ρ) (t : TxnId) (p : PageId) (access : Access)
    (hfresh : ∀ w ∈ E.pool.locks.waiters, w.call ≠ ⟨E.nextCall⟩) :
    (E.acquire t p access).1.pool.locks =
        (E.pool.locks.request ⟨E.nextCall⟩ t p access.mode).1 ∧
      (E.acquire t p access).2 =
        match (E.pool.locks.request ⟨E.nextCall⟩ t p access.mode).2 with
        | .granted => some .locked
        | .waits => none
        | .deadlock => some (.failed (.deadlock t p)) := by
  have hget : (E.submit t (.lock p access)).2.calls.get? ⟨E.nextCall⟩ =
      some ⟨t, .lock p access⟩ := Assoc.get?_insert_self _ _ _
  have hnone : E.pool.locks.waiterOf ⟨E.nextCall⟩ = none := by
    refine List.find?_eq_none.2 fun w hw => ?_
    rw [decide_eq_true_eq]
    exact hfresh w hw
  have hlocks : (E.submit t (.lock p access)).2.pool.locks = E.pool.locks := rfl
  have hno : (E.submit t (.lock p access)).1 = ⟨E.nextCall⟩ := rfl
  unfold acquire
  rw [hno]
  simp only [step, hget, Task.demand, hlocks, hnone]
  -- The work that is left of a call that only takes a lock is to say that it has it.
  rcases E.pool.locks.request ⟨E.nextCall⟩ t p access.mode with ⟨locks, verdict⟩
  cases verdict with
  | granted => exact ⟨rfl, rfl⟩
  | waits => exact ⟨rfl, rfl⟩
  | deadlock => exact ⟨rfl, rfl⟩

/-- When every call has come to rest and a transaction without a call that waits asks for a lock: it
    has the lock at once if what it holds is enough or nobody is in its way; it fails if not, and
    someone in its way waits for it, directly or through others; else it waits. When it fails,
    everyone holds what they held, everyone else has the edges they had, and it has none. -/
theorem acquire_verdict (E : Engine ρ) (h : E.pool.locks.Attained) (hquiet : E.pool.locks.Quiet)
    (hfresh : ∀ w ∈ E.pool.locks.waiters, w.call ≠ ⟨E.nextCall⟩) (t : TxnId)
    (hidle : E.pool.locks.Idle t) (p : PageId) (access : Access) :
    ((E.acquire t p access).2 = some .locked ↔
      E.pool.locks.Enough t p access.mode ∨ ∀ u, ¬ E.pool.locks.InTheWay t p access.mode u) ∧
    ((E.acquire t p access).2 = some (.failed (.deadlock t p)) ↔
      ¬ (E.pool.locks.Enough t p access.mode ∨
        ∀ u, ¬ E.pool.locks.InTheWay t p access.mode u) ∧
      ∃ u, E.pool.locks.InTheWay t p access.mode u ∧
        Relation.ReflTransGen E.pool.locks.WaitsFor u t) ∧
    ((E.acquire t p access).2 = none ↔
      ¬ (E.pool.locks.Enough t p access.mode ∨
        ∀ u, ¬ E.pool.locks.InTheWay t p access.mode u) ∧
      ¬ ∃ u, E.pool.locks.InTheWay t p access.mode u ∧
        Relation.ReflTransGen E.pool.locks.WaitsFor u t) ∧
    ((E.acquire t p access).2 = some (.failed (.deadlock t p)) →
      (E.acquire t p access).1.pool.locks.holders = E.pool.locks.holders ∧
      (E.acquire t p access).1.pool.locks.held = E.pool.locks.held ∧
      (E.acquire t p access).1.pool.locks.waiters = E.pool.locks.waiters ∧
      (∀ a b, a ≠ t → ((E.acquire t p access).1.pool.locks.graph.Edge a b ↔
        E.pool.locks.graph.Edge a b)) ∧
      ∀ b, ¬ (E.acquire t p access).1.pool.locks.graph.Edge t b) := by
  rcases LockTable.attained_invariant h with ⟨hs, ha⟩
  rcases E.acquire_eq t p access hfresh with ⟨hlocks, hout⟩
  have hmode := LockTable.holds_iff_enough hs t p access.mode
  have hway := LockTable.blockers_eq_nil_iff hs t p access.mode
  have hcircle := LockTable.waitOn_eq_false_iff hs ha hquiet hidle p access.mode
  rw [hlocks, hout, ← hmode, ← hway, ← hcircle]
  rcases E.pool.locks.request_cases ⟨E.nextCall⟩ t p access.mode with
    ⟨hv, hg⟩ | ⟨hv, hh, hb, hok⟩ | ⟨hv, hh, hb, hno⟩
  · simp [hv, hg]
  · simp [hv, hh, hb, hok]
  · rw [hv]
    refine ⟨by simp [hh, hb], by simp [hh, hb, hno], by simp [hno], fun _ => ?_⟩
    refine ⟨rfl, rfl, rfl, fun a b hne => ?_, fun b => ?_⟩
    · simp only [LockTable.refuse, WaitGraph.edge_waitOn, if_neg hne]
    · simp only [LockTable.refuse, WaitGraph.edge_waitOn, hno, if_true, Bool.false_eq_true,
        false_and, not_false_eq_true]

/-- Two readers of a page, the first of which waits to write it. -/
def twoReaders : Engine Recency :=
  let p : PageId := ⟨⟨1⟩, 0⟩
  let l := (({} : LockTable).request ⟨7⟩ ⟨1⟩ p .shared).1
  let l := (l.request ⟨8⟩ ⟨2⟩ p .shared).1
  (tiny 1 ({} : Recency)).setLocks (l.request ⟨9⟩ ⟨1⟩ p .exclusive).1

/-- The second reader wants to write the page too, and is told that this would close a circle. -/
theorem acquire_verdict_twoReaders :
    twoReaders.pool.locks.Attained ∧ twoReaders.pool.locks.Quiet ∧
      twoReaders.pool.locks.Idle ⟨2⟩ ∧
      (twoReaders.acquire ⟨2⟩ ⟨⟨1⟩, 0⟩ .readWrite).2 =
        some (.failed (.deadlock ⟨2⟩ ⟨⟨1⟩, 0⟩)) ∧
      (twoReaders.acquire ⟨2⟩ ⟨⟨1⟩, 0⟩ .readWrite).1.pool.locks.held =
        twoReaders.pool.locks.held := by
  have hl : twoReaders.pool.locks.Attained := by
    refine .request _ _ _ _ (.request _ _ _ _ (.request _ _ _ _ .init ?_ ?_) ?_ ?_) ?_ ?_
    all_goals decide +kernel
  have hq : twoReaders.pool.locks.Quiet := by decide +kernel
  have hf : ∀ w ∈ twoReaders.pool.locks.waiters, w.call ≠ ⟨twoReaders.nextCall⟩ := by
    decide +kernel
  have hi : twoReaders.pool.locks.Idle ⟨2⟩ := by decide +kernel
  have hm : ∀ u ∈ [⟨1⟩, ⟨2⟩], twoReaders.pool.locks.mode? u ⟨⟨1⟩, 0⟩ = some .shared := by
    decide +kernel
  have hw : ⟨⟨9⟩, ⟨1⟩, ⟨⟨1⟩, 0⟩, .exclusive, false⟩ ∈ twoReaders.pool.locks.waiters := by
    decide +kernel
  have h := acquire_verdict twoReaders hl hq hf ⟨2⟩ hi ⟨⟨1⟩, 0⟩ .readWrite
  -- The first reader is in the way, and waits for the second.
  have hway : twoReaders.pool.locks.InTheWay ⟨2⟩ ⟨⟨1⟩, 0⟩ .exclusive ⟨1⟩ :=
    ⟨by decide, .shared, hm _ (by decide), rfl⟩
  have hback : twoReaders.pool.locks.WaitsFor ⟨1⟩ ⟨2⟩ :=
    ⟨_, hw, rfl, by decide, .shared, hm _ (by decide), rfl⟩
  have hless : ¬ twoReaders.pool.locks.Enough ⟨2⟩ ⟨⟨1⟩, 0⟩ .exclusive := by
    intro he
    have hx := he.exclusive rfl
    rw [hm _ (by decide)] at hx
    cases hx
  have hdead := h.2.1.2 ⟨fun hg => hg.elim hless fun hn => hn ⟨1⟩ hway, ⟨1⟩, hway, .single hback⟩
  exact ⟨hl, hq, hi, hdead, (h.2.2.2 hdead).2.1⟩

end Engine

end RowStore
