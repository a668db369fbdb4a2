import RowStore.Proofs.Lock.Waiting

/-!
# Locks Given Back at Any Time

What is left of the order in the lock table when a transaction gives back its locks
while a call of its waits.

Nothing keeps another thread of the same transaction from giving back one lock, or
all of them, while a call sleeps that wants to have one more. Giving back one lock
leaves the graph alone. Giving back all of them takes the edges of the sleeping call
out of the graph, and it may sleep on with someone in its way and no edge to say so.

That call belongs to a transaction that holds nothing at all, and it goes on to hold
nothing until the call has been granted its lock. Nobody waits for a transaction that
holds nothing, so the edges that are missing would not have been the middle of any
path. `Heeds` therefore lets a sleeping call have no edges if its transaction is
empty-handed. The accounts do not mind at all: they agree whatever becomes of the
graph.

## Main definitions

* `LockTable.Attained`: The tables that come about when locks are given back at any time.
* `LockTable.Heeds`: The edges of a call that sleeps are right, or its transaction holds nothing
  and they are missing.
* `LockTable.Attentive`, `LockTable.AttentiveBut`: What is true of the graph then.

## Theorems

* `attentive_release`, `attentive_releaseAll`, `attentive_judge`: Every operation keeps it true.
* `attained_invariant`: Every such table is sound and attentive.
* `accounts_agree`: The two accounts say the same of every transaction and every page.
-/

namespace RowStore

namespace LockTable

/-- The tables that come about from the empty one, a transaction having one call at a time. Locks
    are given back at any time, also all those of a transaction whose call waits. -/
inductive Attained : LockTable → Prop
  | init : Attained {}
  | request {l : LockTable} (call : CallNo) (t : TxnId) (p : PageId) (mode : LockMode) :
      Attained l → l.Idle t → (∀ w ∈ l.waiters, w.call ≠ call) →
      Attained (l.request call t p mode).1
  | resume {l : LockTable} (w : Waiter) :
      Attained l → w ∈ l.waiters → w.woken = true → Attained (l.resume w).1
  | release {l : LockTable} (t : TxnId) (p : PageId) : Attained l → Attained (l.release t p)
  | releaseAll {l : LockTable} (t : TxnId) : Attained l → Attained (l.releaseAll t)

/-- Nobody is left who was woken and has not asked again. -/
def Quiet (l : LockTable) : Prop := ∀ w ∈ l.waiters, w.woken = false

instance (l : LockTable) : Decidable l.Quiet :=
  inferInstanceAs (Decidable (∀ w ∈ l.waiters, w.woken = false))

/-! ## The accounts -/

theorem sound_attained {l : LockTable} (h : l.Attained) : l.Sound := by
  induction h with
  | init => exact sound_empty
  | request call t p mode _ hidle hfresh ih => exact sound_request ih call t p mode hidle hfresh
  | resume w _ hw _ ih => exact sound_resume ih hw
  | release t p _ ih => exact sound_release ih t p
  | releaseAll t _ ih => exact sound_releaseAll ih t

section Sound

variable {l : LockTable} (hs : l.Sound)

include hs

/-- A transaction reads a page by its own account if it is one of the readers of the page, because
    then the page has no writer. -/
theorem Sound.shared_iff (t : TxnId) (p : PageId) :
    l.mode? t p = some .shared ↔ t ∈ (l.holdersOf p).shared := by
  rw [hs.agree]
  unfold Holders.modeOf
  by_cases hx : (l.holdersOf p).exclusive = some t
  · rw [if_pos hx, hs.alone p t hx]
    simp
  · rw [if_neg hx]
    simp

theorem Sound.none_iff (t : TxnId) (p : PageId) :
    l.mode? t p = none ↔
      (l.holdersOf p).exclusive ≠ some t ∧ t ∉ (l.holdersOf p).shared := by
  rw [ne_eq, ← hs.exclusive_iff, ← hs.shared_iff]
  cases l.mode? t p with
  | none => simp
  | some mode => cases mode <;> simp

theorem Sound.holdsPage_iff (t : TxnId) (p : PageId) :
    l.holdsPage t p = true ↔ l.mode? t p ≠ none := by
  rw [holdsPage, Holders.holds_shared, ← hs.agree, Option.isSome_iff_ne_none]

end Sound

theorem mem_lockedPages (l : LockTable) (t : TxnId) (p : PageId) :
    p ∈ l.lockedPages t ↔ l.mode? t p ≠ none := by
  rw [lockedPages, Assoc.mem_keys_iff, Option.isSome_iff_ne_none, mode?]

/-- However calls asked, resumed and gave locks back, a page has one writer and no reader or it has
    no writer; what a transaction holds by its own account is what it holds by the page's, and every
    other answer follows it; and a transaction that has given back everything is on no page. -/
theorem accounts_agree (l : LockTable) (h : l.Attained) :
    (∀ p, (∃ t, (l.holdersOf p).exclusive = some t ∧ (l.holdersOf p).shared = []) ∨
      (l.holdersOf p).exclusive = none) ∧
    (∀ t p, (l.mode? t p = some .exclusive ↔ (l.holdersOf p).exclusive = some t) ∧
      (l.mode? t p = some .shared ↔ t ∈ (l.holdersOf p).shared) ∧
      (l.mode? t p = none ↔
        (l.holdersOf p).exclusive ≠ some t ∧ t ∉ (l.holdersOf p).shared)) ∧
    (∀ t p, (l.holdsPage t p = true ↔ l.mode? t p ≠ none) ∧
      (p ∈ l.lockedPages t ↔ l.mode? t p ≠ none) ∧
      (p ∈ l.exclusivePages t ↔ l.mode? t p = some .exclusive)) ∧
    (∀ t p, ((l.releaseAll t).holdersOf p).exclusive ≠ some t ∧
      t ∉ ((l.releaseAll t).holdersOf p).shared) := by
  have hs := sound_attained h
  refine ⟨fun p => ?_, fun t p => ⟨hs.exclusive_iff t p, hs.shared_iff t p, hs.none_iff t p⟩,
    fun t p => ⟨hs.holdsPage_iff t p, l.mem_lockedPages t p, l.mem_exclusivePages t p⟩,
    fun t p => ?_⟩
  · cases hx : (l.holdersOf p).exclusive with
    | none => exact Or.inr rfl
    | some t => exact Or.inl ⟨t, rfl, hs.alone p t hx⟩
  · -- By its own account it holds nothing any more, and the accounts still agree.
    refine ((sound_releaseAll hs t).none_iff t p).1 ?_
    rw [mode?_releaseAll, if_pos rfl]

/-- Two readers of a page. One wants to write it, and gives its lock back while it waits. -/
def upgrade : LockTable :=
  let p : PageId := ⟨⟨1⟩, 0⟩
  let l := (({} : LockTable).request ⟨0⟩ ⟨1⟩ p .shared).1
  let l := (l.request ⟨1⟩ ⟨2⟩ p .shared).1
  (l.request ⟨2⟩ ⟨1⟩ p .exclusive).1.release ⟨1⟩ p

theorem attained_upgrade : upgrade.Attained := by
  refine .release _ _
    (.request _ _ _ _ (.request _ _ _ _ (.request _ _ _ _ .init ?_ ?_) ?_ ?_) ?_ ?_)
  all_goals decide +kernel

theorem accounts_agree_upgrade :
    upgrade.Attained ∧ ¬ upgrade.Idle ⟨1⟩ ∧ upgrade.mode? ⟨2⟩ ⟨⟨1⟩, 0⟩ = some .shared ∧
      ⟨2⟩ ∈ (upgrade.holdersOf ⟨⟨1⟩, 0⟩).shared ∧
      ⟨1⟩ ∉ (upgrade.holdersOf ⟨⟨1⟩, 0⟩).shared := by
  have hm : upgrade.mode? ⟨2⟩ ⟨⟨1⟩, 0⟩ = some .shared := by decide +kernel
  have hn : upgrade.mode? ⟨1⟩ ⟨⟨1⟩, 0⟩ = none := by decide +kernel
  have h := (accounts_agree upgrade attained_upgrade).2.1
  exact ⟨attained_upgrade, by decide +kernel, hm, (h ⟨2⟩ ⟨⟨1⟩, 0⟩).2.1.1 hm,
    ((h ⟨1⟩ ⟨⟨1⟩, 0⟩).2.2.1 hn).2⟩

/-! ## The graph -/

/-- The edges of a call that sleeps lead to those in its way; or its transaction holds nothing, and
    it has no edges though someone is in its way. -/
def Heeds (l : LockTable) (w : Waiter) : Prop :=
  l.Aware w ∨ l.blockers w.txn w.page w.mode ≠ [] ∧ (∀ p, l.mode? w.txn p = none) ∧
    ∀ u, ¬ l.graph.Edge w.txn u

/-- Who has no call that waits has no edges, who sleeps heeds those in its way, and there is no
    cycle. -/
structure Attentive (l : LockTable) : Prop where
  idle : ∀ t, l.Idle t → ∀ u, ¬ l.graph.Edge t u
  asleep : ∀ w ∈ l.waiters, w.woken = false → l.Heeds w
  acyclic : l.graph.Acyclic

/-- The same for a table in which one transaction, with no call that waits, may have edges left. -/
structure AttentiveBut (l : LockTable) (t : TxnId) : Prop where
  idle : ∀ u, u ≠ t → l.Idle u → ∀ v, ¬ l.graph.Edge u v
  asleep : ∀ w ∈ l.waiters, w.woken = false → l.Heeds w
  acyclic : l.graph.Acyclic

theorem Attentive.but {l : LockTable} (h : l.Attentive) (t : TxnId) : l.AttentiveBut t :=
  ⟨fun u _ hu => h.idle u hu, h.asleep, h.acyclic⟩

theorem attentive_empty : Attentive {} where
  idle _ _ _ h := by cases h
  asleep w hw := by cases hw
  acyclic _ _ h := by cases h

/-- A call that is left as it was heeds what it heeded, if its transaction was given nothing. -/
theorem Undisturbed.heeds {l l' : LockTable} {w : Waiter} (h : Undisturbed l l' w)
    (hw : l.Heeds w) (hm : (∀ p, l.mode? w.txn p = none) → ∀ p, l'.mode? w.txn p = none) :
    l'.Heeds w := by
  rcases hw with haw | ⟨hb, hn, he⟩
  · exact Or.inl (h.aware haw)
  · refine Or.inr ⟨?_, hm hn, fun u hu => he u ((h.edges u).1 hu)⟩
    unfold blockers
    rw [h.holders]
    exact hb

theorem attentive_release {l : LockTable} (h : l.Attentive) (t : TxnId) (p : PageId) :
    (l.release t p).Attentive := by
  rcases l.stirred_release t p with ⟨S, hst⟩
  refine ⟨?_, ?_, ?_⟩
  · intro u hu v
    rw [graph_release]
    exact h.idle u ((hst.idle_iff u).1 hu) v
  · intro w hw ha
    have hun := undisturbed_release hw ha
    refine hun.heeds (h.asleep w hun.waiting ha) fun hn q => ?_
    rw [mode?_release, hn, ite_self]
  · rw [graph_release]
    exact h.acyclic

theorem attentive_releaseAll {l : LockTable} (hs : l.Sound) (h : l.Attentive) (t : TxnId) :
    (l.releaseAll t).Attentive := by
  refine ⟨idle_releaseAll h.idle t, ?_, acyclic_releaseAll h.acyclic t⟩
  intro w hw ha
  rcases l.stirred_releaseAll t with ⟨S, hst⟩
  rcases hst.asleep hw ha with ⟨hm, hh⟩
  have hheed := h.asleep w hm ha
  have hblocked : (l.releaseAll t).blockers w.txn w.page w.mode ≠ [] := by
    unfold blockers
    rw [hh]
    exact hheed.elim And.left And.left
  have hempty : ∀ q, l.mode? w.txn q = none → (l.releaseAll t).mode? w.txn q = none := by
    intro q hn
    rw [mode?_releaseAll, hn, ite_self]
  by_cases hne : w.txn = t
  · -- Its own call sleeps on: someone is still in its way, but the edges are gone.
    refine Or.inr ⟨hblocked, fun q => ?_, fun u hu => ((l.edge_releaseAll t w.txn u).1 hu).1 hne⟩
    rw [mode?_releaseAll, if_pos hne]
  · rcases hheed with haw | ⟨_, hn, he⟩
    · exact Or.inl (aware_releaseAll hs hw ha haw hne)
    · exact Or.inr ⟨hblocked, fun q => hempty q (hn q),
        fun u hu => he u ((l.edge_releaseAll t w.txn u).1 hu).2.2⟩

theorem attentive_judge {l : LockTable} {t : TxnId} (h : l.AttentiveBut t) (hidle : l.Idle t)
    (call : CallNo) (p : PageId) (mode : LockMode) : (l.judge call t p mode).1.Attentive := by
  refine ⟨idle_judge h.idle call p mode, ?_, acyclic_judge h.acyclic call p mode⟩
  intro w hw ha
  rcases asleep_judge hidle hw ha with hun | haw
  · refine hun.heeds (h.asleep w hun.waiting ha) fun hn q => ?_
    rw [mode?_judge_other call p mode (hidle w hun.waiting), hn]
  · exact Or.inl haw

theorem attentive_request {l : LockTable} (h : l.Attentive) (call : CallNo) (t : TxnId)
    (p : PageId) (mode : LockMode) (hidle : l.Idle t) :
    (l.request call t p mode).1.Attentive := by
  unfold request
  split
  · exact h
  · exact attentive_judge (h.but t) hidle call p mode

theorem attentive_resume {l : LockTable} (hs : l.Sound) (h : l.Attentive) {w : Waiter}
    (hw : w ∈ l.waiters) : (l.resume w).1.Attentive := by
  have hbut : (l.without w).AttentiveBut w.txn := by
    refine ⟨?_, ?_, h.acyclic⟩
    · -- The call left out is the one that asks, so any other transaction is as idle as before.
      intro u hu hi
      refine h.idle u fun v hv heq => ?_
      by_cases hc : v.call = w.call
      · exact hu (heq ▸ congrArg Waiter.txn (hs.eq_of_call hv hw hc))
      · exact hi v ((l.mem_without w v).2 ⟨hv, hc⟩) heq
    · intro v hv ha
      exact h.asleep v ((l.mem_without w v).1 hv).1 ha
  rw [resume_eq]
  exact attentive_judge hbut (idle_without hs hw) _ _ _

theorem attained_invariant {l : LockTable} (h : l.Attained) : l.Sound ∧ l.Attentive := by
  refine ⟨sound_attained h, ?_⟩
  -- The accounts are known to be sound already, so only the graph is carried along.
  induction h with
  | init => exact attentive_empty
  | request call t p mode _ hidle _ ih => exact attentive_request ih call t p mode hidle
  | resume w hr hw _ ih => exact attentive_resume (sound_attained hr) ih hw
  | release t p _ ih => exact attentive_release ih t p
  | releaseAll t hr ih => exact attentive_releaseAll (sound_attained hr) ih t

end LockTable

end RowStore
