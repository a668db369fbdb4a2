import RowStore.Proofs.Lock.Accounts
import RowStore.Proofs.Lock.Search

/-!
# Those Who Wait

No call sleeps while it could be granted its lock, and no one waits in a circle.

The graph of who waits for whom is not computed from the holders. It is kept beside
them and brought up to date piecemeal: a call writes its edges when it starts to
wait and whenever it was woken, a granted call clears them, and a transaction that
ends takes the edges that lead to it out of the graph. In between the edges of a
woken call may name transactions that are long gone.

So the edges can be trusted only for calls that sleep. For those they are exactly
the transactions in the way, and there is at least one. What keeps this true is
that whoever changes the holders of a page wakes all that wait for it, and that a
transaction that leaves the graph leaves its pages first.

`Reachable` lets calls ask, resume, and give locks back in any order, as long as no
transaction has two calls that wait and none ends while it has one.

## Main definitions

* `LockTable.Reachable`: The tables that some sequence of operations leads to.
* `LockTable.Watchful`: What is true of the graph, whoever was woken.
* `LockTable.WatchfulBut`: The same, but for the edges of one transaction that is about to be
  judged.
* `LockTable.Undisturbed`: A call that waits is left as it was.

## Theorems

* `undisturbed_release`, `asleep_judge`: What an operation leaves of the calls that sleep.
* `edge_releaseAll`, `edge_judge`: The edges after an operation.
* `watchful_judge`: Judging a request brings the edges of its transaction up to date.
* `reachable_invariant`: Every reachable table is sound and watchful.
* `waiters_blocked_acyclic`: When no one is left to be woken, each call that waits has someone in
  its way, the graph names exactly those, and no one waits in a circle.
-/

namespace RowStore

namespace LockTable

/-- The tables that can be reached from the empty one, a transaction having one call at a time.
    A lock can be given back at any time, all of them only between calls. -/
inductive Reachable : LockTable → Prop
  | init : Reachable {}
  | request {l : LockTable} (call : CallNo) (t : TxnId) (p : PageId) (mode : LockMode) :
      Reachable l → l.Idle t → (∀ w ∈ l.waiters, w.call ≠ call) →
      Reachable (l.request call t p mode).1
  | resume {l : LockTable} (w : Waiter) :
      Reachable l → w ∈ l.waiters → w.woken = true → Reachable (l.resume w).1
  | release {l : LockTable} (t : TxnId) (p : PageId) : Reachable l → Reachable (l.release t p)
  | releaseAll {l : LockTable} (t : TxnId) :
      Reachable l → l.Idle t → Reachable (l.releaseAll t)

/-- The edges of a call that sleeps lead to those in its way. There is someone in its way. -/
def Aware (l : LockTable) (w : Waiter) : Prop :=
  l.blockers w.txn w.page w.mode ≠ [] ∧
    ∀ u, l.graph.Edge w.txn u ↔ u ∈ l.blockers w.txn w.page w.mode

/-- Who has no call that waits has no edges, who sleeps has the right ones, and there is no
    cycle. -/
structure Watchful (l : LockTable) : Prop where
  idle : ∀ t, l.Idle t → ∀ u, ¬ l.graph.Edge t u
  asleep : ∀ w ∈ l.waiters, w.woken = false → l.Aware w
  acyclic : l.graph.Acyclic

/-- The same for a table in which one transaction, with no call that waits, may have edges left. -/
structure WatchfulBut (l : LockTable) (t : TxnId) : Prop where
  idle : ∀ u, u ≠ t → l.Idle u → ∀ v, ¬ l.graph.Edge u v
  asleep : ∀ w ∈ l.waiters, w.woken = false → l.Aware w
  acyclic : l.graph.Acyclic

theorem Watchful.but {l : LockTable} (h : l.Watchful) (t : TxnId) : l.WatchfulBut t :=
  ⟨fun u _ hu => h.idle u hu, h.asleep, h.acyclic⟩

theorem watchful_empty : Watchful {} where
  idle _ _ _ h := by cases h
  asleep w hw := by cases hw
  acyclic _ _ h := by cases h

/-- A call sees the same if its page has the same holders and its transaction the same edges. -/
theorem Aware.congr {l l' : LockTable} {w : Waiter} (h : l.Aware w)
    (hh : l'.holdersOf w.page = l.holdersOf w.page)
    (he : ∀ u, l'.graph.Edge w.txn u ↔ l.graph.Edge w.txn u) : l'.Aware w := by
  have hb : l'.blockers w.txn w.page w.mode = l.blockers w.txn w.page w.mode := by
    simp only [blockers, hh]
  unfold Aware
  rw [hb]
  exact ⟨h.1, fun u => (he u).trans (h.2 u)⟩

/-- Waking calls does not change who has one. -/
theorem Stirred.idle_iff {l l' : LockTable} {S : PageId → Bool} (h : Stirred l l' S)
    (t : TxnId) : l'.Idle t ↔ l.Idle t := by
  unfold Idle
  rw [h.waiters]
  simp only [List.mem_map, forall_exists_index, and_imp, forall_apply_eq_imp_iff₂, rouse_txn]

/-- Who sleeps after calls were woken slept before, and the page has the same holders. -/
theorem Stirred.asleep {l l' : LockTable} {S : PageId → Bool} (h : Stirred l l' S) {w : Waiter}
    (hw : w ∈ l'.waiters) (ha : w.woken = false) :
    w ∈ l.waiters ∧ l'.holdersOf w.page = l.holdersOf w.page := by
  rw [h.waiters] at hw
  rcases List.mem_map.1 hw with ⟨v, hv, rfl⟩
  rcases rouse_asleep ha with ⟨hp, he⟩
  rw [he]
  exact ⟨hv, h.holders v.page hp⟩

/-- An operation leaves a call that waits as it is: the call waited before, on a page that has the
    same holders, and the edges of its transaction are the same. -/
structure Undisturbed (l l' : LockTable) (w : Waiter) : Prop where
  waiting : w ∈ l.waiters
  holders : l'.holdersOf w.page = l.holdersOf w.page
  edges : ∀ u, l'.graph.Edge w.txn u ↔ l.graph.Edge w.txn u

theorem Undisturbed.aware {l l' : LockTable} {w : Waiter} (h : Undisturbed l l' w)
    (ha : l.Aware w) : l'.Aware w := ha.congr h.holders h.edges

/-! ## Giving locks back -/

theorem graph_release (l : LockTable) (t : TxnId) (p : PageId) :
    (l.release t p).graph = l.graph := by
  unfold release vacate
  simp only
  split <;> rfl

/-- A call on the page that was given back was woken, so one that sleeps is on another page. -/
theorem undisturbed_release {l : LockTable} {t : TxnId} {p : PageId} {w : Waiter}
    (hw : w ∈ (l.release t p).waiters) (ha : w.woken = false) :
    Undisturbed l (l.release t p) w := by
  rcases l.stirred_release t p with ⟨S, hst⟩
  rcases hst.asleep hw ha with ⟨hm, hh⟩
  exact ⟨hm, hh, fun u => by rw [graph_release]⟩

theorem watchful_release {l : LockTable} (h : l.Watchful) (t : TxnId) (p : PageId) :
    (l.release t p).Watchful := by
  rcases l.stirred_release t p with ⟨S, hst⟩
  refine ⟨?_, ?_, ?_⟩
  · intro u hu v
    rw [graph_release]
    exact h.idle u ((hst.idle_iff u).1 hu) v
  · intro w hw ha
    have hun := undisturbed_release hw ha
    exact hun.aware (h.asleep w hun.waiting ha)
  · rw [graph_release]
    exact h.acyclic

theorem graph_foldl_vacate (t : TxnId) (pages : List PageId) (l : LockTable) :
    (pages.foldl (fun l p => l.vacate t p) l).graph = l.graph := by
  induction pages generalizing l with
  | nil => rfl
  | cons p r ih =>
      rw [List.foldl_cons, ih]
      unfold vacate
      simp only
      split <;> rfl

theorem graph_releaseAll (l : LockTable) (t : TxnId) :
    (l.releaseAll t).graph = l.graph.forget t := by
  unfold releaseAll
  simp only
  rw [graph_foldl_vacate]

theorem edge_releaseAll (l : LockTable) (t a b : TxnId) :
    (l.releaseAll t).graph.Edge a b ↔ a ≠ t ∧ b ≠ t ∧ l.graph.Edge a b := by
  rw [graph_releaseAll, WaitGraph.edge_forget]

/-- Who has left a page is in no one's way there. -/
theorem not_mem_blockers_release (h : Holders) (t u : TxnId) (mode : LockMode) :
    t ∉ (h.release t).blockers u mode := by
  rw [Holders.mem_blockers]
  rintro ⟨_, hx | ⟨_, hsh⟩⟩
  · unfold Holders.release at hx
    simp only at hx
    split at hx
    · cases hx
    · rename_i hne
      exact hne hx
  · simp [Holders.release] at hsh

/-- The transaction that gives everything back was not on the page of a call that sleeps on, so the
    edges of that call do not lead to it. -/
theorem aware_releaseAll {l : LockTable} (hs : l.Sound) {t : TxnId} {w : Waiter}
    (hw : w ∈ (l.releaseAll t).waiters) (ha : w.woken = false) (haw : l.Aware w)
    (hne : w.txn ≠ t) : (l.releaseAll t).Aware w := by
  rcases l.stirred_releaseAll t with ⟨S, hst⟩
  rcases hst.asleep hw ha with ⟨_, hh⟩
  refine haw.congr hh fun u => ?_
  rw [edge_releaseAll]
  refine ⟨fun hu => hu.2.2, fun hu => ⟨hne, ?_, hu⟩⟩
  rintro rfl
  have hb := (haw.2 u).1 hu
  unfold blockers at hb
  rw [← hh, hs.backed.holdersOf_releaseAll] at hb
  exact not_mem_blockers_release _ _ _ _ hb

/-- Giving everything back gives no one edges. -/
theorem idle_releaseAll {l : LockTable} (h : ∀ u, l.Idle u → ∀ v, ¬ l.graph.Edge u v) (t : TxnId) :
    ∀ u, (l.releaseAll t).Idle u → ∀ v, ¬ (l.releaseAll t).graph.Edge u v := by
  rcases l.stirred_releaseAll t with ⟨S, hst⟩
  intro u hu v hv
  exact h u ((hst.idle_iff u).1 hu) v ((l.edge_releaseAll t u v).1 hv).2.2

theorem acyclic_releaseAll {l : LockTable} (h : l.graph.Acyclic) (t : TxnId) :
    (l.releaseAll t).graph.Acyclic := by
  rw [graph_releaseAll]
  exact WaitGraph.acyclic_forget h t

theorem watchful_releaseAll {l : LockTable} (hs : l.Sound) (h : l.Watchful) (t : TxnId)
    (hidle : l.Idle t) : (l.releaseAll t).Watchful := by
  refine ⟨idle_releaseAll h.idle t, ?_, acyclic_releaseAll h.acyclic t⟩
  intro w hw ha
  rcases l.stirred_releaseAll t with ⟨S, hst⟩
  rcases hst.asleep hw ha with ⟨hm, _⟩
  exact aware_releaseAll hs hw ha (h.asleep w hm ha) (hidle w hm)

/-! ## Asking for a lock -/

section judge

variable {l : LockTable} {t : TxnId}

/-- The edges after a request was judged: the other transactions keep theirs, and the one that asks
    has those to whoever is in its way if its call waits, and else none. -/
theorem edge_judge (call : CallNo) (p : PageId) (mode : LockMode) (a b : TxnId) :
    (l.judge call t p mode).1.graph.Edge a b ↔
      if a = t then (l.judge call t p mode).2 = .waits ∧ b ∈ l.blockers t p mode
      else l.graph.Edge a b := by
  rcases l.judge_cases call t p mode with ⟨_, he⟩ | ⟨_, hok, he⟩ | ⟨_, hno, he⟩
  · have hg : (l.grant t p mode).graph = l.graph.clear t := rfl
    rw [he]
    simp only [hg, WaitGraph.edge_clear, reduceCtorEq, false_and]
    by_cases ha : a = t <;> simp [ha]
  · rw [he]
    simp only [enlist, WaitGraph.edge_waitOn, hok, true_and]
  · rw [he]
    simp only [refuse, WaitGraph.edge_waitOn, hno, Bool.false_eq_true, reduceCtorEq, false_and]

theorem acyclic_judge (h : l.graph.Acyclic) (call : CallNo) (p : PageId) (mode : LockMode) :
    (l.judge call t p mode).1.graph.Acyclic := by
  rcases l.judge_cases call t p mode with ⟨_, he⟩ | ⟨_, _, he⟩ | ⟨_, _, he⟩
  · rw [he]
    exact WaitGraph.acyclic_clear h t
  · rw [he]
    exact WaitGraph.acyclic_waitOn h t _
  · rw [he]
    exact WaitGraph.acyclic_waitOn h t _

/-- Who has no call that waits has no edges. The one that asks has none left unless it waits. -/
theorem idle_judge (h : ∀ u, u ≠ t → l.Idle u → ∀ v, ¬ l.graph.Edge u v) (call : CallNo)
    (p : PageId) (mode : LockMode) :
    ∀ u, (l.judge call t p mode).1.Idle u → ∀ v, ¬ (l.judge call t p mode).1.graph.Edge u v := by
  intro u hu v hv
  rw [edge_judge] at hv
  rcases l.judge_cases call t p mode with ⟨_, he⟩ | ⟨_, _, he⟩ | ⟨_, _, he⟩
  · rw [he] at hu hv
    split at hv
    · cases hv.1
    · rename_i hne
      exact h u hne (((l.stirred_grant t p mode).idle_iff u).1 hu) v hv
  · rw [he] at hu
    have hne : u ≠ t := fun heq => hu _ (List.mem_append_right _ List.mem_cons_self) heq.symm
    rw [if_neg hne] at hv
    exact h u hne (fun w hw => hu w (List.mem_append_left _ hw)) v hv
  · rw [he] at hu hv
    split at hv
    · cases hv.1
    · rename_i hne
      exact h u hne hu v hv

/-- Who sleeps after a request was judged is left as it was, or is the call that asked, which has
    the right edges. -/
theorem asleep_judge (hidle : l.Idle t) {call : CallNo} {p : PageId} {mode : LockMode} {w : Waiter}
    (hw : w ∈ (l.judge call t p mode).1.waiters) (ha : w.woken = false) :
    Undisturbed l (l.judge call t p mode).1 w ∨ (l.judge call t p mode).1.Aware w := by
  -- The other calls that wait belong to other transactions, whose edges stay.
  have hedge : w ∈ l.waiters → ∀ u,
      (l.judge call t p mode).1.graph.Edge w.txn u ↔ l.graph.Edge w.txn u := by
    intro hm u
    rw [edge_judge, if_neg (hidle w hm)]
  have hself := l.edge_judge (t := t) call p mode t
  rcases l.judge_cases call t p mode with ⟨_, he⟩ | ⟨hb, _, he⟩ | ⟨_, _, he⟩
  · rw [he] at hw hedge ⊢
    -- Those on the page were woken, because they have one more in their way now.
    rcases (l.stirred_grant t p mode).asleep hw ha with ⟨hm, hh⟩
    exact Or.inl ⟨hm, hh, hedge hm⟩
  · rw [he] at hw hedge hself ⊢
    rcases List.mem_append.1 hw with hm | hm
    · exact Or.inl ⟨hm, rfl, hedge hm⟩
    · rcases List.mem_singleton.1 hm with rfl
      refine Or.inr ⟨hb, fun u => ?_⟩
      rw [hself, if_pos rfl]
      exact and_iff_right rfl
  · rw [he] at hw hedge ⊢
    exact Or.inl ⟨hw, rfl, hedge hw⟩

end judge

/-- Judging a request brings the edges of its transaction up to date: there are none left if it was
    granted or refused, and the right ones if it waits. -/
theorem watchful_judge {l : LockTable} {t : TxnId} (h : l.WatchfulBut t) (hidle : l.Idle t)
    (call : CallNo) (p : PageId) (mode : LockMode) : (l.judge call t p mode).1.Watchful := by
  refine ⟨idle_judge h.idle call p mode, ?_, acyclic_judge h.acyclic call p mode⟩
  intro w hw ha
  rcases asleep_judge hidle hw ha with hun | haw
  · exact hun.aware (h.asleep w hun.waiting ha)
  · exact haw

theorem watchful_request {l : LockTable} (h : l.Watchful) (call : CallNo) (t : TxnId)
    (p : PageId) (mode : LockMode) (hidle : l.Idle t) :
    (l.request call t p mode).1.Watchful := by
  unfold request
  split
  · exact h
  · exact watchful_judge (h.but t) hidle call p mode

theorem watchful_resume {l : LockTable} (hs : l.Sound) (h : l.Watchful) {w : Waiter}
    (hw : w ∈ l.waiters) : (l.resume w).1.Watchful := by
  have hbut : (l.without w).WatchfulBut w.txn := by
    refine ⟨?_, ?_, h.acyclic⟩
    · -- The call left out is the one that asks, so any other transaction is as idle as before.
      intro u hu hi
      refine h.idle u fun v hv heq => ?_
      by_cases hc : v.call = w.call
      · exact hu (heq ▸ congrArg Waiter.txn (hs.eq_of_call hv hw hc))
      · exact hi v ((l.mem_without w v).2 ⟨hv, hc⟩) heq
    · intro v hv ha
      exact (h.asleep v ((l.mem_without w v).1 hv).1 ha).congr rfl fun _ => Iff.rfl
  rw [resume_eq]
  exact watchful_judge hbut (idle_without hs hw) _ _ _

/-! ## All reachable tables -/

theorem reachable_invariant {l : LockTable} (h : l.Reachable) : l.Sound ∧ l.Watchful := by
  -- One case for each way to go on, with the accounts and the edges kept side by side.
  induction h with
  | init => exact ⟨sound_empty, watchful_empty⟩
  | request call t p mode _ hidle hfresh ih =>
      exact ⟨sound_request ih.1 call t p mode hidle hfresh,
        watchful_request ih.2 call t p mode hidle⟩
  | resume w _ hw _ ih => exact ⟨sound_resume ih.1 hw, watchful_resume ih.1 ih.2 hw⟩
  | release t p _ ih => exact ⟨sound_release ih.1 t p, watchful_release ih.2 t p⟩
  | releaseAll t _ hidle ih =>
      exact ⟨sound_releaseAll ih.1 t, watchful_releaseAll ih.1 ih.2 t hidle⟩

/-- When no one is left to be woken, each call that waits has someone in its way, the edges of its
    transaction lead exactly to those, a transaction without such a call has no edges, and no one
    waits in a circle: along the edges no one waits without end, and wherever they end is a
    transaction with no call that waits. -/
theorem waiters_blocked_acyclic (l : LockTable) (h : l.Reachable)
    (hquiet : ∀ w ∈ l.waiters, w.woken = false) :
    (∀ w ∈ l.waiters, l.blockers w.txn w.page w.mode ≠ []) ∧
    (∀ w ∈ l.waiters, ∀ u, l.graph.Edge w.txn u ↔ u ∈ l.blockers w.txn w.page w.mode) ∧
    (∀ t, l.Idle t → ∀ u, ¬ l.graph.Edge t u) ∧
    l.graph.Acyclic ∧
    (¬ ∃ f : Nat → TxnId, ∀ n, l.graph.Edge (f n) (f (n + 1))) ∧
    (∀ w ∈ l.waiters, ∀ t, l.graph.Path w.txn t → (∀ u, ¬ l.graph.Edge t u) → l.Idle t) := by
  rcases reachable_invariant h with ⟨_, hw⟩
  have haware : ∀ w ∈ l.waiters, l.Aware w := fun w hm => hw.asleep w hm (hquiet w hm)
  refine ⟨fun w hm => (haware w hm).1, fun w hm => (haware w hm).2, hw.idle, hw.acyclic,
    WaitGraph.no_endless_wait hw.acyclic, ?_⟩
  -- A transaction at the end of the edges that waited would have an edge to follow.
  rintro w - t - hend v hv rfl
  rcases List.exists_mem_of_ne_nil _ (haware v hv).1 with ⟨u, hu⟩
  exact hend u (((haware v hv).2 u).2 hu)

/-- Two calls wait for a writer. The writer ends, the reader is let in first, and the other writer
    finds itself behind the reader. -/
def relay : LockTable :=
  let p : PageId := ⟨⟨1⟩, 0⟩
  let l := (({} : LockTable).request ⟨0⟩ ⟨1⟩ p .exclusive).1
  let l := ((l.request ⟨1⟩ ⟨2⟩ p .exclusive).1.request ⟨2⟩ ⟨3⟩ p .shared).1
  let l := ((l.releaseAll ⟨1⟩).resume ⟨⟨2⟩, ⟨3⟩, p, .shared, true⟩).1
  (l.resume ⟨⟨1⟩, ⟨2⟩, p, .exclusive, true⟩).1

theorem relay_waits :
    (∀ w ∈ relay.waiters, w.woken = false) ∧ ¬ relay.Idle ⟨2⟩ ∧
      (∀ w ∈ relay.waiters, relay.blockers w.txn w.page w.mode ≠ []) ∧
      (∀ w ∈ relay.waiters, ∀ u,
        relay.graph.Edge w.txn u ↔ u ∈ relay.blockers w.txn w.page w.mode) ∧
      relay.graph.Acyclic := by
  have hr : relay.Reachable := by
    refine .resume _ (.resume _ (.releaseAll _ (.request _ _ _ _ (.request _ _ _ _
      (.request _ _ _ _ .init ?_ ?_) ?_ ?_) ?_ ?_) ?_) ?_ ?_) ?_ ?_
    all_goals decide +kernel
  have hq : ∀ w ∈ relay.waiters, w.woken = false := by decide +kernel
  have hw : ¬ relay.Idle ⟨2⟩ := by decide +kernel
  have h := waiters_blocked_acyclic relay hr hq
  exact ⟨hq, hw, h.1, h.2.1, h.2.2.2.1⟩

end LockTable

end RowStore
