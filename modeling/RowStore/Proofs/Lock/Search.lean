import Mathlib.Data.List.Perm.Basic
import RowStore.Lock.WaitGraph

/-!
# Searching the Wait Graph

The search answers the question it is asked, and so no cycle of waiting closes.

The search keeps a stack and a list of visited transactions and forgets everything
else, so neither half of its correctness can be had from the answer alone. What it
never loses is closure: whatever a visited transaction waits for is itself visited
or on the stack. So a target that can be reached from the stack can be reached from it
after each turn, and when the stack is empty it cannot be reached at all. In which
order a transaction's waits go on the stack does not matter for that.

A transaction that starts to wait gives up its former edges first. The question is
asked of the graph without them, and that is enough: a cycle through the new edges
has a first and a last use of them, and between its last use and its first it runs
through the graph that was searched.

## Main definitions

* `Stage`, `Turn`: How far a search has come, and how it goes on.
* `Explored`: What is true of it all the time.

## Theorems

* `Turn.explored`, `Turn.leads_iff`: A turn keeps this, and loses and finds no way to the target.
* `reaches_iff`: The search finds exactly what can be reached.
* `edge_clear`, `edge_forget`, `edge_waitOn`: The edges after each operation.
* `waitOn_eq_true_iff`: When a transaction may start to wait.
* `acyclic_clear`, `acyclic_forget`, `acyclic_waitOn`: No operation closes a cycle.
* `no_endless_wait`: In a graph without cycles no one waits along an endless path.
-/

namespace RowStore

namespace WaitGraph

theorem Path.trans {g : WaitGraph} {a b c : TxnId} (h₁ : g.Path a b) (h₂ : g.Path b c) :
    g.Path a c := by
  induction h₁ with
  | refl a => exact h₂
  | step hab _ ih => exact Path.step hab (ih h₂)

theorem Path.of_edge {g : WaitGraph} {a b : TxnId} (h : g.Edge a b) : g.Path a b :=
  Path.step h (Path.refl b)

/-- A path of a graph is a path of every graph with at least its edges. -/
theorem Path.mono {g g' : WaitGraph} (hsub : ∀ a b, g.Edge a b → g'.Edge a b) {a b : TxnId}
    (h : g.Path a b) : g'.Path a b := by
  induction h with
  | refl a => exact Path.refl a
  | step hab _ ih => exact Path.step (hsub _ _ hab) ih

/-! ## The search -/

theorem mem_fresh (g : WaitGraph) (visited : List TxnId) (t u : TxnId) :
    u ∈ g.fresh visited t ↔ g.Edge t u ∧ u ∉ visited := by
  simp [fresh, Edge]

/-- How far a search has come: the transactions that it has visited, and those it has yet to look
    at. -/
structure Stage where
  visited : List TxnId
  stack : List TxnId

/-- One turn of a search for a target. A transaction that was visited before is passed by, and any
    other is visited and traded for those it waits for, in whatever order they come. -/
inductive Turn (g : WaitGraph) (target : TxnId) : Stage → Stage → Prop
  | seen {t : TxnId} {visited rest : List TxnId} (other : t ≠ target) (seen : t ∈ visited) :
      Turn g target ⟨visited, t :: rest⟩ ⟨visited, rest⟩
  | opened {t : TxnId} {visited rest next : List TxnId} (other : t ≠ target) (new : t ∉ visited)
      (order : next.Perm (g.fresh (t :: visited) t)) :
      Turn g target ⟨visited, t :: rest⟩ ⟨t :: visited, next ++ rest⟩

/-- The target can be reached from what is on the stack. -/
def Stage.Leads (g : WaitGraph) (target : TxnId) (s : Stage) : Prop :=
  ∃ t ∈ s.stack, g.Path t target

/-- The visited transactions are closed under waiting, up to the stack, and the target is not among
    them. -/
def Explored (g : WaitGraph) (target : TxnId) (visited stack : List TxnId) : Prop :=
  ∀ v ∈ visited, v ≠ target ∧ ∀ u, g.Edge v u → u ∈ visited ∨ u ∈ stack

/-- From transactions closed under waiting up to the stack, the target is reached only by way of the
    stack. -/
theorem Explored.exit {g : WaitGraph} {target v : TxnId} {visited stack : List TxnId}
    (h : g.Explored target visited stack) (hv : v ∈ visited) (hp : g.Path v target) :
    ∃ t ∈ stack, g.Path t target := by
  induction hp with
  | refl a => exact absurd rfl (h a hv).1
  | step hab hp ih =>
      rcases (h _ hv).2 _ hab with hb | hb
      · exact ih h hb
      · exact ⟨_, hb, hp⟩

section Turn

variable {g : WaitGraph} {target : TxnId} {s u : Stage} (h : g.Turn target s u)
  (hx : g.Explored target s.visited s.stack)

include h hx

/-- What was visited stays closed up to the stack: what is taken off the stack is visited, and what
    it waits for is visited or on the stack. -/
theorem Turn.explored : g.Explored target u.visited u.stack := by
  cases h with
  | seen hne hv =>
      intro v hvv
      refine ⟨(hx v hvv).1, fun w hw => ?_⟩
      rcases (hx v hvv).2 w hw with hm | hm
      · exact Or.inl hm
      · rcases List.mem_cons.1 hm with rfl | hm
        · exact Or.inl hv
        · exact Or.inr hm
  | @opened t visited rest next hne _ hp =>
      intro v hvv
      rcases List.mem_cons.1 hvv with rfl | hvv
      · -- The transaction looked at last: what it waits for went on the stack.
        refine ⟨hne, fun w hw => ?_⟩
        by_cases hm : w ∈ v :: visited
        · exact Or.inl hm
        · exact Or.inr (List.mem_append_left _ (hp.mem_iff.2 ((g.mem_fresh _ v w).2 ⟨hw, hm⟩)))
      · refine ⟨(hx v hvv).1, fun w hw => ?_⟩
        rcases (hx v hvv).2 w hw with hm | hm
        · exact Or.inl (List.mem_cons_of_mem t hm)
        · rcases List.mem_cons.1 hm with rfl | hm
          · exact Or.inl List.mem_cons_self
          · exact Or.inr (List.mem_append_right _ hm)

/-- A turn loses no way to the target and finds none that was not there. -/
theorem Turn.leads_iff : s.Leads g target ↔ u.Leads g target := by
  have hx' := h.explored hx
  cases h with
  | @seen t visited rest _ hv =>
      constructor
      · rintro ⟨v, hm, hp⟩
        rcases List.mem_cons.1 hm with rfl | hm
        · exact hx'.exit hv hp
        · exact ⟨v, hm, hp⟩
      · rintro ⟨v, hm, hp⟩
        exact ⟨v, List.mem_cons_of_mem t hm, hp⟩
  | @opened t visited rest next _ _ hperm =>
      constructor
      · rintro ⟨v, hm, hp⟩
        rcases List.mem_cons.1 hm with rfl | hm
        · exact hx'.exit List.mem_cons_self hp
        · exact ⟨v, List.mem_append_right _ hm, hp⟩
      · rintro ⟨v, hm, hp⟩
        rcases List.mem_append.1 hm with hf | hr
        · have he := ((g.mem_fresh _ t v).1 (hperm.mem_iff.1 hf)).1
          exact ⟨t, List.mem_cons_self, Path.step he hp⟩
        · exact ⟨v, List.mem_cons_of_mem t hr, hp⟩

end Turn

/-- The search finds its target if it can be reached from the stack. -/
theorem search_iff (g : WaitGraph) (target : TxnId) (visited stack : List TxnId)
    (hx : g.Explored target visited stack) :
    g.search target visited stack = true ↔ Stage.Leads g target ⟨visited, stack⟩ := by
  -- The cases are those of the search: nothing left, found, seen before, and new.
  induction visited, stack using search.induct g target with
  | case1 visited =>
      rw [search]
      exact ⟨fun h => absurd h Bool.false_ne_true, fun ⟨_, hm, _⟩ => absurd hm List.not_mem_nil⟩
  | case2 visited rest =>
      rw [search, if_pos rfl]
      exact ⟨fun _ => ⟨target, List.mem_cons_self, Path.refl target⟩, fun _ => rfl⟩
  | case3 visited t rest hne hv ih =>
      have hturn : g.Turn target ⟨visited, t :: rest⟩ ⟨visited, rest⟩ :=
        .seen hne (List.contains_iff_mem.1 hv)
      rw [search, if_neg hne, if_pos hv, ih (hturn.explored hx), hturn.leads_iff hx]
  | case4 visited t rest hne hv ih =>
      have hturn : g.Turn target ⟨visited, t :: rest⟩
          ⟨t :: visited, g.fresh (t :: visited) t ++ rest⟩ :=
        .opened hne (mt List.contains_iff_mem.2 hv) (List.Perm.refl _)
      rw [search, if_neg hne, if_neg hv, ih (hturn.explored hx), hturn.leads_iff hx]

/-- At the beginning nothing has been visited, so there is nothing to show of it. -/
theorem explored_start (g : WaitGraph) (target : TxnId) (stack : List TxnId) :
    g.Explored target [] stack :=
  fun _ hv => absurd hv List.not_mem_nil

theorem leads_start (g : WaitGraph) (a b : TxnId) : Stage.Leads g b ⟨[], [a]⟩ ↔ g.Path a b := by
  simp only [Stage.Leads, List.mem_singleton, exists_eq_left]

/-- The search finds exactly what can be reached. -/
theorem reaches_iff (g : WaitGraph) (a b : TxnId) : g.reaches a b = true ↔ g.Path a b :=
  (g.search_iff b [] [a] (g.explored_start b [a])).trans (g.leads_start a b)

/-! ## The edges after an operation -/

theorem edge_clear (g : WaitGraph) (t a b : TxnId) :
    (g.clear t).Edge a b ↔ a ≠ t ∧ g.Edge a b := by
  simp only [Edge, next, clear, Assoc.get?_erase]
  split
  · rename_i h
    simp [h]
  · rename_i h
    simp [h]

theorem edge_insert (g : WaitGraph) (t : TxnId) (holders : List TxnId) (a b : TxnId) :
    Edge ⟨g.edges.insert t holders⟩ a b ↔ if a = t then b ∈ holders else g.Edge a b := by
  simp only [Edge, next, Assoc.get?_insert]
  split <;> rfl

/-- Those that a transaction waits for once another has ended. -/
theorem get?_forget (g : WaitGraph) (t a : TxnId) (others : List TxnId) :
    (g.forget t).edges.get? a = some others ↔
      ∃ l, g.edges.get? a = some l ∧ a ≠ t ∧ others = l.filter (· ≠ t) ∧ others ≠ [] := by
  rw [← Assoc.mem_entries_iff]
  simp only [forget, List.mem_filterMap]
  constructor
  · rintro ⟨e, he, h⟩
    simp only [Option.ite_none_left_eq_some, Option.some.injEq, Bool.or_eq_true,
      decide_eq_true_eq, List.isEmpty_iff, not_or] at h
    rcases h with ⟨⟨hne, hnil⟩, heq⟩
    cases heq
    exact ⟨e.2, (Assoc.mem_entries_iff _ _ _).1 he, hne, rfl, hnil⟩
  · rintro ⟨l, hl, hne, rfl, hnil⟩
    refine ⟨(a, l), (Assoc.mem_entries_iff _ _ _).2 hl, ?_⟩
    rw [if_neg]
    simp only [Bool.or_eq_true, decide_eq_true_eq, List.isEmpty_iff, not_or]
    exact ⟨hne, hnil⟩

theorem edge_forget (g : WaitGraph) (t a b : TxnId) :
    (g.forget t).Edge a b ↔ a ≠ t ∧ b ≠ t ∧ g.Edge a b := by
  -- An edge is a place on a list. Lists that become empty are dropped, and no edge is lost by it.
  have hmem : ∀ (g : WaitGraph), g.Edge a b ↔ ∃ l, g.edges.get? a = some l ∧ b ∈ l := by
    intro g
    unfold Edge next
    cases g.edges.get? a with
    | none => simp
    | some l => simp
  rw [hmem, hmem]
  constructor
  · rintro ⟨others, h, hb⟩
    rcases (g.get?_forget t a others).1 h with ⟨l, hl, hne, rfl, _⟩
    rw [List.mem_filter] at hb
    exact ⟨hne, of_decide_eq_true hb.2, l, hl, hb.1⟩
  · rintro ⟨hne, hbt, l, hl, hb⟩
    have hm : b ∈ l.filter (· ≠ t) := List.mem_filter.2 ⟨hb, decide_eq_true hbt⟩
    exact ⟨_, (g.get?_forget t a _).2 ⟨l, hl, hne, rfl, List.ne_nil_of_mem hm⟩, hm⟩

/-- A transaction may start to wait if it cannot be reached from those it would wait for. -/
theorem waitOn_eq_true_iff (g : WaitGraph) (t : TxnId) (holders : List TxnId) :
    (g.waitOn t holders).2 = true ↔ ∀ h ∈ holders, ¬ (g.clear t).Path h t := by
  unfold waitOn
  simp only
  split
  · rename_i ha
    -- One that leads back to the transaction is enough to refuse.
    rcases List.any_eq_true.1 ha with ⟨h, hm, hr⟩
    simp only [Bool.false_eq_true, false_iff, not_forall, not_not]
    exact ⟨h, hm, (reaches_iff _ _ _).1 hr⟩
  · rename_i ha
    simp only [true_iff]
    intro h hm hp
    exact ha (List.any_eq_true.2 ⟨h, hm, (reaches_iff _ _ _).2 hp⟩)

/-- The edges of a transaction that may wait are replaced, those of one that may not are dropped,
    and all others stay. -/
theorem edge_waitOn (g : WaitGraph) (t : TxnId) (holders : List TxnId) (a b : TxnId) :
    (g.waitOn t holders).1.Edge a b ↔
      if a = t then (g.waitOn t holders).2 = true ∧ b ∈ holders else g.Edge a b := by
  unfold waitOn
  simp only
  split
  · simp only [Bool.false_eq_true, false_and, edge_clear]
    split
    · rename_i h
      simp [h]
    · rename_i h
      simp [h]
  · simp only [true_and, edge_insert, edge_clear]
    split
    · rfl
    · rename_i h
      simp [h]

/-! ## Cycles -/

/-- Taking edges away closes no cycle. -/
theorem Acyclic.of_subgraph {g g' : WaitGraph} (h : g.Acyclic)
    (hsub : ∀ a b, g'.Edge a b → g.Edge a b) : g'.Acyclic :=
  fun a b he hp => h a b (hsub a b he) (hp.mono hsub)

theorem acyclic_clear {g : WaitGraph} (h : g.Acyclic) (t : TxnId) : (g.clear t).Acyclic :=
  h.of_subgraph fun a b he => ((g.edge_clear t a b).1 he).2

theorem acyclic_forget {g : WaitGraph} (h : g.Acyclic) (t : TxnId) : (g.forget t).Acyclic :=
  h.of_subgraph fun a b he => ((g.edge_forget t a b).1 he).2.2

variable {g : WaitGraph} {t : TxnId} {holders : List TxnId}

/-- A path that uses the new edges leads to their transaction before it uses the first. -/
theorem Path.before_insert {a b : TxnId} (h : Path ⟨(g.clear t).edges.insert t holders⟩ a b) :
    (g.clear t).Path a b ∨ (g.clear t).Path a t := by
  induction h with
  | refl a => exact Or.inl (Path.refl a)
  | @step a b c hab _ ih =>
      rw [edge_insert] at hab
      -- The edge is one of the transaction's, so the path was at the transaction before it.
      by_cases ha : a = t
      · exact Or.inr (ha ▸ Path.refl a)
      · rw [if_neg ha] at hab
        exact ih.imp (Path.step hab) (Path.step hab)

/-- A path that uses the new edges leads from one of the holders after it used the last. -/
theorem Path.after_insert {a b : TxnId} (h : Path ⟨(g.clear t).edges.insert t holders⟩ a b) :
    (g.clear t).Path a b ∨ ∃ h ∈ holders, (g.clear t).Path h b := by
  induction h with
  | refl a => exact Or.inl (Path.refl a)
  | @step a b c hab _ ih =>
      rcases ih with hbc | hh
      · rw [edge_insert] at hab
        -- The path goes on from a holder, and uses no new edge after that.
        by_cases ha : a = t
        · rw [if_pos ha] at hab
          exact Or.inr ⟨b, hab, hbc⟩
        · rw [if_neg ha] at hab
          exact Or.inl (Path.step hab hbc)
      · exact Or.inr hh

theorem acyclic_insert (h : g.Acyclic) (hfree : ∀ h ∈ holders, ¬ (g.clear t).Path h t) :
    Acyclic ⟨(g.clear t).edges.insert t holders⟩ := by
  have hc := acyclic_clear h t
  intro a b hab hba
  rw [edge_insert] at hab
  by_cases ha : a = t
  · -- The edge is a new one, and the way back led to the transaction before.
    subst ha
    rw [if_pos rfl] at hab
    exact hfree b hab (hba.before_insert.elim id id)
  · rw [if_neg ha] at hab
    rcases hba.before_insert with hp | hp
    · exact hc a b hab hp
    · rcases hba.after_insert with hq | ⟨h, hm, hq⟩
      · exact hc a b hab hq
      · exact hfree h hm (hq.trans (Path.step hab hp))

theorem acyclic_waitOn (h : g.Acyclic) (t : TxnId) (holders : List TxnId) :
    (g.waitOn t holders).1.Acyclic := by
  have hiff := g.waitOn_eq_true_iff t holders
  unfold waitOn at hiff ⊢
  simp only at hiff ⊢
  split
  · exact acyclic_clear h t
  · rename_i ha
    rw [if_neg ha] at hiff
    exact acyclic_insert h (hiff.1 rfl)

/-- The transactions that wait for someone. -/
def waiting (g : WaitGraph) : List TxnId := g.edges.keys

theorem mem_waiting_of_edge {a b : TxnId} (h : g.Edge a b) : a ∈ g.waiting := by
  rw [waiting, Assoc.mem_keys_iff]
  unfold Edge next at h
  cases hg : g.edges.get? a with
  | none =>
      rw [hg] at h
      cases h
  | some l => rfl

/-- Whoever is met later on a path of waiting can be reached from whoever was met before. -/
theorem path_of_chain (f : Nat → TxnId) (h : ∀ n, g.Edge (f n) (f (n + 1))) (m d : Nat) :
    g.Path (f m) (f (m + d)) := by
  induction d with
  | zero => exact Path.refl _
  | succ d ih => exact ih.trans (Path.of_edge (h (m + d)))

/-- In a graph without cycles no one waits along an endless path. All on the path wait, and only
    finitely many do, so one of them would be met twice. -/
theorem no_endless_wait (h : g.Acyclic) : ¬ ∃ f : Nat → TxnId, ∀ n, g.Edge (f n) (f (n + 1)) := by
  rintro ⟨f, hf⟩
  have hinj : ∀ m n, m < n → f m ≠ f n := by
    intro m n hlt heq
    have hp := path_of_chain f hf (m + 1) (n - (m + 1))
    rw [show m + 1 + (n - (m + 1)) = n by omega, ← heq] at hp
    exact h _ _ (hf m) hp
  have hnd : ((List.range (g.waiting.length + 1)).map f).Nodup := by
    rw [List.nodup_iff_pairwise_ne, List.pairwise_map]
    exact (List.pairwise_lt_range (n := g.waiting.length + 1)).imp fun hlt => hinj _ _ hlt
  have hsub : ∀ t ∈ (List.range (g.waiting.length + 1)).map f, t ∈ g.waiting := by
    intro t ht
    rcases List.mem_map.1 ht with ⟨n, _, rfl⟩
    exact mem_waiting_of_edge (hf n)
  have hle := (List.subperm_of_subset hnd hsub).length_le
  rw [List.length_map, List.length_range] at hle
  omega

end WaitGraph

end RowStore
