import Mathlib.Logic.Relation
import RowStore.Proofs.Lock.Search

/-!
# Who May Wait

A transaction may start to wait exactly if no cycle of waiting comes of it.

To start to wait is to give up the former waits and take on new ones. Whether a cycle
comes of it is a question about the graph as it would then be. The code never builds
that graph; it searches what is left without the former waits, from each of those to be
waited for. The answers agree because there was no cycle before: one that comes of the
new waits has to use one of them.

The search is told as turns. In which order a transaction's waits go on the stack is
left open, a transaction may be on it more than once, and the graph may have cycles.
However the turns go, there are no more of them than there is work in the graph, and
when there is no next one the answer is there and is the right one.

## Main definitions

* `Op`, `performAll`: What is done to a wait graph, from the empty one on.
* `Extended`: Who waits for whom if one transaction waits for others now.
* `Loopless`: No one comes back to itself.
* `Turns`, `Stage.verdict`: The turns of a search, and what it has found out.

## Theorems

* `waitOn_iff_loopless`: Who may start to wait.
* `loopless_performAll`: No cycle ever closes.
* `Turns.spent`: Every turn uses up some of the work.
* `Turns.ends`: A search comes to an end, with the right answer.
* `admits_acyclic_extensions`: All of this for every graph that can arise.
-/

namespace RowStore

namespace WaitGraph

/-- What can be done to a wait graph. -/
inductive Op where
  | waitOn (t : TxnId) (holders : List TxnId)
  | clear (t : TxnId)
  | forget (t : TxnId)

/-- The graph after an operation. -/
def perform (g : WaitGraph) : Op → WaitGraph
  | .waitOn t holders => (g.waitOn t holders).1
  | .clear t => g.clear t
  | .forget t => g.forget t

/-- One operation after another. -/
def performAll (g : WaitGraph) (ops : List Op) : WaitGraph := ops.foldl perform g

/-- Who waits for whom if one transaction gives up its waits and waits for these holders. -/
def Extended (g : WaitGraph) (t : TxnId) (holders : List TxnId) (a b : TxnId) : Prop :=
  (a ≠ t ∧ g.Edge a b) ∨ (a = t ∧ b ∈ holders)

/-- Along a relation no one comes back to itself. -/
def Loopless (R : TxnId → TxnId → Prop) : Prop := ∀ t, ¬ Relation.TransGen R t t

/-! ## Paths and cycles -/

theorem path_iff_reflTransGen (g : WaitGraph) (a b : TxnId) :
    g.Path a b ↔ Relation.ReflTransGen g.Edge a b := by
  constructor
  · intro h
    induction h with
    | refl a => exact .refl
    | step hab _ ih => exact .head hab ih
  · intro h
    induction h using Relation.ReflTransGen.head_induction_on with
    | refl => exact .refl b
    | head hab _ ih => exact .step hab ih

theorem loopless_iff_acyclic (g : WaitGraph) : Loopless g.Edge ↔ g.Acyclic := by
  have hloop : ∀ a, Relation.TransGen g.Edge a a ↔ ∃ b, g.Edge a b ∧ g.Path b a := by
    intro a
    simp only [Relation.TransGen.head'_iff, path_iff_reflTransGen]
  constructor
  · exact fun h a b hab hba => h a ((hloop a).2 ⟨b, hab, hba⟩)
  · intro h a ha
    rcases (hloop a).1 ha with ⟨b, hab, hba⟩
    exact h a b hab hba

/-! ## Starting to wait -/

theorem edge_extended (g : WaitGraph) (t : TxnId) (holders : List TxnId) :
    Edge ⟨(g.clear t).edges.insert t holders⟩ = g.Extended t holders := by
  funext a b
  rw [edge_insert, edge_clear, Extended, eq_iff_iff]
  by_cases ha : a = t
  · simp only [ha, if_true, ne_eq, not_true_eq_false, false_and, true_and, false_or]
  · simp only [ha, if_false, ne_eq, not_false_eq_true, true_and, false_and, or_false]

/-- A transaction may start to wait if no cycle comes of it. -/
theorem waitOn_iff_loopless {g : WaitGraph} (h : g.Acyclic) (t : TxnId) (holders : List TxnId) :
    (g.waitOn t holders).2 = true ↔ Loopless (g.Extended t holders) := by
  rw [waitOn_eq_true_iff, ← edge_extended, loopless_iff_acyclic]
  refine ⟨acyclic_insert h, fun hnew w hw hp => ?_⟩
  -- The way from a holder to the transaction is there after the new wait, which closes it.
  have hedge : Edge ⟨(g.clear t).edges.insert t holders⟩ t w := by
    rw [edge_insert, if_pos rfl]
    exact hw
  refine hnew t w hedge (hp.mono fun a b hab => ?_)
  rw [edge_insert, if_neg ((edge_clear ..).1 hab).1]
  exact hab

/-- What a transaction's question whether it may wait leaves of the graph. -/
theorem edge_waitOn_iff (g : WaitGraph) (t : TxnId) (holders : List TxnId) (a b : TxnId) :
    (g.waitOn t holders).1.Edge a b ↔
      if (g.waitOn t holders).2 then g.Extended t holders a b else a ≠ t ∧ g.Edge a b := by
  rw [edge_waitOn, Extended]
  by_cases ha : a = t <;> cases (g.waitOn t holders).2 <;> simp [ha]

/-! ## One operation after another -/

theorem acyclic_perform {g : WaitGraph} (h : g.Acyclic) (op : Op) : (g.perform op).Acyclic := by
  cases op with
  | waitOn t holders => exact acyclic_waitOn h t holders
  | clear t => exact acyclic_clear h t
  | forget t => exact acyclic_forget h t

theorem acyclic_performAll (ops : List Op) :
    ∀ {g : WaitGraph}, g.Acyclic → (g.performAll ops).Acyclic := by
  induction ops with
  | nil => exact fun h => h
  | cons op rest ih => exact fun h => ih (acyclic_perform h op)

theorem acyclic_empty : ({} : WaitGraph).Acyclic := fun _ _ h => absurd h List.not_mem_nil

/-! ## The turns of a search -/

/-- What a search has found out: that there is no way, as nothing is left to look at, that there is
    one, as it has come to its target, or nothing so far. -/
def Stage.verdict (target : TxnId) (s : Stage) : Option Bool :=
  match s.stack with
  | [] => some false
  | t :: _ => if t = target then some true else none

/-- The work that is left for a search. -/
def Stage.work (g : WaitGraph) (s : Stage) : Nat := g.pending s.visited + s.stack.length

/-- A number of turns of a search. -/
inductive Turns (g : WaitGraph) (target : TxnId) : Nat → Stage → Stage → Prop
  | zero (s : Stage) : Turns g target 0 s s
  | succ {n : Nat} {s u v : Stage} (first : g.Turn target s u) (later : Turns g target n u v) :
      Turns g target (n + 1) s v

variable {g : WaitGraph} {target : TxnId} {s u v : Stage}

/-- A transaction that is opened takes more work off than its waits put on the stack. -/
theorem Turn.work_lt (h : g.Turn target s u) : u.work g < s.work g := by
  cases h with
  | seen => exact Nat.lt_succ_self _
  | @opened t visited rest next _ hnew hperm =>
      have hp := g.pending_visit_le (mt List.contains_iff_mem.1 hnew)
      have hf : next.length ≤ (g.next t).length := by
        rw [hperm.length_eq]
        exact List.length_filter_le _ _
      simp only [Stage.work, List.length_append, List.length_cons]
      omega

/-- Every turn uses up some of the work. -/
theorem Turns.spent {n : Nat} (h : g.Turns target n s v) : n + v.work g ≤ s.work g := by
  induction h with
  | zero s => exact Nat.le_of_eq (Nat.zero_add _)
  | succ first _ ih =>
      have hlt := first.work_lt
      omega

theorem Turns.leads_iff {n : Nat} (h : g.Turns target n s v)
    (hx : g.Explored target s.visited s.stack) :
    s.Leads g target ↔ v.Leads g target := by
  induction h with
  | zero s => exact Iff.rfl
  | succ first _ ih => exact (first.leads_iff hx).trans (ih (first.explored hx))

/-- A search that has found nothing out can go on. -/
theorem Stage.exists_turn (h : s.verdict target = none) : ∃ u, g.Turn target s u := by
  rcases s with ⟨visited, stack⟩
  cases stack with
  | nil => cases h
  | cons t rest =>
      by_cases ht : t = target
      · simp only [Stage.verdict, if_pos ht] at h
        cases h
      · by_cases hv : t ∈ visited
        · exact ⟨_, .seen ht hv⟩
        · exact ⟨_, .opened ht hv (List.Perm.refl _)⟩

/-- What a search has found out is so. -/
theorem Stage.leads_of_verdict {answer : Bool} (h : s.verdict target = some answer) :
    s.Leads g target ↔ answer = true := by
  rcases s with ⟨visited, stack⟩
  cases stack with
  | nil =>
      cases h
      exact ⟨fun ⟨_, hm, _⟩ => absurd hm List.not_mem_nil, fun h => absurd h Bool.false_ne_true⟩
  | cons t rest =>
      by_cases ht : t = target
      · simp only [Stage.verdict, if_pos ht] at h
        cases h
        exact ⟨fun _ => rfl, fun _ => ⟨t, List.mem_cons_self, ht ▸ Path.refl t⟩⟩
      · simp only [Stage.verdict, if_neg ht] at h
        cases h

/-- A search from one transaction for another takes no more turns than there is work in the graph,
    and when it does not go on it has the answer. -/
theorem Turns.ends {a b : TxnId} {n : Nat} (h : g.Turns b n ⟨[], [a]⟩ s) :
    n ≤ g.pending [] + 1 ∧
      match s.verdict b with
      | none => ∃ u, g.Turn b s u
      | some answer => answer = g.reaches a b := by
  refine ⟨Nat.le_trans (Nat.le_add_right _ _) h.spent, ?_⟩
  cases hs : s.verdict b with
  | none => exact Stage.exists_turn hs
  | some answer =>
      -- There is a way from the last stage if there was one from the first, where only the start
      -- is on the stack.
      change answer = g.reaches a b
      rw [Bool.eq_iff_iff, reaches_iff, ← leads_start, h.leads_iff (g.explored_start b [a])]
      exact (Stage.leads_of_verdict hs).symm

/-- Whatever was done to a wait graph since it was empty: no transaction waits for itself, directly
    or through others. Whether a transaction may wait for others, itself among them or not, is
    whether this would stay so. If it may then its waits are these and no longer its former ones, if
    not then it has none, and all others keep theirs.  In every graph, with cycles or without, one
    transaction is said to reach another exactly if a way of any number of waits leads there. A
    search comes to this answer by no more turns than there is work, in whatever order it takes up
    what a transaction waits for. -/
theorem admits_acyclic_extensions (ops : List Op) :
    let g := ({} : WaitGraph).performAll ops
    Loopless g.Edge ∧
      (∀ t holders,
        ((g.waitOn t holders).2 = true ↔ Loopless (g.Extended t holders)) ∧
        ∀ a b, (g.waitOn t holders).1.Edge a b ↔
          if (g.waitOn t holders).2 then g.Extended t holders a b else a ≠ t ∧ g.Edge a b) ∧
      ∀ (k : WaitGraph) (a b : TxnId),
        (k.reaches a b = true ↔ Relation.ReflTransGen k.Edge a b) ∧
        ∀ n s, k.Turns b n ⟨[], [a]⟩ s → n ≤ k.pending [] + 1 ∧
          match s.verdict b with
          | none => ∃ u, k.Turn b s u
          | some answer => answer = k.reaches a b := by
  intro g
  have hg : g.Acyclic := acyclic_performAll ops acyclic_empty
  refine ⟨(loopless_iff_acyclic g).2 hg, fun t holders => ?_, fun k a b => ?_⟩
  · exact ⟨waitOn_iff_loopless hg t holders, edge_waitOn_iff g t holders⟩
  · exact ⟨(k.reaches_iff a b).trans (k.path_iff_reflTransGen a b), fun _ _ h => h.ends⟩

end WaitGraph

end RowStore
