import RowStore.Assoc
import RowStore.Ident

/-!
# Who Waits for Whom

The transactions that each waiting transaction waits for.

A transaction may start to wait only if none of those it would wait for waits,
directly or through others, for it. So no cycle of waiting ever closes, and the
transaction that would have closed one is told instead.

The question is answered by a search that keeps a stack of transactions to look
at and a list of those already looked at. The search ends on every graph, cyclic
ones too: each step either takes one transaction off the stack for good, or looks
at a new one and trades it for those it waits for. `pending` counts what is left.

## Main definitions

* `WaitGraph`: The edges, from a waiting transaction to those it waits for.
* `WaitGraph.Edge`, `WaitGraph.Path`: One step of waiting, and any number of them.
* `WaitGraph.reaches`: Whether a search from one transaction finds another.
* `WaitGraph.waitOn`: Replacing a transaction's edges, unless that closes a cycle.
* `WaitGraph.clear`, `WaitGraph.forget`: A transaction stops waiting; a transaction ends.
-/

namespace RowStore

/-- The transactions that each waiting transaction waits for. -/
structure WaitGraph where
  edges : Assoc TxnId (List TxnId) := ∅
  deriving DecidableEq, Repr, Inhabited

namespace WaitGraph

/-- Those a transaction waits for. -/
def next (g : WaitGraph) (t : TxnId) : List TxnId := (g.edges.get? t).getD []

/-- The first transaction waits for the second. -/
def Edge (g : WaitGraph) (a b : TxnId) : Prop := b ∈ g.next a

/-- The first transaction waits for the second, directly, through others, or by being it. -/
inductive Path (g : WaitGraph) : TxnId → TxnId → Prop
  | refl (a : TxnId) : Path g a a
  | step {a b c : TxnId} : g.Edge a b → Path g b c → Path g a c

/-- No transaction waits for itself, directly or through others. -/
def Acyclic (g : WaitGraph) : Prop := ∀ a b, g.Edge a b → ¬ g.Path b a

/-- The work left in some entries, of which those of the visited transactions are done: one for
    the transaction that waits, and one for each that it waits for. -/
def weight (visited : List TxnId) : List (TxnId × List TxnId) → Nat
  | [] => 0
  | e :: r => (if visited.contains e.1 then 0 else e.2.length + 1) + weight visited r

/-- The work left in the transactions not looked at yet. -/
def pending (g : WaitGraph) (visited : List TxnId) : Nat := weight visited g.edges.entries

theorem weight_cons_le (visited : List TxnId) (t : TxnId) (entries : List (TxnId × List TxnId)) :
    weight (t :: visited) entries ≤ weight visited entries := by
  induction entries with
  | nil => exact Nat.le_refl _
  | cons e r ih =>
    simp only [weight]
    by_cases hv : visited.contains e.1
    · have hc : (t :: visited).contains e.1 := by simp_all
      rw [if_pos hc, if_pos hv]
      omega
    · rw [if_neg hv]
      split <;> omega

/-- Looking at a transaction for the first time takes at least as much off the work left as it
    puts on the stack. -/
theorem pending_visit_le (g : WaitGraph) {visited : List TxnId} {t : TxnId}
    (h : ¬ visited.contains t) :
    g.pending (t :: visited) + (g.next t).length ≤ g.pending visited := by
  unfold pending next Assoc.get?
  induction g.edges.entries with
  | nil => simp [weight]
  | cons e r ih =>
    simp only [weight, List.find?_cons]
    by_cases ht : e.1 = t
    · have hr := weight_cons_le visited t r
      have hc : (t :: visited).contains e.1 := by simp [ht]
      rw [if_pos hc, if_neg (ht ▸ h)]
      simp only [ht, decide_true, Option.map_some, Option.getD_some]
      omega
    · have hc : (t :: visited).contains e.1 = visited.contains e.1 := by simp [ht]
      rw [hc]
      simp only [ht, decide_false]
      omega

/-- Those a transaction waits for, as far as they were not visited. -/
def fresh (g : WaitGraph) (visited : List TxnId) (t : TxnId) : List TxnId :=
  (g.next t).filter fun u => !visited.contains u

/-- Search for a transaction from those on the stack, passing by those already visited. -/
def search (g : WaitGraph) (target : TxnId) (visited stack : List TxnId) : Bool :=
  match stack with
  | [] => false
  | t :: rest =>
    if t = target then true
    else if visited.contains t then search g target visited rest
    else search g target (t :: visited) (g.fresh (t :: visited) t ++ rest)
termination_by g.pending visited + stack.length
decreasing_by
  · exact Nat.add_lt_add_left (Nat.lt_succ_self _) _
  · rename_i hv
    have hp := g.pending_visit_le hv
    have hf : (g.fresh (t :: visited) t).length ≤ (g.next t).length := List.length_filter_le _ _
    simp only [List.length_append, List.length_cons]
    omega

/-- Whether the first transaction waits for the second, directly, through others, or by being
    it. -/
def reaches (g : WaitGraph) (a b : TxnId) : Bool := g.search b [] [a]

/-- A transaction waits for nobody any more. -/
def clear (g : WaitGraph) (t : TxnId) : WaitGraph := ⟨g.edges.erase t⟩

/-- Have a transaction wait for these others and no longer for anyone else, unless one of them
    waits for it. Then it waits for nobody, and the answer is `false`. -/
def waitOn (g : WaitGraph) (t : TxnId) (holders : List TxnId) : WaitGraph × Bool :=
  let rest := g.clear t
  if holders.any fun h => rest.reaches h t then (rest, false)
  else (⟨rest.edges.insert t holders⟩, true)

/-- A transaction ends: it waits for nobody and nobody waits for it. One that waited for it alone
    waits no more. -/
def forget (g : WaitGraph) (t : TxnId) : WaitGraph where
  edges :=
    ⟨(g.edges.entries.filterMap fun e =>
        let rest := e.2.filter (· ≠ t)
        if e.1 = t || rest.isEmpty then none else some (e.1, rest)), by
      have hsub : ∀ l : List (TxnId × List TxnId),
          ((l.filterMap fun e =>
            let rest := e.2.filter (· ≠ t)
            if e.1 = t || rest.isEmpty then none else some (e.1, rest)).map Prod.fst).Sublist
            (l.map Prod.fst) := by
        intro l
        induction l with
        | nil => exact List.Sublist.slnil
        | cons e r ih =>
          rw [List.filterMap_cons]
          split
          · exact ih.cons _
          · rename_i b hb
            simp only [Option.ite_none_left_eq_some, Option.some.injEq] at hb
            rw [← hb.2]
            exact ih.cons_cons _
      exact (hsub _).nodup g.edges.distinct⟩

end WaitGraph

end RowStore
