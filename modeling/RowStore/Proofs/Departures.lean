import RowStore.Proofs.Keeping
import RowStore.Proofs.Lock.Attained
import RowStore.Recency

/-!
# What a Transaction Leaves Behind

A transaction that has ended for good holds nothing, waits for nobody and has nobody
wait for it, and owns no dirty copy, however its ending went.

A transaction that is ended may fail to be, at any of its pages. Then it is left alone:
it is rolled back, and that may fail too, at any of the pages and after some of them
were restored. Then it is given up, and its pages leave memory. The device may refuse
other transfers each time, and the pages may be visited in another order each time. So
there is no telling which pages were written out, which were restored and which left.
But each of them is clean or gone, because the last attempt has come to all of them, by
settling them or by making them leave, and what an earlier attempt has settled stays
clean.

The locks are given back whatever has happened. That no dirty copy is left rests on what
an ending never looks at. It visits the pages that its transaction holds to write. A
dirty copy of any other page outlives its owner. There is none as long as no lock is given
back early and no overtaken call is resumed (`RowStore.Proofs.Keeping`).

## Main definitions

* `Pool.Ends`: What a pool may be after a transaction has ended for good.
* `Pool.Unlocked`: A transaction holds no lock and waits for nobody, nor anybody for it.

## Theorems

* `Pool.Ends.cleaned`: However a transaction ends, its pages were cleaned and its locks given back.
* `Engine.ending_leaves_nothing`: However a transaction ends, nothing is left of it.
* `Engine.overtaken_owner_leaves`: A copy may be left if an overtaken call was resumed.
-/

namespace RowStore

namespace Pool

variable {ρ : Type}

/-- A transaction holds no lock, by its own account and by those of the pages, and no edge of the
    graph of waiting leads from it or to it. -/
structure Unlocked (P : Pool ρ) (t : TxnId) : Prop where
  account : P.locks.lockedPages t = []
  holders : ∀ p, (P.locks.holdersOf p).isHeldBy t = false
  edges : ∀ u, ¬ P.locks.graph.Edge t u ∧ ¬ P.locks.graph.Edge u t

/-- Who gives back all locks has none, is on no page and is out of the graph. -/
theorem unlocked_releaseAll {l : LockTable} (hb : l.Backed) (Q : Pool ρ) (t : TxnId) :
    (Q.setLocks (l.releaseAll t)).Unlocked t where
  account := by
    refine List.eq_nil_iff_forall_not_mem.2 fun p hp => ?_
    rw [LockTable.mem_lockedPages] at hp
    exact hp (by rw [setLocks, LockTable.mode?_releaseAll, if_pos rfl])
  holders p := by
    rw [setLocks, hb.holdersOf_releaseAll, Holders.isHeldBy_eq, Holders.modeOf_release, if_pos rfl]
    rfl
  edges u := by
    simp only [setLocks, LockTable.edge_releaseAll]
    exact ⟨fun h => h.1 rfl, fun h => h.2.1 rfl⟩

variable [EvictionOrder ρ]

/-- What a pool may be after a transaction has ended for good. -/
inductive Ends (P : Pool ρ) (t : TxnId) : Pool ρ → Prop
  /-- It is committed or rolled back, and if that fails it is left alone. -/
  | close (e : Ending) : Ends P t (P.close t e).1
  /-- It is left alone: it is rolled back, and given up if that fails. -/
  | abandon : Ends P t (P.abandon t)
  /-- At each attempt the device refuses other transfers, and pages are visited in another order. -/
  | closeBy {a b : Attempt} (e : Ending) (ha : ∀ p ∈ P.locks.exclusivePages t, p ∈ a.order)
      (hb : ∀ p ∈ P.locks.exclusivePages t, p ∈ b.order) : Ends P t (P.closeBy a b t e).1
  | leaveBy {a : Attempt} (ha : ∀ p ∈ P.locks.exclusivePages t, p ∈ a.order) :
      Ends P t (P.leaveBy a t)

/-- However a transaction ends, the pages that it held to write were cleaned, and perhaps others,
    and its locks are given back. -/
theorem Ends.cleaned {P Q : Pool ρ} {t : TxnId} (h : P.Ends t Q) (ht : P.cache.Tidy) :
    ∃ faults R l, Cleaned { P with faults } R l ∧ (∀ p ∈ P.locks.exclusivePages t, p ∈ l) ∧
      Q = R.setLocks (P.locks.releaseAll t) := by
  cases h with
  | close e =>
      rcases close_cleaned ht t e with ⟨R, l, hc, hall, heq⟩
      exact ⟨P.faults, R, l, hc, hall, heq⟩
  | abandon =>
      rcases abandon_cleaned ht t with ⟨R, l, hc, hall, heq⟩
      exact ⟨P.faults, R, l, hc, hall, heq⟩
  | closeBy e ha hb =>
      rcases closeBy_cleaned ht e ha hb with ⟨faults, R, l, _, hc, hall, heq⟩
      exact ⟨faults, R, l, hc, hall, heq⟩
  | leaveBy ha =>
      rcases leaveBy_cleaned ht ha with ⟨R, l, hc, hall, heq⟩
      exact ⟨_, R, l, hc, hall, heq⟩

end Pool

namespace Engine

variable {ρ : Type} [EvictionOrder ρ]

/-- Whatever has happened and however a transaction ends, by a commit or a rollback that succeeds,
    by one that fails and is followed by a rollback that succeeds or fails in its turn, or by being
    left alone: it holds no lock and is out of the graph of waiting, and if a copy is left that it
    owns, it did not hold that page to write. If no lock was ever given back early and no overtaken
    call was resumed, then no such copy is left. -/
theorem ending_leaves_nothing {ok : Engine ρ → Move ρ → Prop} {E : Engine ρ} (h : E.Arises ok)
    {t : TxnId} {Q : Pool ρ} (hend : E.pool.Ends t Q) :
    Q.Unlocked t ∧
    (∀ p page, Q.cache.page? p = some page → page.dirtiedBy = some t →
      E.pool.locks.mode? t p ≠ some .exclusive) ∧
    ((∀ F m, ok F m → F.Keeps m) →
      ∀ p page, Q.cache.page? p = some page → page.dirtiedBy ≠ some t) := by
  rcases hend.cleaned h.tidy with ⟨faults, R, l, hc, hall, rfl⟩
  -- The visits have cleaned the pages on the list, and the list has all that were held to write.
  have hleft : ∀ p page, R.cache.page? p = some page → page.dirtiedBy = some t →
      p ∉ l ∧ E.pool.owner? p = some t := by
    intro p page hp hd
    have hown := (Pool.owner?_of_page hp).trans hd
    rw [hc.owner] at hown
    split at hown
    · cases hown
    · rename_i hmem
      exact ⟨hmem, hown⟩
  have hunheld : ∀ p page, R.cache.page? p = some page → page.dirtiedBy = some t →
      E.pool.locks.mode? t p ≠ some .exclusive :=
    fun p page hp hd hx =>
      (hleft p page hp hd).1 (hall p ((LockTable.mem_exclusivePages _ _ _).2 hx))
  refine ⟨Pool.unlocked_releaseAll h.guarded.toBacked R t, hunheld, fun hkeeps p page hp hd => ?_⟩
  exact hunheld p page hp hd ((h.kept hkeeps).owned.held p t (hleft p page hp hd).2)

/-- A transaction writes a page that another one waits for. -/
def waitedFor : List (Move Recency) :=
  [.event (.submit ⟨1⟩ (.fetch ⟨⟨1⟩, 0⟩ .readWrite true)), .event (.step ⟨0⟩),
    .event (.act (.write ⟨0⟩ (.fill 5))), .event (.submit ⟨2⟩ (.fetch ⟨⟨1⟩, 0⟩ .readOnly false)),
    .event (.step ⟨1⟩)]

/-- The first time the device refuses to write the page and the second time to read it. -/
theorem ending_leaves_nothing_waitedFor :
    ((tiny 1 ({} : Recency)).moves waitedFor).pool.owner? ⟨⟨1⟩, 0⟩ = some ⟨1⟩ ∧
    ((tiny 1 ({} : Recency)).moves waitedFor).pool.locks.graph.next ⟨2⟩ = [⟨1⟩] ∧
    (((tiny 1 ({} : Recency)).moves waitedFor).pool.closeBy
      ⟨⟨fun _ => none, fun _ => some .notFound⟩, [⟨⟨1⟩, 0⟩]⟩
      ⟨⟨fun _ => some .notFound, fun _ => none⟩, [⟨⟨1⟩, 0⟩]⟩ ⟨1⟩ .commit).2.isOk = false ∧
    (((tiny 1 ({} : Recency)).moves waitedFor).pool.closeBy
      ⟨⟨fun _ => none, fun _ => some .notFound⟩, [⟨⟨1⟩, 0⟩]⟩
      ⟨⟨fun _ => some .notFound, fun _ => none⟩, [⟨⟨1⟩, 0⟩]⟩ ⟨1⟩ .commit).1.Unlocked ⟨1⟩ ∧
    ∀ p page, (((tiny 1 ({} : Recency)).moves waitedFor).pool.closeBy
      ⟨⟨fun _ => none, fun _ => some .notFound⟩, [⟨⟨1⟩, 0⟩]⟩
      ⟨⟨fun _ => some .notFound, fun _ => none⟩, [⟨⟨1⟩, 0⟩]⟩ ⟨1⟩ .commit).1.cache.page? p =
        some page → page.dirtiedBy ≠ some ⟨1⟩ := by
  have harises : ((tiny 1 ({} : Recency)).moves waitedFor).Arises Keeps :=
    (Arises.fresh (fresh_tiny 1 ({} : Recency))).moves (by decide +kernel)
  have hend := ending_leaves_nothing harises (.closeBy
    (a := ⟨⟨fun _ => none, fun _ => some .notFound⟩, [⟨⟨1⟩, 0⟩]⟩)
    (b := ⟨⟨fun _ => some .notFound, fun _ => none⟩, [⟨⟨1⟩, 0⟩]⟩) (t := ⟨1⟩) .commit
    (by decide +kernel) (by decide +kernel))
  exact ⟨by decide +kernel, by decide +kernel, by decide +kernel, hend.1, hend.2.2 fun _ _ => id⟩

/-- A transaction whose overtaken call was resumed commits, and nothing goes wrong. It holds no lock
    afterwards, and the page that it wrote is dirty on its behalf. -/
theorem overtaken_owner_leaves :
    ((tiny 1 ({} : Recency)).moves overtakenMoves).Arises (fun _ m => m.keepsLocks = true) ∧
    (((tiny 1 ({} : Recency)).moves overtakenMoves).pool.close ⟨1⟩ .commit).2.isOk = true ∧
    (((tiny 1 ({} : Recency)).moves overtakenMoves).pool.close ⟨1⟩ .commit).1.locks.lockedPages
      ⟨1⟩ = [] ∧
    (((tiny 1 ({} : Recency)).moves overtakenMoves).pool.close ⟨1⟩ .commit).1.cache.page?
      ⟨⟨1⟩, 0⟩ = some ⟨⟨⟨1⟩, 0⟩, #[5, 5], some ⟨1⟩⟩ :=
  ⟨(Arises.fresh (fresh_tiny 1 ({} : Recency))).moves (by decide +kernel), by decide +kernel,
    by decide +kernel, by decide +kernel⟩

end Engine

end RowStore
