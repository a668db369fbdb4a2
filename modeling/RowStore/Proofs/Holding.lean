import RowStore.Proofs.Lasting

/-!
# Pages That Are Held

What a lock on a page protects, be it one to read or one to write.

Locks are given back when a transaction leaves and not before. So who has come to hold a
page holds it until then, and all the while nobody else is its writer. What is shown of a
page changes only by the hand of its writer. A reader therefore finds what it has found
before, unless it becomes the writer itself and writes.

None of this needs the two accounts of the lock table to agree in full. A lock may weaken
from one to write to one to read, if a call of its holder is resumed that was overtaken.
The page is still held then, and the account of the page still keeps all others off it.

## Main definitions

* `Engine.Passes`: A move that leaves a page alone that a transaction holds.
* `Engine.Spares`: The same of the first pages of a table.
* `Engine.Holds`: A transaction holds the first pages of a table.

## Theorems

* `Engine.shown_held`: A page that is held stays as it is, but for what its holder writes.
* `Engine.holds_move`, `Engine.shown_spared`: So do the first pages of a table, if they are held
  and spared.
-/

namespace RowStore

namespace Engine

variable {ρ : Type} [EvictionOrder ρ]

/-- In a step a call writes at most the page whose lock it demands, if it goes to work. -/
theorem lastWrite?_step {E : Engine ρ} (hs : E.Sited) {c : CallNo} {t : TxnId} {p : PageId}
    (hp : ∀ call locks, E.ruling c = some (call, locks, .granted) →
      ∀ mode, call.task.demand ≠ some (p, mode)) :
    E.lastWrite? t p (.event (.step c)) = none := by
  simp only [lastWrite?, notes]
  split
  · rename_i call locks hrule
    rw [Note.filterMap_opOf?]
    split
    · by_contra hne
      rcases Option.ne_none_iff_exists'.1 hne with ⟨b, hb⟩
      rcases Task.mem_accesses (hs.coherent.setLocks locks) (PageOp.mem_of_lastWrite? hb) with
        ⟨mode, hd, _⟩
      exact hp call locks hrule mode hd
    · rfl
  · rfl

/-- A move by which no lock is given back early, the transaction neither writes the page nor leaves,
    and the page is not discarded. -/
structure Passes (t : TxnId) (p : PageId) (E : Engine ρ) (m : Move ρ) : Prop where
  strict : E.Strict m
  unwritten : E.lastWrite? t p m = none
  stays : m.leaver? ≠ some t
  kept : m.discards p = false

instance (t : TxnId) (p : PageId) (E : Engine ρ) (m : Move ρ) : Decidable (E.Passes t p m) :=
  decidable_of_iff (E.Strict m ∧ E.lastWrite? t p m = none ∧ m.leaver? ≠ some t ∧
      m.discards p = false)
    ⟨fun h => ⟨h.1, h.2.1, h.2.2.1, h.2.2.2⟩, fun h => ⟨h.1, h.2, h.3, h.4⟩⟩

theorem Rests.passes {t : TxnId} {p : PageId} {E : Engine ρ} {m : Move ρ} (h : E.Rests t p m) :
    E.Passes t p m :=
  ⟨h.steady.strict, h.unwritten, h.stays, h.kept⟩

/-- What is held during a move, to read or to write, is shown afterwards as it was before, if its
    holder passes it by. -/
theorem shown_held {E : Engine ρ} (hs : E.Sited) (hl : E.pool.locks.Guarded) {t : TxnId}
    {p : PageId} {m : Move ρ} (hm : E.Passes t p m) (hh : (E.locksDuring m).mode? t p ≠ none)
    {g : TableFile} (hg : E.pool.tables.get? p.table = some g) :
    (E.move m).pool.shown p = E.pool.shown p := by
  by_cases hx : (E.locksDuring m).mode? t p = some .exclusive
  · have hshown := shown_lastWrite hs hl hm.strict.1 hx
      (fun hne => absurd hm.unwritten hne) hm.stays hm.kept hg
    rw [hm.unwritten, Option.getD_none] at hshown
    exact hshown
  · cases hd : m.isDiscard with
    | true =>
        rcases Move.eq_discard hd with ⟨q, rfl⟩
        rw [shown_discard hs, if_neg (Ne.symm (of_decide_eq_false hm.kept))]
    | false =>
        -- A writer keeps all others off the page, so nobody writes it.
        refine shown_move hs hm.strict.1 hd hg fun u _ hxu => hx ?_
        rw [(guarded_during hl m).eq_of_exclusive hxu hh]
        exact hxu

/-! ## The first pages of a table -/

/-- A move by which no lock is given back early, the transaction neither writes one of the first
    pages of a table nor leaves, and none of these pages is discarded. -/
structure Spares (t : TxnId) (u : TableId) (n : Nat) (E : Engine ρ) (m : Move ρ) : Prop where
  strict : E.Strict m
  stays : m.leaver? ≠ some t
  unwritten : ∀ k < n, E.lastWrite? t ⟨u, k⟩ m = none
  kept : ∀ k < n, m.discards ⟨u, k⟩ = false

instance (t : TxnId) (u : TableId) (n : Nat) (E : Engine ρ) (m : Move ρ) :
    Decidable (E.Spares t u n m) :=
  decidable_of_iff (E.Strict m ∧ m.leaver? ≠ some t ∧
      (∀ k < n, E.lastWrite? t ⟨u, k⟩ m = none) ∧ ∀ k < n, m.discards ⟨u, k⟩ = false)
    ⟨fun h => ⟨h.1, h.2.1, h.2.2.1, h.2.2.2⟩, fun h => ⟨h.1, h.2, h.3, h.4⟩⟩

theorem Spares.passes {t : TxnId} {u : TableId} {n : Nat} {E : Engine ρ} {m : Move ρ}
    (h : E.Spares t u n m) {k : Nat} (hk : k < n) : E.Passes t ⟨u, k⟩ m :=
  ⟨h.strict, h.unwritten k hk, h.stays, h.kept k hk⟩

/-- A transaction holds the first pages of a table. -/
def Holds (E : Engine ρ) (t : TxnId) (u : TableId) (n : Nat) : Prop :=
  ∀ k < n, E.pool.locks.mode? t ⟨u, k⟩ ≠ none

section spared

variable {E : Engine ρ} (h : E.Arises Strict) {t : TxnId} {u : TableId} {n : Nat} {m : Move ρ}
  (hm : E.Spares t u n m) (hh : E.Holds t u n)

include h hm hh

/-- The pages that are held and spared go on being held. -/
theorem holds_move : (E.move m).Holds t u n := fun k hk =>
  held_move h.tidy hm.strict.2 hm.stays (hh k hk)

/-- And they are shown as they were. -/
theorem shown_spared {g : TableFile} (hg : E.pool.tables.get? u = some g) {k : Nat} (hk : k < n) :
    (E.move m).pool.shown ⟨u, k⟩ = E.pool.shown ⟨u, k⟩ :=
  shown_held (h.sited fun _ _ => And.left) h.guarded (hm.passes hk) (held_during m (hh k hk)) hg

end spared

end Engine

end RowStore
