import RowStore.Assoc
import RowStore.EvictionOrder

/-!
# Least Recent Use

The order of eviction in which the page unused for longest is proposed first.

Every use is stamped with the next tick of a clock. One map leads from a page to
the tick of its latest use and one back from a tick to its page; a use takes the
page's former tick out of the second map before the new one goes in. Ticks only
grow, and a map lists its newest entry first, so the second map read from its end
is the pages from the least recently used on.

## Main definitions

* `Recency`: The clock and the two maps.
* `Recency.touch`, `Recency.remove`, `Recency.candidates`: The order's operations.
* `Proposal`, `Arranged`: The same record of use with its candidates in another order, or withheld.
-/

namespace RowStore

/-- When each page was used last. -/
structure Recency where
  clock : Nat := 0
  lastUse : Assoc PageId Nat := ∅
  byTick : Assoc Nat PageId := ∅
  deriving DecidableEq, Repr, Inhabited

namespace Recency

/-- Take a tick out of the second map, if the page had one. -/
def dropTick (r : Recency) (p : PageId) : Assoc Nat PageId :=
  match r.lastUse.get? p with
  | some tick => r.byTick.erase tick
  | none => r.byTick

/-- Stamp a use of the page with the next tick. -/
def touch (r : Recency) (p : PageId) : Recency where
  clock := r.clock + 1
  lastUse := r.lastUse.insert p (r.clock + 1)
  byTick := (r.dropTick p).insert (r.clock + 1) p

/-- Forget the page. -/
def remove (r : Recency) (p : PageId) : Recency :=
  { r with lastUse := r.lastUse.erase p, byTick := r.dropTick p }

/-- The pages on record, least recently used first. -/
def candidates (r : Recency) : List PageId := r.byTick.values.reverse

instance : EvictionOrder Recency := ⟨touch, remove, candidates⟩

end Recency

/-- How a record of use puts forward its pages. -/
inductive Proposal
  | oldestFirst
  | newestFirst
  | nothing
  deriving DecidableEq, Repr

/-- A record of use with a way to put its pages forward. -/
structure Arranged where
  proposal : Proposal := .oldestFirst
  recency : Recency := {}
  deriving DecidableEq, Repr, Inhabited

namespace Arranged

/-- The pages in the order of the proposal. -/
def candidates (a : Arranged) : List PageId :=
  match a.proposal with
  | .oldestFirst => a.recency.candidates
  | .newestFirst => a.recency.candidates.reverse
  | .nothing => []

instance : EvictionOrder Arranged where
  touch a p := { a with recency := a.recency.touch p }
  remove a p := { a with recency := a.recency.remove p }
  candidates := candidates

end Arranged

end RowStore
