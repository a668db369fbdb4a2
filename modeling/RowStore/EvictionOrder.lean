import RowStore.Ident

/-!
# Orders of Eviction

Which page should leave memory first is not for the cache to say. It reports
every use of a page and every departure, and asks for candidates when it needs
room; whether a candidate may go is its own decision, so an order may propose
anything at all.

## Main definitions

* `EvictionOrder`: What the cache tells an order, and what it asks of it.
-/

namespace RowStore

/-- A record of page use that proposes pages to evict. -/
class EvictionOrder (ρ : Type) where
  /-- A page was loaded or used again. -/
  touch : ρ → PageId → ρ
  /-- A page left memory. -/
  remove : ρ → PageId → ρ
  /-- The pages to try, the one to try first in front. -/
  candidates : ρ → List PageId

end RowStore
