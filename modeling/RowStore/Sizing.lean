import RowStore.Error

/-!
# Sizing

How large pages are and how many of them are kept in memory.

## Main definitions

* `Sizing`: The two sizes, with their defaults.
* `Sizing.check`: Both sizes have to be positive; the page size is looked at first.
-/

namespace RowStore

/-- The sizes a store is opened with. -/
structure Sizing where
  pageSize : Nat := 4096
  frames : Nat := 50
  deriving DecidableEq, Repr

namespace Sizing

/-- Refuse a size of zero. -/
def check (s : Sizing) : Except StoreError Unit :=
  if s.pageSize = 0 then .error (.invalidArgument .noPageBytes)
  else if s.frames = 0 then .error (.invalidArgument .noFrames)
  else .ok ()

/-- The check passes when there is something to keep pages in and something in a page. -/
theorem check_eq_ok_iff (s : Sizing) : s.check = .ok () ↔ 0 < s.pageSize ∧ 0 < s.frames := by
  unfold check
  by_cases hp : s.pageSize = 0
  · simp [hp]
  · by_cases hf : s.frames = 0
    · simp [hp, hf]
    · rw [if_neg hp, if_neg hf]
      exact ⟨fun _ => ⟨by omega, by omega⟩, fun _ => rfl⟩

end Sizing

end RowStore
