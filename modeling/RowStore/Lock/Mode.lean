import RowStore.Ident

/-!
# Lock Modes

A page is locked to be read or to be written. Readers go together; a writer goes
with nobody.

## Main definitions

* `LockMode`: Shared or exclusive.
* `LockMode.compatible`: Which modes two transactions can hold on one page.
* `Access`: What a caller wants to do with a page, and the mode that takes.
-/

namespace RowStore

/-- The two ways to hold a page. -/
inductive LockMode
  | shared
  | exclusive
  deriving DecidableEq, Repr

/-- Whether two transactions can hold one page in these modes. -/
def LockMode.compatible : LockMode → LockMode → Bool
  | .shared, .shared => true
  | _, _ => false

/-- What a caller wants to do with a page. -/
inductive Access
  | readOnly
  | readWrite
  deriving DecidableEq, Repr

/-- The mode an access needs. -/
def Access.mode : Access → LockMode
  | .readOnly => .shared
  | .readWrite => .exclusive

end RowStore
