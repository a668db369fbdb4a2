import RowStore.TableFile

/-!
# Cursors

A place in a table from which rows are read, page by page and slot by slot.

An open cursor has the rows that are left of the page it read last, and the
number of the page to read next. It moves on only when no row is left.

## Main definitions

* `Cursor`: A table file, the reading transaction, and the place reached.
* `Cursor.start`, `Cursor.close`: The first place, and none.
* `Cursor.Goal`: What a cursor is moved for.
-/

namespace RowStore

/-- A place in a table. A closed cursor has no rows, not even an empty list of them. -/
structure Cursor where
  file : TableFile
  txn : TxnId
  nextPage : Nat := 0
  rows : Option (List Row) := none
  deriving DecidableEq

namespace Cursor

/-- Whether the cursor has a place. -/
def isOpen (c : Cursor) : Bool := c.rows.isSome

/-- The cursor before the first page. -/
def start (c : Cursor) : Cursor := { c with nextPage := 0, rows := some [] }

/-- The cursor without a place. -/
def close (c : Cursor) : Cursor := { c with rows := none }

/-- The page to read next. -/
def page (c : Cursor) : PageId := ⟨c.file.table, c.nextPage⟩

/-- Have the rows of the next page, and move past it. -/
def load (c : Cursor) (rows : List Row) : Cursor :=
  { c with nextPage := c.nextPage + 1, rows := some rows }

/-- What a cursor is moved for: to take its first place, to know whether a row is left, to take
    a row, to take one as a step of a loop, or to take all that are left. -/
inductive Goal
  | position
  | hasNext
  | next
  | step
  | drain (taken : List Row)
  deriving DecidableEq

end Cursor

end RowStore
