/-!
# Identities

What the store calls its tables, pages, rows and transactions.

A table is numbered by a 32-bit word, a page by its position in its table's
file, a row by its slot on a page. All of them are ordered, a page by its table
first and a row by its page first, so a list of rows in order is a table read
from its first page to its last.

In a text a table can be called by something else than its number: the functions
that write a text take the naming of tables as an argument, and `TableId.digits`
is the plain one.

## Main definitions

* `TableId`, `PageId`, `RowId`, `TxnId`: The four kinds of identity.
* `TableId.text`, `PageId.text`, `RowId.text`, `TxnId.text`: How they read.
* `Row`: A row's bytes together with the place it has, if any.
* `TxnIds`: The transaction ids handed out, starting from one.
-/

namespace RowStore

/-- The bytes of a row or a page. -/
abbrev Bytes := Array UInt8

/-- A table, and the file that holds it. -/
structure TableId where
  val : Nat
  deriving DecidableEq, Ord, Repr, Inhabited

/-- One page of a table: the position of the page in the table's file. -/
structure PageId where
  table : TableId
  number : Nat
  deriving DecidableEq, Ord, Repr, Inhabited

/-- Where a row is kept: a slot on a page. -/
structure RowId where
  page : PageId
  slot : Nat
  deriving DecidableEq, Ord, Repr, Inhabited

/-- A transaction. -/
structure TxnId where
  val : Nat
  deriving DecidableEq, Ord, Repr, Inhabited

namespace TableId

/-- A table called by its number. -/
def digits (t : TableId) : String := toString t.val

/-- How a table reads in a text. -/
def text (names : TableId → String) (t : TableId) : String := s!"Table{names t}"

end TableId

/-- How a page reads in a text. -/
def PageId.text (names : TableId → String) (p : PageId) : String :=
  s!"Page({names p.table}:{p.number})"

/-- How a row's place reads in a text. -/
def RowId.text (names : TableId → String) (r : RowId) : String :=
  s!"{r.page.text names}#{r.slot}"

/-- How a transaction reads in a text. -/
def TxnId.text (t : TxnId) : String := s!"Txn{t.val}"

/-- A row's bytes, with the place it is kept at if it has one. -/
structure Row where
  place : Option RowId
  bytes : Bytes
  deriving DecidableEq, Repr

/-- The supply of transaction ids: the next one to hand out. -/
structure TxnIds where
  next : Nat := 1
  deriving DecidableEq, Repr

namespace TxnIds

/-- Hand out the next id. -/
def take (s : TxnIds) : TxnId × TxnIds := (⟨s.next⟩, ⟨s.next + 1⟩)

/-- The first `n` ids a supply hands out. -/
def takeMany (s : TxnIds) : Nat → List TxnId
  | 0 => []
  | n + 1 => s.take.1 :: s.take.2.takeMany n

end TxnIds

end RowStore
