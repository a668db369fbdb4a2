import RowStore.PageFile
import RowStore.Page
import RowStore.Layout

/-!
# Table Files

A table's file: the pages of one table, all of one layout.

What is read and written here goes to the file at once. It is how copies of
pages are loaded and written out, and how a table grows.

## Main definitions

* `TableFile`: A table, its file, and the layout of its pages.
* `TableFile.read`, `TableFile.write`: Loading a copy of a page, and writing one out.
* `TableFile.pageCount`, `TableFile.append`: The number of pages, and one page more.
-/

namespace RowStore

/-- A table with its file. -/
structure TableFile where
  table : TableId
  file : FileNo
  path : String
  layout : Layout
  deriving DecidableEq

namespace TableFile

/-- The file as an array of pages. -/
def pages (f : TableFile) : PageFile := ⟨f.file, f.layout.pageSize, f.path⟩

/-- The number of pages. -/
def pageCount (f : TableFile) (d : Disk) : Nat := f.pages.pageCount d

/-- Refuse a page of another table. -/
def checkPage (f : TableFile) (p : PageId) : Except StoreError Unit :=
  if p.table = f.table then .ok () else .error (.invalidArgument (.foreignPage p f.table))

/-- Load a copy of a page. -/
def read (f : TableFile) (d : Disk) (p : PageId) : Except StoreError Page := do
  f.checkPage p
  let bytes ← f.pages.read d p f.layout.pageSize
  .ok ⟨p, bytes, none⟩

/-- Write out a copy of a page. -/
def write (f : TableFile) (d : Disk) (page : Page) : Except StoreError Disk := do
  f.checkPage page.id
  f.pages.write d page.id.number page.bytes

/-- Append a page of zeros, on which every slot is free. -/
def append (f : TableFile) (d : Disk) : Except StoreError (PageId × Disk) := do
  let (n, d') ← f.pages.append d
  .ok (⟨f.table, n⟩, d')

/-- Append so many pages, up to the first that is refused. -/
def appendMany (f : TableFile) (d : Disk) : Nat → Disk × Except StoreError Unit
  | 0 => (d, .ok ())
  | n + 1 =>
    match f.append d with
    | .ok (_, d') => f.appendMany d' n
    | .error e => (d, .error e)

/-- Refuse a row that is not as wide as the table's. -/
def checkRow (f : TableFile) (row : Bytes) : Except StoreError Unit :=
  if row.size = f.layout.rowWidth then .ok ()
  else .error (.invalidArgument (.rowForTable row.size f.table f.layout.rowWidth))

end TableFile

end RowStore
