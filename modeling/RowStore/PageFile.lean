import RowStore.Disk
import RowStore.Error
import RowStore.Text.Quoted

/-!
# Files of Pages

A file read as an array of pages of one size. Page `n` starts at byte
`n * pageSize`.

The number of pages is the number of whole pages in the file, as a 32-bit word.
A page below that number can be read. Any page can be written: a page at or past
the end of the file extends it, with zeros in between. Appending a page sets the
length of the file to one page more than it counts. Either fails if the file would
become longer than the disk allows, and then changes nothing.

Several page files may stand for one file on disk, with different page sizes.

## Main definitions

* `PageFile`: A file, the path it was opened by, and the size of its pages.
* `PageFile.create`, `PageFile.openFile`: The two ways to come by one.
* `PageFile.count`: The number of pages.
* `PageFile.read`, `PageFile.write`, `PageFile.append`: The operations on pages.
-/

namespace RowStore

/-- A file of pages. The path is the one it was opened by. -/
structure PageFile where
  file : FileNo
  pageSize : Nat
  path : String
  deriving DecidableEq, Repr

namespace PageFile

/-- The number of whole pages in the file, as a 32-bit word. -/
def pageCount (m : PageFile) (d : Disk) : Nat := (d.image m.file).size / m.pageSize % UInt32.size

/-- Where a page starts. -/
def offset (m : PageFile) (page : Nat) : Nat := page * m.pageSize

/-- The number of pages, if pages have bytes. -/
def count (m : PageFile) (d : Disk) : Except StoreError Nat :=
  if m.pageSize = 0 then .error .uncountablePages else .ok (m.pageCount d)

/-- Start a file anew, whatever it held. -/
def create (m : PageFile) (d : Disk) : Disk := d.put m.file .empty

/-- Take up a file as it is. It has to be a whole number of pages. -/
def openFile (m : PageFile) (d : Disk) : Except StoreError Unit :=
  let size := (d.image m.file).size
  if m.pageSize = 0 then .error .uncountablePages
  else if size % m.pageSize ≠ 0 then
    .error (.invalidArgument (.raggedFile (Text.quote m.path) size m.pageSize))
  else .ok ()

/-- Refuse a buffer that is not one page long. -/
def checkBuffer (m : PageFile) (length : Nat) : Except StoreError Unit :=
  if length = m.pageSize then .ok ()
  else .error (.invalidArgument (.bufferLength m.pageSize length))

/-- Read a page into a buffer of the given length. -/
def read (m : PageFile) (d : Disk) (p : PageId) (length : Nat) : Except StoreError Bytes := do
  m.checkBuffer length
  let n ← m.count d
  if p.number < n then .ok ((d.image m.file).read (m.offset p.number) m.pageSize)
  else .error (.pageOutOfRange p n)

/-- Cut the file, or extend it by zeros, to a length. -/
def setSize (m : PageFile) (d : Disk) (size : Nat) : Except StoreError Disk :=
  (d.setSize m.file size).mapError .io

/-- Make room for a page. Nothing is done if the page starts inside the file. -/
def reach (m : PageFile) (d : Disk) (page : Nat) : Except StoreError Disk :=
  if (d.image m.file).size ≤ m.offset page then m.setSize d (m.offset page + m.pageSize)
  else .ok d

/-- Write a page from a buffer. -/
def write (m : PageFile) (d : Disk) (page : Nat) (bytes : Bytes) : Except StoreError Disk := do
  m.checkBuffer bytes.size
  let d' ← m.reach d page
  .ok (d'.put m.file ((d'.image m.file).write (m.offset page) bytes))

/-- Append a page of zeros, and say which number it got. -/
def append (m : PageFile) (d : Disk) : Except StoreError (Nat × Disk) := do
  let n ← m.count d
  let d' ← m.setSize d ((n + 1) * m.pageSize)
  .ok (n, d')

end PageFile

end RowStore
