import RowStore.Ident

/-!
# Errors

Everything that can go wrong in the store, by cause.

A caller's mistake is a `Misuse`, a refusal of the file system an `IoFault`; the
remaining causes are about pages, locks and rows. The wording of each cause is in
`StoreError.message` and nowhere else.

## Main definitions

* `Misuse`: An argument that makes no sense.
* `IoFault`: What the file system answers instead of a file.
* `StoreError`: The causes of failure.
* `StoreError.message`: Their wording.
-/

namespace RowStore

/-- An argument that the store cannot do anything with. -/
inductive Misuse
  | noPageBytes
  | noFrames
  | noRowBytes
  | rowTooWide (width pageSize : Nat)
  | tooManySlots (slots : Nat)
  | rowForPage (got width : Nat)
  | rowForTable (got : Nat) (table : TableId) (width : Nat)
  | bufferLength (pageSize got : Nat)
  | raggedFile (quotedPath : String) (size pageSize : Nat)
  | foreignPage (page : PageId) (table : TableId)
  | noPlace
  | other (text : String)
  deriving DecidableEq, Repr

/-- What the file system answers when a path or a transfer is refused. -/
inductive IoFault
  | notFound
  | alreadyExists
  | isADirectory
  | notADirectory
  | invalidInput
  | invalidFilename
  | other (text : String)
  deriving DecidableEq, Repr

/-- The causes of failure. -/
inductive StoreError
  | invalidArgument (misuse : Misuse)
  | deadlock (txn : TxnId) (page : PageId)
  | noEvictableFrame (capacity : Nat)
  | pageOutOfRange (page : PageId) (pageCount : Nat)
  | unknownTable (table : TableId)
  | rowNotFound (slot : Nat)
  | invalidSlot (slot maxSlot : Nat)
  | pageFull (slots : Nat)
  | lockNotHeld (txn : TxnId) (page : PageId)
  | readOnlyPage (page : PageId)
  | noMoreRows
  | io (fault : IoFault)
  /-- Pages of no bytes cannot be counted. -/
  | uncountablePages
  /-- Bytes that are not one page of a layout cannot be read by it. -/
  | misfit (got pageSize : Nat)
  deriving DecidableEq, Repr

/-- How a misuse reads. -/
def Misuse.message (names : TableId → String) : Misuse → String
  | .noPageBytes => "page size must be non-zero"
  | .noFrames => "buffer pool capacity must be non-zero"
  | .noRowBytes => "row width must be non-zero"
  | .rowTooWide width pageSize => s!"a {width} byte row does not fit in a {pageSize} byte page"
  | .tooManySlots slots => s!"{slots} slots per page exceeds the slot id range"
  | .rowForPage got width => s!"row is {got} bytes, table rows are {width} bytes"
  | .rowForTable got table width =>
    s!"row is {got} bytes, {table.text names} rows are {width} bytes"
  | .bufferLength pageSize got => s!"buffer must be {pageSize} bytes, got {got}"
  | .raggedFile path size pageSize =>
    s!"{path} is {size} bytes, not a whole number of {pageSize} byte pages"
  | .foreignPage page table => s!"{page.text names} does not belong to {table.text names}"
  | .noPlace => "tuple has no stored location"
  | .other text => text

/-- The name of a fault, or its own text if it has one. -/
def IoFault.message : IoFault → String
  | .notFound => "NotFound"
  | .alreadyExists => "AlreadyExists"
  | .isADirectory => "IsADirectory"
  | .notADirectory => "NotADirectory"
  | .invalidInput => "InvalidInput"
  | .invalidFilename => "InvalidFilename"
  | .other text => text

/-- How an error reads, with tables called as `names` says. -/
def StoreError.message (names : TableId → String) : StoreError → String
  | .invalidArgument misuse => s!"Invalid argument: {misuse.message names}"
  | .deadlock txn page =>
    s!"Deadlock detected: {txn.text} aborted while waiting for {page.text names}"
  | .noEvictableFrame capacity =>
    s!"Buffer pool is full: no clean page to evict among {capacity} frames"
  | .pageOutOfRange page pageCount =>
    s!"Page {page.text names} is out of range (table has {pageCount} pages)"
  | .unknownTable table => s!"Unknown table: {table.text names}"
  | .rowNotFound slot => s!"Tuple not found: slot {slot} is empty or deleted"
  | .invalidSlot slot maxSlot => s!"Invalid slot ID: {slot} (max: {maxSlot})"
  | .pageFull slots => s!"Page is full: no free slot among {slots}"
  | .lockNotHeld txn page => s!"{txn.text} no longer holds an exclusive lock on {page.text names}"
  | .readOnlyPage page => s!"Page {page.text names} was fetched read-only"
  | .noMoreRows => "Scan has no more tuples"
  | .io fault => s!"IO error: {fault.message}"
  | .uncountablePages => "pages of no bytes cannot be counted"
  | .misfit got pageSize => s!"{got} bytes cannot be read as a page of {pageSize} bytes"

/-- Whether the transaction that met the error should be rolled back and may be run again. -/
def StoreError.isDeadlock : StoreError → Bool
  | .deadlock _ _ => true
  | _ => false

end RowStore
