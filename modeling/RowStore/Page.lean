import RowStore.Bitmap

/-!
# Page Copies

A copy of a page in memory: whose page it is, its bytes, and the transaction
that changed it last.

A copy is dirty from the moment a transaction changes it until its bytes agree
with the table's file again, because they were written out or because the file's
image was read back.

## Main definitions

* `Page`: A copy of a page.
* `Page.zeroed`: The copy of a page of zeros, which holds no rows.
* `Page.mark`, `Page.setBytes`, `Page.restore`: The changes to a copy.
-/

namespace RowStore

/-- A copy of a page. -/
structure Page where
  id : PageId
  bytes : Bytes
  dirtiedBy : Option TxnId := none
  deriving DecidableEq, Repr

namespace Page

/-- A clean copy of zeros. -/
def zeroed (id : PageId) (size : Nat) : Page := ⟨id, Array.replicate size 0, none⟩

/-- Whether the copy was changed since it agreed with the file. -/
def isDirty (p : Page) : Bool := p.dirtiedBy.isSome

/-- Record who changed the copy last, or that it agrees with the file. -/
def mark (p : Page) (owner : Option TxnId) : Page := { p with dirtiedBy := owner }

/-- Change the bytes. -/
def setBytes (p : Page) (bytes : Bytes) : Page := { p with bytes := bytes }

/-- Go back to an image of the page. -/
def restore (p : Page) (image : Page) : Page := ⟨p.id, image.bytes, none⟩

end Page

end RowStore
