import RowStore.Bitmap
import RowStore.Layout

/-!
# Rows on a Page

A page read as a set of rows, by the layout of its table.

A slot is live when its bit of the bitmap is set; the row is then the slot's own
bytes. The bytes of a slot that is not live mean nothing, so a row is taken out
by clearing its bit, and the lowest clear bit is where the next row goes.

The bytes are those of one page of the layout's size. That need not be so: a copy
may be older than the layout its table has now. `checkBytes` refuses such a block.
The readers below do not check it: they work on any block, and read clear bits
past its end.

## Main definitions

* `SlotPage.checkBytes`: Whether a block is one page of the layout.
* `SlotPage.used`: Whether a slot is live.
* `SlotPage.row?`, `SlotPage.rows`: One row, and all of them in slot order.
* `SlotPage.firstFree`, `SlotPage.emptySlots`: The lowest free slot, and how many there are.
* `SlotPage.insert`, `SlotPage.delete`: Putting a row on the page and taking one off.
-/

namespace RowStore

namespace SlotPage

variable (l : Layout)

/-- Refuse a block that is not one page of the layout. -/
def checkBytes (b : Bytes) : Except StoreError Unit :=
  if b.size = l.pageSize then .ok () else .error (.misfit b.size l.pageSize)

/-- Whether a slot is live. A number that names no slot is not. -/
def used (b : Bytes) (slot : Nat) : Bool := slot < l.slots && Bitmap.test b slot

/-- The bytes of a slot, live or not. -/
def slotBytes (b : Bytes) (slot : Nat) : Bytes :=
  b.extract (l.slotStart slot) (l.slotStart slot + l.rowWidth)

/-- How many slots are free. -/
def emptySlots (b : Bytes) : Nat := (List.range l.slots).countP fun i => !used l b i

/-- The lowest free slot. -/
def firstFree (b : Bytes) : Option Nat := (List.range l.slots).find? fun i => !used l b i

/-- Refuse a number that names no slot. -/
def checkSlot (slot : Nat) : Except StoreError Unit :=
  if slot < l.slots then .ok () else .error (.invalidSlot slot (l.slots - 1))

/-- The row in a slot. -/
def row? (b : Bytes) (slot : Nat) : Except StoreError Bytes := do
  checkSlot l slot
  if used l b slot then .ok (slotBytes l b slot) else .error (.rowNotFound slot)

/-- The live slots in order, each with its row. -/
def rows (b : Bytes) : List (Nat × Bytes) :=
  (List.range l.slots).filterMap fun i =>
    if Bitmap.test b i then some (i, slotBytes l b i) else none

/-- Put a row into the lowest free slot: the slot, and the page with the row on it. -/
def insert (b : Bytes) (row : Bytes) : Except StoreError (Nat × Bytes) :=
  if row.size ≠ l.rowWidth then
    .error (.invalidArgument (.rowForPage row.size l.rowWidth))
  else
    match firstFree l b with
    | none => .error (.pageFull l.slots)
    | some slot => .ok (slot, Bitmap.put (overwrite b (l.slotStart slot) row) slot true)

/-- Take the row in a slot off the page: its bit is cleared, its bytes stay. -/
def delete (b : Bytes) (slot : Nat) : Except StoreError Bytes := do
  checkSlot l slot
  if used l b slot then .ok (Bitmap.put b slot false) else .error (.rowNotFound slot)

end SlotPage

end RowStore
