import RowStore.Error

/-!
# Page Layout

How a page of a given size is divided into slots for rows of a given width.

A page opens with a bitmap, one bit for each slot, and the slots follow it. A
row costs its own bits and one bit of the bitmap, so a page has room for
`pageSize * 8 / (rowWidth * 8 + 1)` of them, and the bitmap takes that many bits
rounded up to whole bytes.

A slot is numbered by a 16-bit word, which bounds the number of slots. Together
with the demand that there be one at all, the bound is part of the type.

## Main definitions

* `Layout`: A page size and a row width that go together.
* `Layout.make`: The layout of two given sizes, or why there is none.
* `Layout.slots`, `Layout.headerBytes`, `Layout.slotStart`: Where things are.

## Theorems

* `Layout.make_eq_ok_iff`: Which sizes go together.
-/

namespace RowStore

/-- How many rows of a width fit on a page, each with its bit. -/
def slotsFor (pageSize rowWidth : Nat) : Nat := pageSize * 8 / (rowWidth * 8 + 1)

/-- A page size and a row width with at least one slot and not too many. -/
structure Layout where
  pageSize : Nat
  rowWidth : Nat
  rowWidth_pos : 0 < rowWidth
  slots_pos : 0 < slotsFor pageSize rowWidth
  slots_le : slotsFor pageSize rowWidth ≤ 65535
  deriving DecidableEq

namespace Layout

/-- The number of slots on a page. -/
def slots (l : Layout) : Nat := slotsFor l.pageSize l.rowWidth

/-- The length of the bitmap. -/
def headerBytes (l : Layout) : Nat := (l.slots + 7) / 8

/-- The first byte of a slot. -/
def slotStart (l : Layout) (slot : Nat) : Nat := l.headerBytes + slot * l.rowWidth

/-- The layout for pages and rows of the given sizes. -/
def make (pageSize rowWidth : Nat) : Except StoreError Layout :=
  if hw : rowWidth = 0 then
    .error (.invalidArgument .noRowBytes)
  else if hz : slotsFor pageSize rowWidth = 0 then
    .error (.invalidArgument (.rowTooWide rowWidth pageSize))
  else if hm : 65535 < slotsFor pageSize rowWidth then
    .error (.invalidArgument (.tooManySlots (slotsFor pageSize rowWidth)))
  else
    .ok ⟨pageSize, rowWidth, by omega, by omega, by omega⟩

/-- Two sizes have a layout when a row has bytes, and one or more of them but at most
    65535 fit on a page. -/
theorem make_eq_ok_iff (pageSize rowWidth : Nat) (l : Layout) :
    make pageSize rowWidth = .ok l ↔ l.pageSize = pageSize ∧ l.rowWidth = rowWidth := by
  unfold make
  constructor
  · intro h
    split at h
    · cases h
    split at h
    · cases h
    split at h
    · cases h
    · cases h
      exact ⟨rfl, rfl⟩
  · rintro ⟨rfl, rfl⟩
    have h1 := l.rowWidth_pos
    have h2 := l.slots_pos
    have h3 := l.slots_le
    rw [dif_neg (by omega), dif_neg (by omega), dif_neg (by omega)]

end Layout

end RowStore
