import Mathlib.Algebra.Order.Floor.Div
import Mathlib.Order.Interval.Set.Basic
import RowStore.Layout

/-!
# The Geometry of a Page

How many rows fit on a page, and where on it they are.

Rows need a bit each, in a header of whole bytes, and their own bytes. That is counted in
bytes, with the header rounded up, and it is what `Fits` says. A layout counts in bits
instead and rounds once, down to a number of slots; only then is the header rounded up.
Both come to the same. What the rows leave of a page is a whole number of bytes, so their
bits have room in it just when the bits rounded up to bytes have. So no row is lost to the
rounding of the header, and the header does not reach into the rows.

## Main definitions

* `Fits`: So many rows fit on a page.
* `Layout.slotRange`: The bytes of a slot.
* `Layout.Divides`: How a layout divides a page among its slots.

## Theorems

* `fits_iff`, `isGreatest_slotsFor`: The number of slots is that of the rows that fit.
* `Layout.slots_fit`: The bitmap and the slots have room on a page.
* `Layout.bit_lt_slotStart`, `Layout.slot_end_le`, `Layout.slots_apart`: Nothing overlaps.
* `Layout.make_cases`: What the division of a page comes to.
* `Layout.division_is_tight`: It leaves no room for a further row, and fails only when it has to.
-/

namespace RowStore

/-- So many rows of a width fit on a page: the bytes of their bits, and their own. -/
def Fits (pageSize rowWidth n : Nat) : Prop := n ⌈/⌉ 8 + n * rowWidth ≤ pageSize

/-- The rows that fit are counted by one division. -/
theorem fits_iff (pageSize rowWidth n : Nat) :
    Fits pageSize rowWidth n ↔ n ≤ slotsFor pageSize rowWidth := by
  have hsum : n * (rowWidth * 8 + 1) = n * rowWidth * 8 + n := by
    rw [Nat.mul_succ, Nat.mul_assoc]
  unfold Fits slotsFor
  rw [Nat.ceilDiv_eq_add_pred_div, Nat.le_div_iff_mul_le (Nat.succ_pos _), hsum]
  -- The bytes of the rows are some number. What they leave of the page is a number of bytes.
  generalize n * rowWidth = bytes
  omega

theorem isGreatest_slotsFor (pageSize rowWidth : Nat) :
    IsGreatest {n | Fits pageSize rowWidth n} (slotsFor pageSize rowWidth) :=
  ⟨(fits_iff _ _ _).2 (Nat.le_refl _), fun n hn => (fits_iff _ _ n).1 hn⟩

/-- One row fits with one byte for its bit. -/
theorem fits_one_iff (pageSize rowWidth : Nat) :
    Fits pageSize rowWidth 1 ↔ 1 + rowWidth ≤ pageSize := by
  unfold Fits
  rw [Nat.ceilDiv_eq_add_pred_div, Nat.one_mul]

namespace Layout

variable (l : Layout)

/-- The bitmap takes its bits rounded up to whole bytes. -/
theorem headerBytes_eq : l.headerBytes = l.slots ⌈/⌉ 8 := by
  rw [Nat.ceilDiv_eq_add_pred_div]
  rfl

/-- The bitmap and the slots have room on a page. -/
theorem slots_fit : l.headerBytes + l.slots * l.rowWidth ≤ l.pageSize := by
  rw [headerBytes_eq]
  exact (isGreatest_slotsFor l.pageSize l.rowWidth).1

/-- The bytes of a slot. -/
def slotRange (slot : Nat) : Set Nat := Set.Ico (l.slotStart slot) (l.slotStart slot + l.rowWidth)

variable {l} {slot : Nat}

/-- Two slots do not overlap. -/
theorem slots_apart {other : Nat} (hne : other ≠ slot) :
    l.slotStart other + l.rowWidth ≤ l.slotStart slot ∨
      l.slotStart slot + l.rowWidth ≤ l.slotStart other := by
  have hsucc : ∀ n, (n + 1) * l.rowWidth = n * l.rowWidth + l.rowWidth :=
    fun n => Nat.succ_mul _ _
  have hmono : ∀ n m, n < m → n * l.rowWidth + l.rowWidth ≤ m * l.rowWidth :=
    fun n m h => hsucc n ▸ Nat.mul_le_mul_right _ h
  unfold slotStart
  rcases Nat.lt_or_gt_of_ne hne with h | h
  · have := hmono _ _ h
    omega
  · have := hmono _ _ h
    omega

section slot

variable (hslot : slot < l.slots)

include hslot

/-- A slot ends where the last one does, or before. -/
theorem slot_end_le_slots :
    l.slotStart slot + l.rowWidth ≤ l.headerBytes + l.slots * l.rowWidth := by
  have hle : (slot + 1) * l.rowWidth ≤ l.slots * l.rowWidth := Nat.mul_le_mul_right _ hslot
  have hsucc : (slot + 1) * l.rowWidth = slot * l.rowWidth + l.rowWidth := Nat.succ_mul _ _
  unfold slotStart
  omega

/-- A slot ends before the page does. -/
theorem slot_end_le : l.slotStart slot + l.rowWidth ≤ l.pageSize :=
  Nat.le_trans (slot_end_le_slots hslot) l.slots_fit

/-- The bit of a slot is in the bitmap, which ends before the slots begin. -/
theorem bit_lt_slotStart (other : Nat) : slot / 8 < l.slotStart other := by
  unfold slotStart headerBytes
  omega

/-- The bit of a slot is on the page. -/
theorem bit_lt_pageSize : slot / 8 < l.pageSize :=
  Nat.lt_of_lt_of_le (bit_lt_slotStart hslot slot)
    (Nat.le_trans (Nat.le_add_right _ _) (slot_end_le hslot))

end slot

/-! ## The division of a page -/

/-- What the division of a page comes to. It is refused if a row has no bytes, or not even one row
    fits, or more rows fit than slots can be numbered. -/
theorem make_cases (pageSize rowWidth : Nat) :
    (rowWidth = 0 ∧ make pageSize rowWidth = .error (.invalidArgument .noRowBytes)) ∨
    (0 < rowWidth ∧ ¬ Fits pageSize rowWidth 1 ∧
      make pageSize rowWidth = .error (.invalidArgument (.rowTooWide rowWidth pageSize))) ∨
    (∃ n, 0 < rowWidth ∧ IsGreatest {n | Fits pageSize rowWidth n} n ∧ 65535 < n ∧
      make pageSize rowWidth = .error (.invalidArgument (.tooManySlots n))) ∨
    ∃ l, 0 < rowWidth ∧ Fits pageSize rowWidth 1 ∧ (∀ n, Fits pageSize rowWidth n → n ≤ 65535) ∧
      make pageSize rowWidth = .ok l := by
  unfold make
  by_cases hw : rowWidth = 0
  · rw [dif_pos hw]
    exact Or.inl ⟨hw, rfl⟩
  rw [dif_neg hw]
  have hpos : 0 < rowWidth := Nat.pos_of_ne_zero hw
  by_cases hz : slotsFor pageSize rowWidth = 0
  · rw [dif_pos hz, fits_iff]
    exact Or.inr (Or.inl ⟨hpos, by omega, rfl⟩)
  rw [dif_neg hz]
  by_cases hm : 65535 < slotsFor pageSize rowWidth
  · rw [dif_pos hm]
    exact Or.inr (Or.inr (Or.inl ⟨_, hpos, isGreatest_slotsFor _ _, hm, rfl⟩))
  · rw [dif_neg hm, fits_iff]
    refine Or.inr (Or.inr (Or.inr ⟨_, hpos, by omega, fun n hn => ?_, rfl⟩))
    exact Nat.le_trans ((fits_iff _ _ n).1 hn) (Nat.le_of_not_lt hm)

/-- How a layout divides a page: there are slots, not too many to be numbered, and a header with a
    bit for each; header and slots have room on the page, and one row more would not have; every
    slot lies behind the header and on the page, and no two of them overlap. -/
structure Divides (l : Layout) (pageSize rowWidth : Nat) : Prop where
  page : l.pageSize = pageSize
  row : l.rowWidth = rowWidth
  some : 1 ≤ l.slots
  numbered : l.slots ≤ 65535
  header : l.headerBytes = l.slots ⌈/⌉ 8
  room : l.headerBytes + l.slots * rowWidth ≤ pageSize
  full : pageSize < (l.slots + 1) ⌈/⌉ 8 + (l.slots + 1) * rowWidth
  inside : ∀ slot < l.slots, l.slotRange slot ⊆ Set.Ico l.headerBytes pageSize
  apart : ∀ slot < l.slots, ∀ other < l.slots, other ≠ slot →
    ∀ i ∈ l.slotRange slot, i ∉ l.slotRange other

theorem divides (l : Layout) : l.Divides l.pageSize l.rowWidth where
  page := rfl
  row := rfl
  some := l.slots_pos
  numbered := l.slots_le
  header := l.headerBytes_eq
  room := l.slots_fit
  full := by
    have hmore : ¬ Fits l.pageSize l.rowWidth (l.slots + 1) := fun h =>
      Nat.not_succ_le_self _ ((fits_iff _ _ _).1 h)
    exact Nat.lt_of_not_le hmore
  inside slot hslot i hi :=
    ⟨Nat.le_trans (Nat.le_add_right _ _) hi.1, Nat.lt_of_lt_of_le hi.2 (slot_end_le hslot)⟩
  apart slot _ other _ hne i hi hj := by
    rcases slots_apart hne with h | h
    · exact Nat.not_le_of_lt hj.2 (Nat.le_trans h hi.1)
    · exact Nat.not_le_of_lt hi.2 (Nat.le_trans h hj.1)

/-- Of all sizes of pages and rows: a layout that there is divides the page into a header and slots
    that have room and do not overlap, and leaves none for one row more. There is no layout just
    when a row has no bytes, or not even one row has room beside one byte for its bit, or the
    largest number of rows that have room is above 65535. -/
theorem division_is_tight (pageSize rowWidth : Nat) :
    (∀ l, make pageSize rowWidth = .ok l → l.Divides pageSize rowWidth) ∧
    ((∃ e, make pageSize rowWidth = .error e) ↔
      rowWidth = 0 ∨ pageSize < 1 + rowWidth ∨
        ∃ n, IsGreatest {n | Fits pageSize rowWidth n} n ∧ 65535 < n) := by
  constructor
  · intro l h
    rcases (make_eq_ok_iff pageSize rowWidth l).1 h with ⟨rfl, rfl⟩
    exact l.divides
  rcases make_cases pageSize rowWidth with
    ⟨hw, h⟩ | ⟨_, hone, h⟩ | ⟨n, _, hn, hmany, h⟩ | ⟨l, hw, hone, hfew, h⟩
  · exact iff_of_true ⟨_, h⟩ (Or.inl hw)
  · rw [fits_one_iff] at hone
    exact iff_of_true ⟨_, h⟩ (Or.inr (Or.inl (Nat.lt_of_not_le hone)))
  · exact iff_of_true ⟨_, h⟩ (Or.inr (Or.inr ⟨n, hn, hmany⟩))
  · refine iff_of_false ?_ ?_
    · rintro ⟨e, he⟩
      rw [h] at he
      cases he
    · rintro (hzero | hnone | ⟨n, hn, hmany⟩)
      · omega
      · exact Nat.not_le_of_lt hnone ((fits_one_iff _ _).1 hone)
      · exact Nat.not_le_of_lt hmany (hfew n hn.1)

end Layout

end RowStore
