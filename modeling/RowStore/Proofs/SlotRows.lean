import RowStore.Task
import RowStore.Proofs.Geometry
import RowStore.Proofs.Work

/-!
# Rows by Slot

A page as a map from slots to rows, and what is done to it.

The bitmap and the slots do not overlap, and neither do two slots. So putting a row
on a page sets the bit of one slot and the bytes of that slot, and no reader of
another slot can tell. Taking a row off a page clears one bit. On a block of the
right size both are updates of the map at one slot.

Whether the block has the right size is checked before a row is put on it or taken
off it, so this is a premise that can be had from the work itself.

## Main definitions

* `SlotPage.get?`: The row in a slot, if the slot is live.

## Theorems

* `SlotPage.get?_insert`, `SlotPage.get?_delete`: The two changes of a page, as updates of its map.
* `SlotPage.mem_rows`: The rows of a page are those of its map.
* `SlotPage.rowIn_first`: A row goes to the first slot without one.
* `SlotPage.checkRowAt_cases`: What a slot is found to be when a row is to be taken off.
-/

namespace RowStore

namespace Bitmap

/-- Writing a bit of a block changes that bit and no other. -/
theorem test_put {b : Bytes} {i : Nat} (hi : i / 8 < b.size) (v : Bool) (j : Nat) :
    test (put b i v) j = if j = i then v else test b j := by
  unfold test put
  rw [Array.getElem?_modify]
  by_cases hbyte : i / 8 = j / 8
  · -- The bit is in the byte that was changed, or beside it in the same byte.
    rw [if_pos hbyte, ← hbyte, Array.getElem?_eq_getElem hi, Option.map_some, Option.getD_some,
      Option.getD_some, bit_putBit _ _ _ _ (Nat.mod_lt _ (by omega))]
    have hiff : j % 8 = i % 8 ↔ j = i := by omega
    simp only [hiff]
  · rw [if_neg hbyte, if_neg (by rintro rfl; exact hbyte rfl)]

/-- Bits before a run that is replaced stay. -/
theorem test_overwrite (b run : Bytes) {start j : Nat} (hj : j / 8 < start) :
    test (overwrite b start run) j = test b j := by
  unfold test
  rw [getElem?_overwrite]
  simp only [Nat.not_le_of_lt hj, if_false, Option.map_id']

theorem test_zeros (n j : Nat) : test (Array.replicate n 0) j = false := by
  have hbit : bit 0 (j % 8) = false := by simp [bit]
  unfold test
  rw [Array.getElem?_replicate]
  split <;> exact hbit

end Bitmap

namespace SlotPage

variable {l : Layout}

/-- The row in a slot, if the slot is live. -/
def get? (l : Layout) (b : Bytes) (slot : Nat) : Option Bytes := (row? l b slot).toOption

theorem get?_eq (b : Bytes) (slot : Nat) :
    get? l b slot = if used l b slot then some (slotBytes l b slot) else none := by
  unfold get? row? checkSlot used
  simp only [bind, Except.bind]
  by_cases hs : slot < l.slots
  · rw [if_pos hs]
    simp only [hs, decide_true, Bool.true_and]
    split <;> rfl
  · rw [if_neg hs]
    simp only [hs, decide_false, Bool.false_and, Bool.false_eq_true, if_false]
    rfl

/-- The bytes of a slot depend on the bytes there. -/
theorem slotBytes_congr {b b' : Bytes} (hsize : b'.size = b.size) {slot : Nat}
    (h : ∀ i, l.slotStart slot ≤ i → i < l.slotStart slot + l.rowWidth → b'[i]? = b[i]?) :
    slotBytes l b' slot = slotBytes l b slot := by
  unfold slotBytes
  apply Array.ext_getElem?
  intro i
  rw [Array.getElem?_extract, Array.getElem?_extract, hsize]
  split
  · exact h _ (by omega) (by omega)
  · rfl

/-- A row is put into its own slot. -/
theorem slotBytes_overwrite {b row : Bytes} {slot : Nat} (hrow : row.size = l.rowWidth)
    (hfit : l.slotStart slot + l.rowWidth ≤ b.size) :
    slotBytes l (overwrite b (l.slotStart slot) row) slot = row := by
  unfold slotBytes
  apply Array.ext_getElem?
  intro i
  rw [Array.getElem?_extract, getElem?_overwrite, size_overwrite]
  have hmin : min (l.slotStart slot + l.rowWidth) b.size - l.slotStart slot = row.size := by omega
  rw [hmin]
  by_cases hi : i < row.size
  · -- The byte is one of the run, which covers the whole slot.
    have hb : l.slotStart slot + i < b.size := by omega
    rw [if_pos hi, Array.getElem?_eq_getElem hb, Array.getElem?_eq_getElem hi, Option.map_some,
      if_pos (Nat.le_add_right _ _), Nat.add_sub_cancel_left, Array.getElem?_eq_getElem hi,
      Option.getD_some]
  · rw [if_neg hi, Array.getElem?_eq_none (Nat.le_of_not_lt hi)]

/-- Bytes outside a run stay. -/
theorem getElem?_overwrite_other (b : Bytes) {row : Bytes} {start i : Nat}
    (h : i < start ∨ start + row.size ≤ i) : (overwrite b start row)[i]? = b[i]? := by
  rw [getElem?_overwrite]
  rcases h with h | h
  · simp only [Nat.not_le_of_lt h, if_false, Option.map_id']
  · have hnone : row[i - start]? = none := Array.getElem?_eq_none (by omega)
    simp only [hnone, Option.getD_none, ite_self, Option.map_id']

/-- Bytes behind the bitmap stay when a bit of it is written. -/
theorem getElem?_put_other (b : Bytes) {slot i : Nat} (v : Bool) (h : slot / 8 < i) :
    (Bitmap.put b slot v)[i]? = b[i]? := by
  unfold Bitmap.put
  rw [Array.getElem?_modify, if_neg (by omega)]

/-- Bytes in slots stay when a bit of the bitmap is written. -/
theorem slotBytes_put (b : Bytes) {slot : Nat} (hslot : slot < l.slots) (v : Bool) (s : Nat) :
    slotBytes l (Bitmap.put b slot v) s = slotBytes l b s :=
  slotBytes_congr (Bitmap.size_put _ _ _) fun _ hi _ =>
    getElem?_put_other b v (Nat.lt_of_lt_of_le (Layout.bit_lt_slotStart hslot s) hi)

/-- A slot's bit is its own. -/
theorem used_put {b : Bytes} {slot : Nat} (hslot : slot < l.slots) (hbyte : slot / 8 < b.size)
    (v : Bool) (s : Nat) :
    used l (Bitmap.put b slot v) s = if s = slot then v else used l b s := by
  unfold used
  rw [Bitmap.test_put hbyte]
  by_cases hs : s = slot
  · simp only [hs, if_true, hslot, decide_true, Bool.true_and]
  · rw [if_neg hs, if_neg hs]

/-- Which slots are live is not changed by what is in them. -/
theorem used_overwrite (b row : Bytes) (slot s : Nat) :
    used l (overwrite b (l.slotStart slot) row) s = used l b s := by
  unfold used
  by_cases hs : s < l.slots
  · rw [Bitmap.test_overwrite b row (Layout.bit_lt_slotStart hs slot)]
  · simp only [hs, decide_false, Bool.false_and]

section change

variable {b : Bytes} (hsize : b.size = l.pageSize) {slot : Nat}

include hsize

/-- Putting a row on a page changes one slot, which was free. -/
theorem get?_insert {row b' : Bytes} (h : insert l b row = .ok (slot, b')) :
    get? l b slot = none ∧ ∀ s, get? l b' s = if s = slot then some row else get? l b s := by
  unfold insert at h
  split at h
  · cases h
  · rename_i hrow
    have hrow' : row.size = l.rowWidth := Decidable.not_not.1 hrow
    cases hfree : firstFree l b with
    | none =>
        rw [hfree] at h
        cases h
    | some n =>
        rw [hfree] at h
        cases h
        -- A free slot that was found is one of the page's.
        have hslot : slot < l.slots := List.mem_range.1 (List.mem_of_find?_eq_some hfree)
        have hunused : used l b slot = false := by simpa using List.find?_some hfree
        have hfit : l.slotStart slot + l.rowWidth ≤ b.size := hsize ▸ Layout.slot_end_le hslot
        have hbyte : slot / 8 < (overwrite b (l.slotStart slot) row).size := by
          rw [size_overwrite, hsize]
          exact Layout.bit_lt_pageSize hslot
        refine ⟨by rw [get?_eq, hunused]; rfl, fun s => ?_⟩
        rw [get?_eq, get?_eq, used_put hslot hbyte, used_overwrite, slotBytes_put _ hslot]
        by_cases hs : s = slot
        · rw [if_pos hs, if_pos hs, hs, if_pos rfl, slotBytes_overwrite hrow' hfit]
        · -- The bytes of another slot are on one side of the row.
          have hother : slotBytes l (overwrite b (l.slotStart slot) row) s = slotBytes l b s := by
            refine slotBytes_congr (size_overwrite _ _ _) fun i hi hi' =>
              getElem?_overwrite_other b ?_
            have := Layout.slots_apart (l := l) hs
            omega
          rw [if_neg hs, if_neg hs, hother]

/-- Taking a row off a page changes one slot, which had a row. -/
theorem get?_delete {b' : Bytes} (h : delete l b slot = .ok b') :
    (∃ row, get? l b slot = some row) ∧
      ∀ s, get? l b' s = if s = slot then none else get? l b s := by
  unfold delete checkSlot at h
  simp only [bind, Except.bind] at h
  by_cases hslot : slot < l.slots
  · rw [if_pos hslot] at h
    simp only at h
    cases hused : used l b slot with
    | false =>
        rw [hused] at h
        cases h
    | true =>
        rw [hused] at h
        cases h
        refine ⟨⟨_, by rw [get?_eq, hused]; rfl⟩, fun s => ?_⟩
        have hbyte : slot / 8 < b.size := hsize ▸ Layout.bit_lt_pageSize hslot
        rw [get?_eq, get?_eq, used_put hslot hbyte, slotBytes_put _ hslot]
        by_cases hs : s = slot
        · rw [if_pos hs, if_pos hs]
          rfl
        · rw [if_neg hs, if_neg hs]
  · rw [if_neg hslot] at h
    cases h

end change

/-- The rows of a page are those of its map. -/
theorem mem_rows (b : Bytes) (s : Nat) (row : Bytes) :
    (s, row) ∈ rows l b ↔ get? l b s = some row := by
  rw [get?_eq, rows, List.mem_filterMap, used]
  constructor
  · rintro ⟨i, hi, hrow⟩
    split at hrow
    · rename_i ht
      cases hrow
      simp only [List.mem_range.1 hi, decide_true, ht, Bool.and_self, if_true]
    · cases hrow
  · intro h
    split at h
    · rename_i hu
      rw [Bool.and_eq_true, decide_eq_true_eq] at hu
      refine ⟨s, List.mem_range.2 hu.1, ?_⟩
      rw [if_pos hu.2, Option.some.inj h]
    · cases h

/-- The slots listed are the live ones, in order. -/
theorem slots_of_rows (b : Bytes) :
    (rows l b).map Prod.fst = (List.range l.slots).filter (used l b) := by
  have htest : (List.range l.slots).filter (used l b) =
      (List.range l.slots).filter (Bitmap.test b) := by
    refine List.filter_congr fun i hi => ?_
    simp only [used, List.mem_range.1 hi, decide_true, Bool.true_and]
  rw [htest]
  unfold rows
  rw [List.map_filterMap, ← List.filterMap_eq_filter]
  congr 1
  funext i
  unfold Option.guard
  split <;> simp_all

/-- Every slot is listed once. -/
theorem nodup_rows (b : Bytes) : ((rows l b).map Prod.fst).Nodup := by
  rw [slots_of_rows]
  exact List.nodup_range.filter _

theorem get?_zeros (n s : Nat) : get? l (Array.replicate n 0) s = none := by
  rw [get?_eq, used, Bitmap.test_zeros, Bool.and_false]
  rfl

/-! ## The first slot without a row -/

section first

variable {b : Bytes}

theorem get?_eq_none_iff (slot : Nat) : get? l b slot = none ↔ used l b slot = false := by
  rw [get?_eq]
  cases used l b slot <;> simp

/-- The first free slot is free, and no slot before it is. -/
theorem firstFree_eq_some_iff (slot : Nat) :
    firstFree l b = some slot ↔
      slot < l.slots ∧ used l b slot = false ∧ ∀ i < slot, used l b i = true := by
  unfold firstFree
  rw [List.find?_range_eq_some, List.mem_range]
  simp only [Bool.not_eq_true', Bool.not_eq_false']
  exact ⟨fun ⟨hfree, hlt, hbefore⟩ => ⟨hlt, hfree, hbefore⟩,
    fun ⟨hlt, hfree, hbefore⟩ => ⟨hfree, hlt, hbefore⟩⟩

/-- The slot that is found has no row, and is the first that has none. -/
theorem firstFree_eq_some {slot : Nat} (h : firstFree l b = some slot) :
    slot < l.slots ∧ get? l b slot = none ∧ ∀ s, s < slot → get? l b s ≠ none := by
  rcases (firstFree_eq_some_iff slot).1 h with ⟨hlt, hfree, hbefore⟩
  refine ⟨hlt, (get?_eq_none_iff slot).2 hfree, fun s hs hnone => ?_⟩
  rw [get?_eq_none_iff, hbefore s hs] at hnone
  cases hnone

/-- If none is found there is a row in every slot. -/
theorem firstFree_eq_none (h : firstFree l b = none) :
    ∀ s, s < l.slots → get? l b s ≠ none := by
  intro s hs
  unfold firstFree at h
  rw [Ne, get?_eq_none_iff]
  simpa using List.find?_eq_none.1 h s (List.mem_range.2 hs)

/-- A row of the right width goes to the first free slot. -/
theorem rowIn_first {row : Bytes} (hsize : b.size = l.pageSize) (hrow : row.size = l.rowWidth)
    {slot : Nat} (hlt : slot < l.slots) (hfree : get? l b slot = none)
    (hbefore : ∀ s, s < slot → get? l b s ≠ none) :
    ∃ b', Task.rowIn l row b = .ok (slot, b') ∧
      ∀ s, get? l b' s = if s = slot then some row else get? l b s := by
  have hfound : firstFree l b = some slot := by
    refine (firstFree_eq_some_iff slot).2 ⟨hlt, (get?_eq_none_iff slot).1 hfree, fun s hs => ?_⟩
    have hlive := hbefore s hs
    rwa [Ne, get?_eq_none_iff, Bool.not_eq_false] at hlive
  have hin : insert l b row =
      .ok (slot, Bitmap.put (overwrite b (l.slotStart slot) row) slot true) := by
    simp only [insert, hrow, ne_eq, not_true_eq_false, if_false, hfound]
  refine ⟨_, ?_, (get?_insert hsize hin).2⟩
  simp only [Task.rowIn, checkBytes, hsize, if_true, bind, Except.bind, hin]

/-- What a slot is found to be: no slot, or without a row, or with one that can be taken off. -/
theorem checkRowAt_cases (hsize : b.size = l.pageSize) (slot : Nat) :
    (l.slots ≤ slot ∧ Task.checkRowAt l b slot = .error (.invalidSlot slot (l.slots - 1))) ∨
    (slot < l.slots ∧ get? l b slot = none ∧
      Task.checkRowAt l b slot = .error (.rowNotFound slot)) ∨
    ((∃ row, get? l b slot = some row) ∧ Task.checkRowAt l b slot = .ok () ∧
      ∃ b', Task.rowOut l slot b = .ok ((), b') ∧
        ∀ s, get? l b' s = if s = slot then none else get? l b s) := by
  by_cases hlt : slot < l.slots
  · cases hused : used l b slot with
    | false =>
        refine Or.inr (Or.inl ⟨hlt, (get?_eq_none_iff slot).2 hused, ?_⟩)
        simp only [Task.checkRowAt, checkBytes, hsize, if_true, bind, Except.bind, row?, checkSlot,
          hlt, hused, Bool.false_eq_true, if_false]
    | true =>
        have hout : delete l b slot = .ok (Bitmap.put b slot false) := by
          simp only [delete, checkSlot, hlt, if_true, bind, Except.bind, hused]
        rcases get?_delete hsize hout with ⟨hrow, hmap⟩
        refine Or.inr (Or.inr ⟨hrow, ?_, _, ?_, hmap⟩)
        · simp only [Task.checkRowAt, checkBytes, hsize, if_true, bind, Except.bind, row?,
            checkSlot, hlt, hused]
        · simp only [Task.rowOut, checkBytes, hsize, if_true, bind, Except.bind, hout]
  · refine Or.inl ⟨Nat.le_of_not_lt hlt, ?_⟩
    simp only [Task.checkRowAt, checkBytes, hsize, if_true, bind, Except.bind, row?, checkSlot,
      if_neg hlt]

end first

end SlotPage

end RowStore
