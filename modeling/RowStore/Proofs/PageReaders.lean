import RowStore.Proofs.SlotRows

/-!
# The Readers of a Page

What a page is asked for, and that the answers agree.

A page can be asked for the row in a slot, for all rows, for the number of free slots and
for the first of them. Each reader goes through the bitmap by itself, and each has its own
bound: the rows are found by the bits alone, the others by asking whether a slot is live.
So there is one list that all of them have to be held against, the live slots in order.
The rows are those of the list, the free slots are the ones that it leaves out, and the
first free slot is the first that it leaves out.

A bitmap takes whole bytes, so it can have bits behind that of the last slot. No reader
gets that far, whatever they are.

## Theorems

* `SlotPage.mem_rows_iff`, `SlotPage.sorted_rows`: The rows are those of the live slots in order.
* `SlotPage.emptySlots_add_length`: A slot is free or has a row.
* `SlotPage.firstFree_eq_none_iff`: There is a first free slot when one is counted.
* `SlotPage.insert_full_iff`: A page refuses a row as full when no slot is free.
* `SlotPage.readers_agree`: All of it, of any block of a page's size.
-/

namespace RowStore

namespace SlotPage

variable {l : Layout} {b : Bytes}

/-- Only a slot of the page is live. -/
theorem lt_of_used {slot : Nat} (h : used l b slot = true) : slot < l.slots := by
  rw [used, Bool.and_eq_true, decide_eq_true_eq] at h
  exact h.1

/-- A row is read from a slot just when the slot is live, and then it is the bytes there. -/
theorem row?_eq_ok_iff (slot : Nat) (row : Bytes) :
    row? l b slot = .ok row ↔ used l b slot = true ∧ slotBytes l b slot = row := by
  unfold row? checkSlot
  simp only [bind, Except.bind]
  by_cases hlt : slot < l.slots
  · rw [if_pos hlt]
    cases hu : used l b slot <;> simp
  · rw [if_neg hlt]
    have hdead : used l b slot = false := Bool.eq_false_iff.2 fun h => hlt (lt_of_used h)
    simp [hdead]

/-- The bytes of a slot are as many as a row has. -/
theorem size_slotBytes (hsize : b.size = l.pageSize) {slot : Nat} (hlt : slot < l.slots) :
    (slotBytes l b slot).size = l.rowWidth := by
  have hend : l.slotStart slot + l.rowWidth ≤ b.size := hsize ▸ Layout.slot_end_le hlt
  unfold slotBytes
  rw [Array.size_extract]
  omega

/-- The rows that are listed are those that are read from the live slots. -/
theorem mem_rows_iff (slot : Nat) (row : Bytes) :
    (slot, row) ∈ rows l b ↔ used l b slot = true ∧ row? l b slot = .ok row := by
  rw [mem_rows, row?_eq_ok_iff, get?_eq]
  cases used l b slot <;> simp

/-- The rows are listed in the order of their slots. -/
theorem sorted_rows (b : Bytes) : ((rows l b).map Prod.fst).Pairwise (· < ·) := by
  rw [slots_of_rows]
  exact List.pairwise_lt_range.filter _

/-! ## Free slots -/

/-- A slot is free or has a row. -/
theorem emptySlots_add_length (b : Bytes) : emptySlots l b + (rows l b).length = l.slots := by
  have hrows : (rows l b).length = (List.range l.slots).countP (used l b) := by
    rw [← List.length_map Prod.fst, slots_of_rows, List.countP_eq_length_filter]
  have hall := List.length_eq_countP_add_countP (used l b) (l := List.range l.slots)
  rw [List.length_range] at hall
  have hfree : emptySlots l b = (List.range l.slots).countP fun i => ¬ used l b i := by
    unfold emptySlots
    congr 1
    funext i
    cases used l b i <;> rfl
  omega

/-- There is no first free slot just when none is counted. -/
theorem firstFree_eq_none_iff : firstFree l b = none ↔ emptySlots l b = 0 := by
  unfold firstFree emptySlots
  rw [List.find?_eq_none, List.countP_eq_zero]

/-- A page refuses a row that is as wide as its slots just when no slot is free. -/
theorem insert_full_iff {row : Bytes} (hrow : row.size = l.rowWidth) :
    insert l b row = .error (.pageFull l.slots) ↔ firstFree l b = none := by
  unfold insert
  rw [if_neg fun hne => hne hrow]
  cases firstFree l b <;> simp

/-- Of a block of a page's size, with any bits and bytes: the rows are listed in the order of their
    slots, and they are just those that are read from the live slots, each as wide as a row is. All
    of these are slots of the page, whose numbers have room in words of 16 bits. Free slots and rows
    add up to the slots. The first free slot is the least that is not live; there is none just when
    no free slot is counted, and just when a row of the right width is refused because the page is
    full. -/
theorem readers_agree (l : Layout) {b : Bytes} (hsize : b.size = l.pageSize) :
    ((rows l b).map Prod.fst).Pairwise (· < ·) ∧
    (∀ slot row, (slot, row) ∈ rows l b ↔ used l b slot = true ∧ row? l b slot = .ok row) ∧
    (∀ slot, used l b slot = true → slot < l.slots ∧ (UInt16.ofNat slot).toNat = slot ∧
      ∃ row, row? l b slot = .ok row ∧ row.size = l.rowWidth) ∧
    emptySlots l b + (rows l b).length = l.slots ∧
    (∀ slot, firstFree l b = some slot ↔
      slot < l.slots ∧ used l b slot = false ∧ ∀ i < slot, used l b i = true) ∧
    (firstFree l b = none ↔ emptySlots l b = 0) ∧
    (∀ row : Bytes, row.size = l.rowWidth →
      (insert l b row = .error (.pageFull l.slots) ↔ firstFree l b = none)) := by
  refine ⟨sorted_rows b, mem_rows_iff, fun slot hused => ?_, emptySlots_add_length b,
    firstFree_eq_some_iff, firstFree_eq_none_iff, fun _ => insert_full_iff⟩
  have hlt := lt_of_used hused
  have hword : slot < UInt16.size := Nat.lt_of_lt_of_le hlt (Nat.le_succ_of_le l.slots_le)
  exact ⟨hlt, UInt16.toNat_ofNat_of_lt hword, _, (row?_eq_ok_iff slot _).2 ⟨hused, rfl⟩,
    size_slotBytes hsize hlt⟩

/-- Pages of twelve bytes with rows of one: ten slots behind a header of two bytes, of which six
    bits belong to no slot. -/
def tenSlots : Layout := ⟨12, 1, Nat.one_pos, by decide, by decide⟩

/-- A page with six rows, and with the bits set that belong to no slot. -/
def sixRows : Bytes := #[0xB5, 0xFE, 10, 11, 12, 13, 14, 15, 16, 17, 18, 19]

/-- Its rows are in slots 0, 2, 4, 5, 7 and 9, so four slots are free, of which 1 is the first. -/
theorem readers_agree_sixRows :
    sixRows.size = tenSlots.pageSize ∧
      rows tenSlots sixRows =
        [(0, #[10]), (2, #[12]), (4, #[14]), (5, #[15]), (7, #[17]), (9, #[19])] ∧
      emptySlots tenSlots sixRows = 4 ∧ firstFree tenSlots sixRows = some 1 := by
  rcases readers_agree tenSlots (b := sixRows) rfl with ⟨_, _, _, hsum, hfirst, _⟩
  have hrows : rows tenSlots sixRows =
      [(0, #[10]), (2, #[12]), (4, #[14]), (5, #[15]), (7, #[17]), (9, #[19])] := by
    decide +kernel
  rw [hrows] at hsum
  have hslots : tenSlots.slots = 10 := rfl
  simp only [List.length_cons, List.length_nil, hslots] at hsum
  exact ⟨rfl, hrows, by omega, (hfirst 1).2 (by decide +kernel)⟩

end SlotPage

end RowStore
