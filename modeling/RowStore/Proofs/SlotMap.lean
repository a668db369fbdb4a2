import RowStore.Proofs.SlotRows

/-!
# A Page is a Slot Map

A page with all that is done to it, one operation after another, told by the map from
slots to rows that its bitmap spells.

`SlotMap.Step` is what a map answers and becomes, and knows of no bytes: a row goes to
the first slot without one, a row is taken out of a slot that has one, and all else is
refused. The bytes are told apart from it. `Op.Writes` names the bits that an operation
may change, by what it answered, and all others stay: the bits of other slots, the bytes
of other rows, the bytes of a row that was taken off, the bits of the header that belong
to no slot and the bytes behind the last slot.

Nothing is assumed of a page but its size. It may be full of bits that mean nothing.

That an operation keeps to the page is said in two ways. The places it goes to are on
the page by `Layout.slot_end_le` and `Layout.bit_lt_pageSize`. And a page with more
bytes behind it, whatever they are, gives the same answers and gets the same changes,
with the bytes behind it as they were.

## Main definitions

* `SlotMap.Step`, `SlotMap.Reads`: What a map answers.
* `SlotPage.entries`: The map that a page spells.
* `SlotPage.perform`, `SlotPage.performAll`: One operation on a page, and a list of them.
* `SlotPage.Refines`: What one operation makes of the map and of the bytes.
* `SlotPage.History`: The same for one operation after another.

## Theorems

* `SlotPage.refines_perform`: Every operation keeps to the map and to its own bits.
* `SlotPage.row?_reads`: What is read of a page is what its map has.
* `SlotPage.perform_append`: No operation reaches past the page.
* `SlotPage.page_refines_slot_map`: So it is for every history of a page.
-/

namespace RowStore

/-- The bits of a page that belong to no slot: in the header behind the last slot's bit, and behind
    the last slot. -/
def Layout.Spare (l : Layout) (j : Nat) : Prop :=
  l.slots ≤ j ∧ (j / 8 < l.headerBytes ∨ l.headerBytes + l.slots * l.rowWidth ≤ j / 8)

/-- What can be done to a page. -/
inductive SlotPage.Op where
  | insert (row : Bytes)
  | delete (slot : Nat)

/-- The row in each slot that has one. -/
abbrev SlotMap := Nat → Option Bytes

namespace SlotMap

variable (l : Layout) (m : SlotMap)

/-- The map with something else in one slot. -/
def put (slot : Nat) (row : Option Bytes) : SlotMap := fun s => if s = slot then row else m s

/-- A slot is the first without a row. -/
structure First (slot : Nat) : Prop where
  lt : slot < l.slots
  free : m slot = none
  before : ∀ s, s < slot → m s ≠ none

/-- Every slot has a row. -/
def Full : Prop := ∀ s, s < l.slots → m s ≠ none

/-- What a map answers to an operation, and what it becomes. The answer is the slot, or why there
    is none. -/
inductive Step : SlotPage.Op → Except StoreError Nat → SlotMap → Prop
  | stored {row : Bytes} {slot : Nat} (width : row.size = l.rowWidth) (first : m.First l slot) :
      Step (.insert row) (.ok slot) (m.put slot (some row))
  | full {row : Bytes} (width : row.size = l.rowWidth) (full : m.Full l) :
      Step (.insert row) (.error (.pageFull l.slots)) m
  | misfit {row : Bytes} (width : row.size ≠ l.rowWidth) :
      Step (.insert row) (.error (.invalidArgument (.rowForPage row.size l.rowWidth))) m
  | removed {slot : Nat} {row : Bytes} (lt : slot < l.slots) (live : m slot = some row) :
      Step (.delete slot) (.ok slot) (m.put slot none)
  | free {slot : Nat} (lt : slot < l.slots) (free : m slot = none) :
      Step (.delete slot) (.error (.rowNotFound slot)) m
  | nowhere {slot : Nat} (le : l.slots ≤ slot) :
      Step (.delete slot) (.error (.invalidSlot slot (l.slots - 1))) m

/-- What a map has in a slot. -/
inductive Reads (slot : Nat) : Except StoreError Bytes → Prop
  | found {row : Bytes} (lt : slot < l.slots) (live : m slot = some row) : Reads slot (.ok row)
  | free (lt : slot < l.slots) (free : m slot = none) : Reads slot (.error (.rowNotFound slot))
  | nowhere (le : l.slots ≤ slot) : Reads slot (.error (.invalidSlot slot (l.slots - 1)))

end SlotMap

namespace SlotPage

variable (l : Layout)

/-- The map that a page spells: a slot has a row if its bit is set, and the row is the bytes
    there. -/
def entries (b : Bytes) : SlotMap :=
  fun slot => if used l b slot then some (slotBytes l b slot) else none

/-- An operation on a page: the slot it went to or why it failed, and the page afterwards. -/
def perform (b : Bytes) : Op → Except StoreError Nat × Bytes
  | .insert row =>
      match insert l b row with
      | .ok (slot, b') => (.ok slot, b')
      | .error e => (.error e, b)
  | .delete slot =>
      match delete l b slot with
      | .ok b' => (.ok slot, b')
      | .error e => (.error e, b)

/-- One operation after another: all answers, and the page at the end. -/
def performAll (b : Bytes) : List Op → List (Except StoreError Nat) × Bytes
  | [] => ([], b)
  | op :: ops =>
      let (answer, b') := perform l b op
      let (answers, b'') := performAll b' ops
      (answer :: answers, b'')

/-- The bits that an operation may change, by what it answered. -/
def Op.Writes : Op → Except StoreError Nat → Nat → Prop
  | .insert _, .ok slot, j =>
      j = slot ∨ l.slotStart slot ≤ j / 8 ∧ j / 8 < l.slotStart slot + l.rowWidth
  | .delete _, .ok slot, j => j = slot
  | _, .error _, _ => False

/-- What an operation makes of a page: its map answers and changes as a map does, and of its bits
    none but those of the operation's slot change. -/
structure Refines (b : Bytes) (op : Op) (answer : Except StoreError Nat) (b' : Bytes) : Prop where
  size : b'.size = b.size
  map : (entries l b).Step l op answer (entries l b')
  frame : ∀ j, ¬ op.Writes l answer j → Bitmap.test b' j = Bitmap.test b j
  failing : ∀ e, answer = .error e → b' = b

/-- One operation after another, each as it should be. -/
inductive History : Bytes → List Op → List (Except StoreError Nat) → Bytes → Prop
  | nil (b : Bytes) : History b [] [] b
  | cons {b b' b'' : Bytes} {op : Op} {ops : List Op} {answer : Except StoreError Nat}
      {answers : List (Except StoreError Nat)} (first : Refines l b op answer b')
      (rest : History b' ops answers b'') : History b (op :: ops) (answer :: answers) b''

variable {l} {b : Bytes}

theorem entries_eq (b : Bytes) : entries l b = get? l b := funext fun slot => (get?_eq b slot).symm

/-! ## One operation -/

/-- A page is read as its map. -/
theorem row?_reads (b : Bytes) (slot : Nat) : (entries l b).Reads l slot (row? l b slot) := by
  unfold row? checkSlot
  simp only [bind, Except.bind]
  by_cases hlt : slot < l.slots
  · rw [if_pos hlt]
    simp only
    cases hused : used l b slot with
    | true => exact .found hlt (by simp only [entries, hused, if_true])
    | false => exact .free hlt (by simp only [entries, hused, Bool.false_eq_true, if_false])
  · rw [if_neg hlt]
    exact .nowhere (Nat.le_of_not_lt hlt)

/-- A bit outside the bytes of a slot is not touched when a row is put there. -/
theorem test_overwrite_other (b : Bytes) {row : Bytes} {slot j : Nat}
    (hrow : row.size = l.rowWidth)
    (hj : ¬ (l.slotStart slot ≤ j / 8 ∧ j / 8 < l.slotStart slot + l.rowWidth)) :
    Bitmap.test (overwrite b (l.slotStart slot) row) j = Bitmap.test b j := by
  unfold Bitmap.test
  rw [getElem?_overwrite_other b (by omega)]

/-- What becomes of a row that is to be put on a page. -/
theorem insert_cases (l : Layout) (b row : Bytes) :
    (row.size ≠ l.rowWidth ∧
      insert l b row = .error (.invalidArgument (.rowForPage row.size l.rowWidth))) ∨
    (row.size = l.rowWidth ∧ firstFree l b = none ∧
      insert l b row = .error (.pageFull l.slots)) ∨
    ∃ slot, row.size = l.rowWidth ∧ firstFree l b = some slot ∧
      insert l b row =
        .ok (slot, Bitmap.put (overwrite b (l.slotStart slot) row) slot true) := by
  unfold insert
  by_cases hrow : row.size = l.rowWidth
  · rw [if_neg fun hne => hne hrow]
    cases hfree : firstFree l b with
    | none => exact Or.inr (Or.inl ⟨hrow, rfl, rfl⟩)
    | some slot => exact Or.inr (Or.inr ⟨slot, hrow, rfl, rfl⟩)
  · rw [if_pos hrow]
    exact Or.inl ⟨hrow, rfl⟩

/-- What becomes of a slot whose row is to be taken off. -/
theorem delete_cases (l : Layout) (b : Bytes) (slot : Nat) :
    (l.slots ≤ slot ∧ delete l b slot = .error (.invalidSlot slot (l.slots - 1))) ∨
    (slot < l.slots ∧ used l b slot = false ∧ delete l b slot = .error (.rowNotFound slot)) ∨
    (slot < l.slots ∧ used l b slot = true ∧
      delete l b slot = .ok (Bitmap.put b slot false)) := by
  unfold delete checkSlot
  simp only [bind, Except.bind]
  by_cases hlt : slot < l.slots
  · rw [if_pos hlt]
    cases used l b slot with
    | false => exact Or.inr (Or.inl ⟨hlt, rfl, rfl⟩)
    | true => exact Or.inr (Or.inr ⟨hlt, rfl, rfl⟩)
  · rw [if_neg hlt]
    exact Or.inl ⟨Nat.le_of_not_lt hlt, rfl⟩

theorem perform_insert (b row : Bytes) :
    perform l b (.insert row) =
      match insert l b row with
      | .ok (slot, b') => (.ok slot, b')
      | .error e => (.error e, b) := rfl

theorem perform_delete (b : Bytes) (slot : Nat) :
    perform l b (.delete slot) =
      match delete l b slot with
      | .ok b' => (.ok slot, b')
      | .error e => (.error e, b) := rfl

/-- An operation that is refused leaves the page alone. -/
theorem Refines.refused {op : Op} {e : StoreError}
    (h : (entries l b).Step l op (.error e) (entries l b)) : Refines l b op (.error e) b :=
  ⟨rfl, h, fun _ _ => rfl, fun _ _ => rfl⟩

section size

variable (hsize : b.size = l.pageSize)

include hsize

/-- A row that is put on a page. -/
theorem refines_insert (row : Bytes) :
    Refines l b (.insert row) (perform l b (.insert row)).1 (perform l b (.insert row)).2 := by
  rw [perform_insert]
  rcases insert_cases l b row with ⟨hrow, hin⟩ | ⟨hrow, hfree, hin⟩ | ⟨slot, hrow, hfree, hin⟩ <;>
    rw [hin]
  · exact .refused (.misfit hrow)
  · exact .refused (.full hrow (entries_eq b ▸ firstFree_eq_none hfree))
  · rcases firstFree_eq_some hfree with ⟨hlt, hnone, hbefore⟩
    have hmap : entries l (Bitmap.put (overwrite b (l.slotStart slot) row) slot true) =
        (entries l b).put slot (some row) := by
      rw [entries_eq, entries_eq]
      exact funext (get?_insert hsize hin).2
    have hbyte : slot / 8 < (overwrite b (l.slotStart slot) row).size := by
      rw [size_overwrite, hsize]
      exact Layout.bit_lt_pageSize hlt
    refine ⟨by simp only [Bitmap.size_put, size_overwrite], ?_, fun j hj => ?_, fun _ h => ?_⟩
    · rw [hmap]
      exact .stored hrow (entries_eq b ▸ ⟨hlt, hnone, hbefore⟩)
    · -- The bit is neither the slot's own nor one of its bytes'.
      rcases not_or.1 hj with ⟨hne, hout⟩
      rw [Bitmap.test_put hbyte, if_neg hne, test_overwrite_other b hrow hout]
    · cases h

/-- A row that is taken off a page. -/
theorem refines_delete (slot : Nat) :
    Refines l b (.delete slot) (perform l b (.delete slot)).1 (perform l b (.delete slot)).2 := by
  rw [perform_delete]
  rcases delete_cases l b slot with ⟨hle, hout⟩ | ⟨hlt, hused, hout⟩ | ⟨hlt, hused, hout⟩ <;>
    rw [hout]
  · exact .refused (.nowhere hle)
  · exact .refused (.free hlt (if_neg (Bool.eq_false_iff.1 hused)))
  · have hmap : entries l (Bitmap.put b slot false) = (entries l b).put slot none := by
      rw [entries_eq, entries_eq]
      exact funext (get?_delete hsize hout).2
    refine ⟨Bitmap.size_put _ _ _, ?_, fun j hj => ?_, fun _ h => ?_⟩
    · rw [hmap]
      exact .removed hlt (if_pos hused)
    · have hne : j ≠ slot := hj
      rw [Bitmap.test_put (hsize ▸ Layout.bit_lt_pageSize hlt), if_neg hne]
    · cases h

/-- Every operation keeps to the map and to its own bits. -/
theorem refines_perform (op : Op) : Refines l b op (perform l b op).1 (perform l b op).2 := by
  cases op with
  | insert row => exact refines_insert hsize row
  | delete slot => exact refines_delete hsize slot

end size

/-- Bits that belong to no slot stay. -/
theorem Refines.spare {op : Op} {answer : Except StoreError Nat} {b' : Bytes}
    (h : Refines l b op answer b') {j : Nat} (hj : l.Spare j) :
    Bitmap.test b' j = Bitmap.test b j := by
  rcases h with ⟨_, hmap, hframe, _⟩
  rcases hj with ⟨hslot, hplace⟩
  -- Only an operation that succeeds writes, and then to the bit and the bytes of one slot.
  refine hframe j fun hw => ?_
  generalize entries l b' = m at hmap
  cases hmap with
  | stored _ first =>
      have hend := Layout.slot_end_le_slots first.lt
      rcases hw with rfl | ⟨hstart, hstop⟩
      · exact Nat.not_lt_of_le hslot first.lt
      · unfold Layout.slotStart at hstart hstop hend
        omega
  | removed lt _ =>
      have heq : j = _ := hw
      exact Nat.not_lt_of_le hslot (heq ▸ lt)
  | full => exact hw
  | misfit => exact hw
  | free => exact hw
  | nowhere => exact hw

/-! ## Bytes behind the page -/

section behind

variable (x : Bytes)

/-- A bit of a block is read the same if more bytes follow. -/
theorem test_append {j : Nat} (hj : j / 8 < b.size) :
    Bitmap.test (b ++ x) j = Bitmap.test b j := by
  unfold Bitmap.test
  rw [Array.getElem?_append_left hj]

/-- And it is written in the block. -/
theorem put_append {j : Nat} (hj : j / 8 < b.size) (v : Bool) :
    Bitmap.put (b ++ x) j v = Bitmap.put b j v ++ x := by
  apply Array.ext_getElem?
  intro i
  unfold Bitmap.put
  rw [Array.getElem?_modify, Array.getElem?_append, Array.getElem?_append, Array.size_modify,
    Array.getElem?_modify]
  by_cases hi : i < b.size
  · rw [if_pos hi, if_pos hi]
  · rw [if_neg hi, if_neg hi, if_neg (by omega)]

/-- A run that ends with the block or before it is replaced in the block. -/
theorem overwrite_append {row : Bytes} {start : Nat} (h : start + row.size ≤ b.size) :
    overwrite (b ++ x) start row = overwrite b start row ++ x := by
  apply Array.ext_getElem?
  intro i
  -- The run ends before the first of the bytes behind.
  by_cases hi : i < b.size
  · rw [getElem?_overwrite, Array.getElem?_append_left hi,
      Array.getElem?_append_left (by rw [size_overwrite]; exact hi), getElem?_overwrite]
  · rw [getElem?_overwrite_other _ (by omega), Array.getElem?_append_right (by omega),
      Array.getElem?_append_right (by rw [size_overwrite]; omega), size_overwrite]

variable (hsize : b.size = l.pageSize)

include hsize

theorem used_append (slot : Nat) : used l (b ++ x) slot = used l b slot := by
  unfold used
  by_cases hlt : slot < l.slots
  · rw [test_append x (hsize ▸ Layout.bit_lt_pageSize hlt)]
  · simp only [hlt, decide_false, Bool.false_and]

theorem slotBytes_append {slot : Nat} (hlt : slot < l.slots) :
    slotBytes l (b ++ x) slot = slotBytes l b slot := by
  have hend : l.slotStart slot + l.rowWidth ≤ b.size := hsize ▸ Layout.slot_end_le hlt
  unfold slotBytes
  apply Array.ext_getElem?
  intro i
  rw [Array.getElem?_extract, Array.getElem?_extract, Array.size_append,
    Nat.min_eq_left hend, Nat.min_eq_left (Nat.le_add_right_of_le hend)]
  split
  · exact Array.getElem?_append_left (by omega)
  · rfl

/-- A row is read off the page alone. -/
theorem row?_append (slot : Nat) : row? l (b ++ x) slot = row? l b slot := by
  unfold row? checkSlot
  by_cases hlt : slot < l.slots
  · rw [if_pos hlt, used_append x hsize, slotBytes_append x hsize hlt]
  · rw [if_neg hlt]
    rfl

theorem firstFree_append : firstFree l (b ++ x) = firstFree l b := by
  unfold firstFree
  simp only [used_append x hsize]

/-- No operation reaches past the page. -/
theorem perform_append (op : Op) :
    perform l (b ++ x) op = ((perform l b op).1, (perform l b op).2 ++ x) := by
  cases op with
  | insert row =>
      rw [perform_insert, perform_insert]
      rcases insert_cases l b row with
        ⟨hrow, hin⟩ | ⟨hrow, hfree, hin⟩ | ⟨slot, hrow, hfree, hin⟩ <;>
        rw [hin]
      · simp only [insert, hrow, ne_eq, not_false_eq_true, if_true]
      · simp only [insert, hrow, ne_eq, not_true_eq_false, if_false, firstFree_append x hsize,
          hfree]
      · -- A slot that is free is a slot of the page, with its bit and its bytes.
        have hlt := (firstFree_eq_some hfree).1
        have hend : l.slotStart slot + row.size ≤ b.size :=
          hrow ▸ hsize ▸ Layout.slot_end_le hlt
        have hbyte : slot / 8 < (overwrite b (l.slotStart slot) row).size := by
          rw [size_overwrite, hsize]
          exact Layout.bit_lt_pageSize hlt
        simp only [insert, hrow, ne_eq, not_true_eq_false, if_false, firstFree_append x hsize,
          hfree, overwrite_append x hend, put_append x hbyte]
  | delete slot =>
      rw [perform_delete, perform_delete]
      have hused := used_append x hsize slot
      rcases delete_cases l b slot with ⟨hle, hout⟩ | ⟨hlt, hu, hout⟩ | ⟨hlt, hu, hout⟩ <;>
        rw [hout]
      · simp only [delete, checkSlot, if_neg (Nat.not_lt_of_le hle), bind, Except.bind]
      · simp only [delete, checkSlot, if_pos hlt, bind, Except.bind, hused, hu,
          Bool.false_eq_true, if_false]
      · have hbyte : slot / 8 < b.size := hsize ▸ Layout.bit_lt_pageSize hlt
        simp only [delete, checkSlot, if_pos hlt, bind, Except.bind, hused, hu, if_true,
          put_append x hbyte]

end behind

/-! ## Histories -/

theorem performAll_cons (b : Bytes) (op : Op) (ops : List Op) :
    performAll l b (op :: ops) =
      ((perform l b op).1 :: (performAll l (perform l b op).2 ops).1,
        (performAll l (perform l b op).2 ops).2) := rfl

/-- Every list of operations is a history. -/
theorem history_performAll (ops : List Op) : ∀ {b : Bytes}, b.size = l.pageSize →
    History l b ops (performAll l b ops).1 (performAll l b ops).2 := by
  induction ops with
  | nil => exact fun _ => .nil _
  | cons op ops ih =>
      intro b hsize
      have hfirst := refines_perform hsize op
      rw [performAll_cons]
      exact .cons hfirst (ih (hfirst.size.trans hsize))

theorem performAll_append (x : Bytes) (ops : List Op) : ∀ {b : Bytes}, b.size = l.pageSize →
    performAll l (b ++ x) ops = ((performAll l b ops).1, (performAll l b ops).2 ++ x) := by
  induction ops with
  | nil => exact fun _ => rfl
  | cons op ops ih =>
      intro b hsize
      rw [performAll_cons, performAll_cons, perform_append x hsize,
        ih ((refines_perform hsize op).size.trans hsize)]

variable {b' : Bytes} {ops : List Op} {answers : List (Except StoreError Nat)}

theorem History.size (h : History l b ops answers b') : b'.size = b.size := by
  induction h with
  | nil => rfl
  | cons first _ ih => exact ih.trans first.size

/-- Bits that belong to no slot stay through a history. -/
theorem History.spare (h : History l b ops answers b') {j : Nat} (hj : l.Spare j) :
    Bitmap.test b' j = Bitmap.test b j := by
  induction h with
  | nil => rfl
  | cons first _ ih => exact ih.trans (first.spare hj)

/-- Whatever bytes a page has at first and whatever rows are put on it and taken off it: each
    operation answers as the map from slots to rows does, changes the map as it should and touches
    no bit but those of its slot, and none if it fails. At the end every slot is read as the map has
    it, and the bits that belong to no slot are what they were at first. All that was read and
    written was on the page: with other bytes behind it everything is the same, and those bytes
    stay. -/
theorem page_refines_slot_map (l : Layout) {b : Bytes} (hsize : b.size = l.pageSize)
    (ops : List Op) :
    let answers := (performAll l b ops).1
    let b' := (performAll l b ops).2
    History l b ops answers b' ∧
      b'.size = l.pageSize ∧
      (∀ slot, (entries l b').Reads l slot (row? l b' slot)) ∧
      (∀ j, l.Spare j → Bitmap.test b' j = Bitmap.test b j) ∧
      (∀ slot, slot < l.slots → slot / 8 < l.headerBytes ∧ l.headerBytes ≤ l.slotStart slot ∧
        l.slotStart slot + l.rowWidth ≤ b'.size) ∧
      (∀ x, performAll l (b ++ x) ops = (answers, b' ++ x) ∧
        ∀ slot, row? l (b' ++ x) slot = row? l b' slot) := by
  intro answers b'
  have hist : History l b ops answers b' := history_performAll ops hsize
  have hsize' : b'.size = l.pageSize := hist.size.trans hsize
  refine ⟨hist, hsize', row?_reads b', fun j => hist.spare, fun slot hlt => ?_, fun x => ?_⟩
  · refine ⟨?_, Nat.le_add_right _ _, hsize' ▸ Layout.slot_end_le hlt⟩
    unfold Layout.headerBytes
    omega
  · exact ⟨performAll_append x ops hsize, row?_append x hsize'⟩

/-- Pages of eight bytes with rows of two: three slots behind a header of one byte, and a byte to
    spare. -/
def threeSlots : Layout := ⟨8, 2, by decide, by decide, by decide⟩

/-- A page whose header has bits set that belong to no slot, with a row in slot 1: rows are put on
    it until it is full, one more and one of a wrong width, and then rows are taken off slot 1, off
    the same slot again and off a slot that there is not. -/
theorem page_refines_slot_map_strayBits :
    (#[0xF2, 7, 7, 8, 8, 9, 9, 3] : Bytes).size = threeSlots.pageSize ∧
      History threeSlots #[0xF2, 7, 7, 8, 8, 9, 9, 3]
        [.insert #[5, 5], .insert #[6, 6], .insert #[1, 1], .insert #[1], .delete 1, .delete 1,
          .delete 3]
        [.ok 0, .ok 2, .error (.pageFull 3), .error (.invalidArgument (.rowForPage 1 2)), .ok 1,
          .error (.rowNotFound 1), .error (.invalidSlot 3 2)]
        #[0xF5, 5, 5, 8, 8, 6, 6, 3] := by
  have h := page_refines_slot_map threeSlots (b := #[0xF2, 7, 7, 8, 8, 9, 9, 3]) rfl
    [.insert #[5, 5], .insert #[6, 6], .insert #[1, 1], .insert #[1], .delete 1, .delete 1,
      .delete 3]
  exact ⟨rfl, h.1⟩

end SlotPage

end RowStore
