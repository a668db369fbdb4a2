import RowStore.Disk

/-!
# Bytes of a File

What a file holds at an offset after it was cut, extended or written to.

A file keeps the runs that were written to it and not its bytes, and forgets runs
that nobody will read again. Both are choices of the representation. Here every
operation is told by what it does to the byte at one offset, and after that no
one has to look at a run.

The one fact that makes this work is that no run reaches past the length of the
file. So an offset past the end is covered by nothing, and the length itself need
not be asked for when a byte is looked up (`byte_eq`).

## Theorems

* `byte_eq`: A byte is what the latest run over it says, or zero.
* `byte_write`: Writing a run changes the bytes it covers and no other.
* `byte_resize`: Cutting or extending keeps the bytes below the new length.
* `getElem?_read`: A run of bytes read is the bytes at its offsets.
* `read_congr`: Reading depends on nothing but these bytes.
* `contents_congr`: Files with the same length and the same bytes have the same contents.
-/

namespace RowStore

namespace Extent

@[simp]
theorem start_below (e : Extent) (n : Nat) : (e.below n).start = e.start := rfl

theorem getElem?_bytes_below (e : Extent) (n i : Nat) :
    (e.below n).bytes[i]? = if i < n - e.start then e.bytes[i]? else none := by
  simp only [below, Array.getElem?_extract, Nat.zero_add, Nat.sub_zero]
  split
  · rw [if_pos (by omega)]
  · split
    · rw [Array.getElem?_eq_none (by omega)]
    · rfl

theorem byte?_eq_none (e : Extent) (i : Nat) (h : e.stop ≤ i) : e.byte? i = none := by
  unfold byte?
  split
  · simp only [stop] at h
    -- The run begins at or before the offset, but is too short.
    rw [Array.getElem?_eq_none]
    omega
  · rfl

theorem byte?_before (e : Extent) (i : Nat) (h : i < e.start) : e.byte? i = none := by
  unfold byte?
  rw [if_neg (by omega)]

theorem byte?_below (e : Extent) (n i : Nat) (h : i < n) : (e.below n).byte? i = e.byte? i := by
  unfold byte?
  rw [start_below, getElem?_bytes_below]
  split
  · rw [if_pos (by omega)]
  · rfl

end Extent

/-- Runs that have nothing to say about an offset can be left out. -/
theorem findSome?_filter_of_none {α β : Type} (l : List α) (keep : α → Bool) (f : α → Option β)
    (h : ∀ a ∈ l, keep a = false → f a = none) :
    (l.filter keep).findSome? f = l.findSome? f := by
  induction l with
  | nil => rfl
  | cons a r ih =>
    have hr := ih fun b hb => h b (List.mem_cons_of_mem a hb)
    cases ha : keep a with
    | true => simp only [List.filter_cons, ha, if_true, List.findSome?_cons, hr]
    | false =>
      have hf := h a List.mem_cons_self ha
      simp only [List.filter_cons, ha, Bool.false_eq_true, if_false, List.findSome?_cons, hf, hr]

namespace FileImage

/-- Nothing covers an offset past the end. -/
theorem findSome?_eq_none (f : FileImage) (i : Nat) (h : f.size ≤ i) :
    (f.extents.findSome? fun e => e.byte? i) = none := by
  rw [List.findSome?_eq_none_iff]
  intro e he
  exact e.byte?_eq_none i (Nat.le_trans (f.within e he) h)

theorem byte_eq (f : FileImage) (i : Nat) :
    f.byte i = (f.extents.findSome? fun e => e.byte? i).getD 0 := by
  unfold byte
  split
  · rfl
  · rw [f.findSome?_eq_none i (by omega)]
    rfl

theorem byte_past (f : FileImage) (i : Nat) (h : f.size ≤ i) : f.byte i = 0 := by
  rw [byte_eq, f.findSome?_eq_none i h]
  rfl

theorem byte_near (f : FileImage) (start stop i : Nat) (h₁ : start ≤ i) (h₂ : i < stop) :
    (f.near start stop).byte i = f.byte i := by
  rw [byte_eq, byte_eq, near, findSome?_filter_of_none]
  intro e _ he
  simp only [Bool.and_eq_false_iff, decide_eq_false_iff_not, Nat.not_lt] at he
  -- A run that is left out ends before the window or begins after it.
  rcases he with he | he
  · exact e.byte?_before i (by omega)
  · exact e.byte?_eq_none i (by omega)

@[simp]
theorem size_read (f : FileImage) (start count : Nat) : (f.read start count).size = count := by
  simp only [read, Array.size_ofFn]

theorem getElem?_read (f : FileImage) (start count i : Nat) :
    (f.read start count)[i]? = if i < count then some (f.byte (start + i)) else none := by
  unfold read
  rw [Array.getElem?_ofFn]
  split
  · rw [byte_near _ _ _ _ (by omega) (by omega)]
  · rfl

theorem read_congr (f g : FileImage) (start start' count : Nat)
    (h : ∀ i, i < count → f.byte (start + i) = g.byte (start' + i)) :
    f.read start count = g.read start' count := by
  apply Array.ext_getElem?
  intro i
  rw [getElem?_read, getElem?_read]
  split
  · rename_i hi
    rw [h i hi]
  · rfl

/-- What lies past the end reads as zeros. -/
theorem read_past (f : FileImage) (start count : Nat) (h : f.size ≤ start) :
    f.read start count = Array.replicate count 0 := by
  apply Array.ext_getElem?
  intro i
  rw [getElem?_read, Array.getElem?_replicate]
  split
  · rw [byte_past f _ (by omega)]
  · rfl

theorem contents_congr (f g : FileImage) (hs : f.size = g.size)
    (h : ∀ i, i < f.size → f.byte i = g.byte i) : f.contents = g.contents := by
  unfold contents
  rw [← hs]
  apply read_congr
  intro i hi
  rw [Nat.zero_add]
  exact h i hi

theorem byte_resize (f : FileImage) (n i : Nat) :
    (f.resize n).byte i = if i < n then f.byte i else 0 := by
  split
  · rename_i hi
    rw [byte_eq, byte_eq, resize, List.findSome?_map]
    -- Below the new length cutting a run takes nothing from it.
    have hb : (f.extents.filter fun e => e.start < n).findSome?
        ((fun e => e.byte? i) ∘ fun e => e.below n) =
        (f.extents.filter fun e => e.start < n).findSome? fun e => e.byte? i := by
      congr 1
      funext e
      exact e.byte?_below n i hi
    rw [hb, findSome?_filter_of_none]
    intro e _ he
    simp only [decide_eq_false_iff_not, Nat.not_lt] at he
    exact e.byte?_before i (by omega)
  · rename_i hi
    exact byte_past _ _ (by simp only [resize]; omega)

@[simp]
theorem size_resize (f : FileImage) (n : Nat) : (f.resize n).size = n := rfl

theorem size_write (f : FileImage) (start : Nat) (run : Bytes) :
    (f.write start run).size = if run.size = 0 then f.size else max f.size (start + run.size) := by
  unfold write
  split <;> rfl

theorem byte_write (f : FileImage) (start : Nat) (run : Bytes) (i : Nat) :
    (f.write start run).byte i =
      if start ≤ i then run[i - start]?.getD (f.byte i) else f.byte i := by
  unfold write
  split
  · rename_i h0
    split
    · rw [Array.getElem?_eq_none (by omega)]
      rfl
    · rfl
  · rw [byte_eq, byte_eq f]
    simp only [List.findSome?_cons]
    by_cases hc : start ≤ i ∧ i < start + run.size
    · -- The new run covers the offset and is asked first.
      have hlt : i - start < run.size := by omega
      simp only [Extent.byte?, if_pos hc.1, Array.getElem?_eq_getElem hlt, Option.getD_some]
    · -- It does not, and what it made the file forget does not either.
      have hn : Extent.byte? ⟨start, run⟩ i = none := by
        by_cases hs : start ≤ i
        · exact Extent.byte?_eq_none _ _ (by simp only [Extent.stop]; omega)
        · exact Extent.byte?_before _ _ (by simp only; omega)
      have hr : start ≤ i → run[i - start]? = none := fun hs =>
        Array.getElem?_eq_none (by omega)
      simp only [hn]
      rw [findSome?_filter_of_none]
      · split
        · rename_i hs
          rw [hr hs, Option.getD_none]
        · rfl
      · intro e _ he
        simp only [Bool.or_eq_false_iff, decide_eq_false_iff_not, Nat.not_lt] at he
        by_cases hs : start ≤ i
        · exact e.byte?_eq_none i (by omega)
        · exact e.byte?_before i (by omega)

/-- What was written can be read back. -/
theorem read_write_self (f : FileImage) (start : Nat) (run : Bytes) :
    (f.write start run).read start run.size = run := by
  apply Array.ext_getElem?
  intro i
  rw [getElem?_read, byte_write, if_pos (Nat.le_add_right start i), Nat.add_sub_cancel_left]
  split
  · rename_i hi
    rw [Array.getElem?_eq_getElem hi, Option.getD_some]
  · rw [Array.getElem?_eq_none (by omega)]

/-- Writing a run leaves the bytes alone that lie before it or after it. -/
theorem read_write_other (f : FileImage) (start : Nat) (run : Bytes) (start' count : Nat)
    (h : start' + count ≤ start ∨ start + run.size ≤ start') :
    (f.write start run).read start' count = f.read start' count := by
  apply read_congr
  intro i hi
  rw [byte_write]
  split
  · rw [Array.getElem?_eq_none (by omega), Option.getD_none]
  · rfl

/-- Growing a file changes nothing that can be read. -/
theorem read_resize (f : FileImage) (n start count : Nat) (h : f.size ≤ n) :
    (f.resize n).read start count = f.read start count := by
  apply read_congr
  intro i _
  rw [byte_resize]
  split
  · rfl
  · rw [byte_past f _ (by omega)]

end FileImage

end RowStore
