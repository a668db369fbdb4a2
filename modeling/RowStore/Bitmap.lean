import RowStore.Ident

/-!
# Bits and Runs of Bytes

Two views of a block of bytes that the page format needs: the bits of a bitmap,
numbered from the lowest bit of the first byte, and a run of bytes that is
replaced by another.

Both are total. A bit outside the block reads as clear and writing it does
nothing, and the part of a run that hangs over the end of the block is dropped.

## Main definitions

* `Bitmap.test`, `Bitmap.put`: Reading and writing one bit.
* `overwrite`: Replacing a run of bytes.

## Theorems

* `Bitmap.bit_putBit`: Writing a bit changes that bit and no other.
* `Bitmap.size_put`, `size_overwrite`: Neither operation changes the length.
* `getElem?_overwrite`: The bytes of a block after a run was replaced.
-/

namespace RowStore

namespace Bitmap

/-- The bit of a byte. -/
def bit (b : UInt8) (i : Nat) : Bool := b.toBitVec.getLsbD i

/-- A byte with one of its bits set or cleared. -/
def putBit (b : UInt8) (i : Nat) (v : Bool) : UInt8 :=
  ⟨if v then b.toBitVec ||| .twoPow 8 i else b.toBitVec &&& ~~~ .twoPow 8 i⟩

/-- Whether a bit of a block is set. -/
def test (b : Bytes) (i : Nat) : Bool := bit (b[i / 8]?.getD 0) (i % 8)

/-- A block with one of its bits set or cleared. -/
def put (b : Bytes) (i : Nat) (v : Bool) : Bytes := b.modify (i / 8) fun x => putBit x (i % 8) v

/-- Writing a bit of a byte changes that bit and no other. -/
theorem bit_putBit (b : UInt8) (i j : Nat) (v : Bool) (hi : i < 8) :
    bit (putBit b i v) j = if j = i then v else bit b j := by
  cases v with
  | false =>
    simp only [bit, putBit, Bool.false_eq_true, if_false, BitVec.getLsbD_and, BitVec.getLsbD_not,
      BitVec.getLsbD_twoPow]
    split
    · rename_i h
      subst h
      simp [hi]
    · rename_i h
      by_cases hj : j < 8
      · simp [hj, Ne.symm h]
      · simp [BitVec.getLsbD_of_ge b.toBitVec j (by omega)]
  | true =>
    simp only [bit, putBit, if_true, BitVec.getLsbD_or, BitVec.getLsbD_twoPow]
    split
    · rename_i h
      subst h
      simp [hi]
    · rename_i h
      simp [Ne.symm h]

@[simp]
theorem size_put (b : Bytes) (i : Nat) (v : Bool) : (put b i v).size = b.size :=
  Array.size_modify

end Bitmap

/-- A block with the bytes from `start` on replaced by those of `run`. -/
def overwrite (b : Bytes) (start : Nat) (run : Bytes) : Bytes :=
  b.mapIdx fun i x => if start ≤ i then run[i - start]?.getD x else x

@[simp]
theorem size_overwrite (b : Bytes) (start : Nat) (run : Bytes) :
    (overwrite b start run).size = b.size := by
  simp [overwrite]

/-- A byte of the block is one of the run where the run covers it, and itself elsewhere. -/
theorem getElem?_overwrite (b : Bytes) (start : Nat) (run : Bytes) (i : Nat) :
    (overwrite b start run)[i]? =
      b[i]?.map fun x => if start ≤ i then run[i - start]?.getD x else x := by
  simp [overwrite]

end RowStore
