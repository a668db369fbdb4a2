import RowStore.Assoc
import RowStore.Bitmap
import RowStore.Error

/-!
# Files

The contents of files: a length, and the runs of bytes that were written.

A byte below the length that no run covers is zero, so a file can be extended
far beyond what was ever written to it. Of two runs that cover a byte the later
one counts. Shortening a file cuts the runs as well; what was cut off reads as
zero if the file grows again. That no run reaches past the length is part of the
type.

A disk has a limit to the length of a file. A length above it is refused, and the
file stays as it is.

## Main definitions

* `FileImage`: The contents of one file.
* `FileImage.byte`, `FileImage.read`: Reading one byte, and a run of them.
* `FileImage.resize`, `FileImage.write`: Cutting or extending a file, and writing a run.
* `Disk`: All files, by number, and the limit to their length.
* `Disk.setSize`: Cutting or extending a file of the disk, if the limit allows it.
-/

namespace RowStore

/-- A run of bytes at an offset. -/
structure Extent where
  start : Nat
  bytes : Bytes
  deriving DecidableEq, Repr

namespace Extent

/-- The offset after the last byte. -/
def stop (e : Extent) : Nat := e.start + e.bytes.size

/-- The byte at an offset of the file, if the run covers it. -/
def byte? (e : Extent) (i : Nat) : Option UInt8 :=
  if e.start ≤ i then e.bytes[i - e.start]? else none

/-- The part of a run below an offset. -/
def below (e : Extent) (n : Nat) : Extent := { e with bytes := e.bytes.extract 0 (n - e.start) }

theorem stop_below_le (e : Extent) {n : Nat} (h : e.start ≤ n) : (e.below n).stop ≤ n := by
  simp only [stop, below, Array.size_extract]
  omega

end Extent

/-- The contents of a file: its length, and the runs written to it, latest first. -/
structure FileImage where
  size : Nat := 0
  extents : List Extent := []
  within : ∀ e ∈ extents, e.stop ≤ size := by
    intro e he
    cases he
  deriving DecidableEq, Repr

namespace FileImage

/-- A file with nothing in it. -/
def empty : FileImage := {}

instance : Inhabited FileImage := ⟨empty⟩

/-- The byte at an offset; zero where nothing was written and past the end. -/
def byte (f : FileImage) (i : Nat) : UInt8 :=
  if i < f.size then (f.extents.findSome? fun e => e.byte? i).getD 0 else 0

/-- The runs that reach into the bytes from `start` to `stop`. -/
def near (f : FileImage) (start stop : Nat) : FileImage where
  size := f.size
  extents := f.extents.filter fun e => e.start < stop && start < e.stop
  within e he := f.within e (List.mem_filter.1 he).1

/-- The bytes from an offset on, as many as asked for. -/
def read (f : FileImage) (start count : Nat) : Bytes :=
  let window := f.near start (start + count)
  Array.ofFn fun i : Fin count => window.byte (start + i)

/-- The whole contents. -/
def contents (f : FileImage) : Bytes := f.read 0 f.size

/-- Cut the file, or extend it by zeros, to a length. -/
def resize (f : FileImage) (n : Nat) : FileImage where
  size := n
  extents := (f.extents.filter fun e => e.start < n).map fun e => e.below n
  within := by
    intro e he
    simp only [List.mem_map, List.mem_filter, decide_eq_true_eq] at he
    obtain ⟨e', he', rfl⟩ := he
    exact e'.stop_below_le (Nat.le_of_lt he'.2)

/-- Write a run of bytes at an offset, extending the file if the run ends past it. -/
def write (f : FileImage) (start : Nat) (run : Bytes) : FileImage :=
  if run.size = 0 then f
  else
    -- A run that the new one covers will not be read again.
    { size := max f.size (start + run.size)
      extents := ⟨start, run⟩ ::
        f.extents.filter fun e => e.start < start || start + run.size < e.stop
      within := by
        intro e he
        rcases List.mem_cons.1 he with rfl | he
        · exact Nat.le_max_right _ _
        · exact Nat.le_trans (f.within e (List.mem_filter.1 he).1) (Nat.le_max_left _ _) }

/-- A file of the given bytes. -/
def ofBytes (bytes : Bytes) : FileImage := empty.write 0 bytes

end FileImage

/-- A file, whatever path leads to it. -/
structure FileNo where
  val : Nat
  deriving DecidableEq, Repr, Inhabited

/-- The contents of all files, and the greatest length that a file can have: by default that of an
    offset in 64 bits with a sign. -/
structure Disk where
  files : Assoc FileNo FileImage := ∅
  limit : Nat := UInt64.size / 2 - 1
  deriving DecidableEq, Repr

namespace Disk

/-- The contents of a file; a file never written is empty. -/
def image (d : Disk) (n : FileNo) : FileImage := (d.files.get? n).getD .empty

/-- Replace the contents of a file. -/
def put (d : Disk) (n : FileNo) (f : FileImage) : Disk := { d with files := d.files.insert n f }

/-- Cut a file, or extend it by zeros, to a length that is within the limit. -/
def setSize (d : Disk) (n : FileNo) (size : Nat) : Except IoFault Disk :=
  if size ≤ d.limit then .ok (d.put n ((d.image n).resize size)) else .error .invalidInput

@[simp]
theorem image_put_self (d : Disk) (n : FileNo) (f : FileImage) : (d.put n f).image n = f := by
  simp [image, put, Assoc.get?_insert_self]

theorem image_put_other (d : Disk) {n m : FileNo} (f : FileImage) (h : m ≠ n) :
    (d.put n f).image m = d.image m := by
  simp [image, put, Assoc.get?_insert_other _ _ h]

end Disk

end RowStore
