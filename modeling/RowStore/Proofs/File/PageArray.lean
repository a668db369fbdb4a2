import RowStore.Proofs.File.PageWrites

/-!
# A File is an Array of Pages

A file of pages with all that is done to it, told by the array of its pages.

`PageArray.Step` is what an array answers and becomes, and knows of no offsets and no
lengths of files. Its pages are counted and read; a page is written, and if the array
ended before it there are pages of zeros in between; a page of zeros is appended. The
limit to the length of a file is a limit to the number of pages that can be added.

Any number of page files may work on one file, one operation after another, as long as
they agree on the size of a page. They keep nothing of their own, so each of them sees
the array as the others left it, and so does one that takes the file up at the end.

All this is true as long as the pages can be counted in 32 bits. What a file does that
has more is another matter.

## Main definitions

* `PageFile.Op`, `PageFile.perform`, `PageFile.performAll`: What is done to a file of pages.
* `FileImage.pages`: The array of pages that a file is.
* `PageArray.Written`: A page was written.
* `PageArray.Step`: What an array of pages answers, and what it becomes.
* `PageFile.Refines`, `PageFile.History`: What one operation makes of the array, and what one after
  another make of it.

## Theorems

* `PageFile.Wrote.written`: A page that was written to a file was written in its array.
* `PageFile.refines_perform`: Every operation keeps to the array.
* `PageFile.file_is_page_array`: So it is for all that is done to a file.
-/

namespace RowStore

/-- What can be done to a file of pages. -/
inductive PageFile.Op where
  | count
  | read (page : PageId) (length : Nat)
  | write (page : Nat) (bytes : Bytes)
  | append

/-- What a file of pages has to say when it does not fail. -/
inductive PageFile.Answer where
  | number (n : Nat)
  | page (bytes : Bytes)
  | done
  deriving DecidableEq

/-- The pages of a file, from the first to the last. -/
abbrev PageArray := Array Bytes

namespace PageArray

/-- A page of zeros. -/
def zeros (size : Nat) : Bytes := Array.replicate size 0

/-- A page was written. The array goes up to it now if it did not before, with pages of zeros in
    between, and the other pages are what they were. -/
structure Written (size : Nat) (A : PageArray) (n : Nat) (bytes : Bytes) (A' : PageArray) :
    Prop where
  count : A'.size = max A.size (n + 1)
  self : A'[n]? = some bytes
  gap : ∀ i, A.size ≤ i → i < n → A'[i]? = some (zeros size)
  others : ∀ i, i < A.size → i ≠ n → A'[i]? = A[i]?

/-- What an array answers to an operation, and what it becomes. -/
inductive Step (size limit : Nat) (A : PageArray) :
    PageFile.Op → Except StoreError PageFile.Answer → PageArray → Prop
  | counted : Step size limit A .count (.ok (.number A.size)) A
  | found {p : PageId} {bytes : Bytes} (page : A[p.number]? = some bytes) :
      Step size limit A (.read p size) (.ok (.page bytes)) A
  | past {p : PageId} (past : A.size ≤ p.number) :
      Step size limit A (.read p size) (.error (.pageOutOfRange p A.size)) A
  | written {n : Nat} {bytes : Bytes} {A' : PageArray} (length : bytes.size = size)
      (room : A.size ≤ n → (n + 1) * size ≤ limit) (written : A.Written size n bytes A') :
      Step size limit A (.write n bytes) (.ok .done) A'
  | appended (room : (A.size + 1) * size ≤ limit) :
      Step size limit A .append (.ok (.number A.size)) (A.push (zeros size))
  | unreadable {p : PageId} {length : Nat} (misfit : length ≠ size) :
      Step size limit A (.read p length)
        (.error (.invalidArgument (.bufferLength size length))) A
  | unwritable {n : Nat} {bytes : Bytes} (misfit : bytes.size ≠ size) :
      Step size limit A (.write n bytes)
        (.error (.invalidArgument (.bufferLength size bytes.size))) A
  | tooFar {n : Nat} {bytes : Bytes} (length : bytes.size = size) (past : A.size ≤ n)
      (noRoom : limit < (n + 1) * size) :
      Step size limit A (.write n bytes) (.error (.io .invalidInput)) A
  | tooMany (noRoom : limit < (A.size + 1) * size) :
      Step size limit A .append (.error (.io .invalidInput)) A

end PageArray

namespace FileImage

/-- The array of the whole pages of a file. -/
def pages (f : FileImage) (size : Nat) : PageArray :=
  Array.ofFn fun n : Fin (f.size / size) => f.read (n * size) size

@[simp]
theorem size_pages (f : FileImage) (size : Nat) : (f.pages size).size = f.size / size := by
  simp only [pages, Array.size_ofFn]

theorem getElem?_pages (f : FileImage) (size n : Nat) :
    (f.pages size)[n]? = if n < f.size / size then some (f.read (n * size) size) else none := by
  simp only [pages, Array.getElem?_ofFn]
  split <;> rfl

end FileImage

namespace PageFile

/-- A page file works on this file and has pages of this size. -/
structure On (m : PageFile) (file : FileNo) (size : Nat) : Prop where
  file : m.file = file
  size : m.pageSize = size

instance (m : PageFile) (file : FileNo) (size : Nat) : Decidable (m.On file size) :=
  decidable_of_iff (m.file = file ∧ m.pageSize = size) ⟨fun h => ⟨h.1, h.2⟩, fun h => ⟨h.1, h.2⟩⟩

/-- An operation: what it answers, and the disk it leaves. -/
def perform (m : PageFile) (d : Disk) : Op → Except StoreError Answer × Disk
  | .count => ((m.count d).map .number, d)
  | .read p length => ((m.read d p length).map .page, d)
  | .write n bytes =>
    match m.write d n bytes with
    | .ok d' => (.ok .done, d')
    | .error e => (.error e, d)
  | .append =>
    match m.append d with
    | .ok (n, d') => (.ok (.number n), d')
    | .error e => (.error e, d)

/-- Operations one after another, each by a page file of its own. -/
def performAll (d : Disk) : List (PageFile × Op) → List (Except StoreError Answer) × Disk
  | [] => ([], d)
  | (m, op) :: rest =>
    ((m.perform d op).1 :: (performAll (m.perform d op).2 rest).1,
      (performAll (m.perform d op).2 rest).2)

/-- At no time are there more pages in the file than can be counted. -/
def Countable (file : FileNo) (size : Nat) (d : Disk) : List (PageFile × Op) → Prop
  | [] => (d.image file).size / size < UInt32.size
  | (m, op) :: rest =>
    (d.image file).size / size < UInt32.size ∧ Countable file size (m.perform d op).2 rest

instance (file : FileNo) (size : Nat) (d : Disk) :
    (asks : List (PageFile × Op)) → Decidable (Countable file size d asks)
  | [] => inferInstanceAs (Decidable (_ < _))
  | (m, op) :: rest =>
    have := instDecidableCountable file size (m.perform d op).2 rest
    inferInstanceAs (Decidable (_ ∧ _))

/-- What an operation makes of a file: it keeps to the array of the file's pages, the file stays a
    whole number of them, and no other file is touched. -/
structure Refines (file : FileNo) (size : Nat) (d : Disk) (op : Op)
    (answer : Except StoreError Answer) (d' : Disk) : Prop where
  whole : size ∣ (d'.image file).size
  step : ((d.image file).pages size).Step size d.limit op answer ((d'.image file).pages size)
  others : ∀ n, n ≠ file → d'.image n = d.image n
  limit : d'.limit = d.limit

/-- What one operation after another make of a file. -/
inductive History (file : FileNo) (size : Nat) :
    Disk → List (PageFile × Op) → List (Except StoreError Answer) → Disk → Prop
  | nil (d : Disk) : History file size d [] [] d
  | cons {d d₁ d₂ : Disk} {m : PageFile} {op : Op} {rest : List (PageFile × Op)}
      {answer : Except StoreError Answer} {answers : List (Except StoreError Answer)}
      (first : Refines file size d op answer d₁) (later : History file size d₁ rest answers d₂) :
      History file size d ((m, op) :: rest) (answer :: answers) d₂

variable {m : PageFile} {d d' : Disk}

/-! ## Counting and reading -/

theorem pageCount_eq (hc : (d.image m.file).size / m.pageSize < UInt32.size) :
    m.pageCount d = ((d.image m.file).pages m.pageSize).size := by
  rw [FileImage.size_pages]
  exact Nat.mod_eq_of_lt hc

theorem read_misfit (p : PageId) {length : Nat} (h : length ≠ m.pageSize) :
    m.read d p length = .error (.invalidArgument (.bufferLength m.pageSize length)) := by
  have hb : m.checkBuffer length = .error (.invalidArgument (.bufferLength m.pageSize length)) :=
    if_neg h
  simp only [read, hb, bind, Except.bind]

/-- Every page that the array has is read, and no other. -/
theorem step_read (hpos : 0 < m.pageSize)
    (hc : (d.image m.file).size / m.pageSize < UInt32.size) (p : PageId) (length : Nat) :
    ((d.image m.file).pages m.pageSize).Step m.pageSize d.limit (.read p length)
      (m.perform d (.read p length)).1 ((d.image m.file).pages m.pageSize) := by
  unfold perform
  by_cases hl : length = m.pageSize
  · subst hl
    simp only [read_eq hpos, pageCount_eq hc]
    by_cases hn : p.number < ((d.image m.file).pages m.pageSize).size
    · rw [if_pos hn]
      refine .found ?_
      rw [FileImage.size_pages] at hn
      rw [FileImage.getElem?_pages, if_pos hn]
    · rw [if_neg hn]
      exact .past (Nat.le_of_not_lt hn)
  · simp only [read_misfit p hl]
    exact .unreadable hl

/-! ## Writing -/

/-- A page begins past the end of a file of whole pages if the array does not have it. -/
theorem past_iff (hpos : 0 < m.pageSize) (hw : m.pageSize ∣ (d.image m.file).size) (n : Nat) :
    (d.image m.file).size ≤ n * m.pageSize ↔ ((d.image m.file).pages m.pageSize).size ≤ n := by
  rcases hw with ⟨k, hk⟩
  rw [FileImage.size_pages, hk, Nat.mul_div_cancel_left _ hpos, Nat.mul_comm]
  exact Nat.mul_le_mul_right_iff hpos

section Wrote

variable {n : Nat} {bytes : Bytes} (h : m.Wrote n bytes d d')

include h

/-- The file ends with its last page, which is the one written if there was none so far on. -/
theorem Wrote.size_eq (hw : m.pageSize ∣ (d.image m.file).size) :
    (d'.image m.file).size =
      max ((d.image m.file).pages m.pageSize).size (n + 1) * m.pageSize := by
  rw [h.size, FileImage.size_pages, ← Nat.succ_mul, Nat.succ_eq_add_one, ← Nat.mul_max_mul_right,
    Nat.div_mul_cancel hw]

theorem Wrote.read_eq (hs : bytes.size = m.pageSize) (i : Nat) :
    (d'.image m.file).read (i * m.pageSize) m.pageSize =
      if i = n then bytes else (d.image m.file).read (i * m.pageSize) m.pageSize := by
  have hread : (d'.image m.file).read (i * m.pageSize) m.pageSize =
      ((d.image m.file).write (n * m.pageSize) bytes).read (i * m.pageSize) m.pageSize :=
    FileImage.read_congr _ _ _ _ _ fun _ _ => h.byte _
  rw [hread]
  split
  · rename_i hi
    rw [hi, ← hs, FileImage.read_write_self]
  · rename_i hi
    refine FileImage.read_write_other _ _ _ _ _ ?_
    rw [hs]
    exact TableFile.apart_of_ne hi

/-- A page that was written to a file of whole pages was written in its array. -/
theorem Wrote.written (hpos : 0 < m.pageSize) (hw : m.pageSize ∣ (d.image m.file).size)
    (hs : bytes.size = m.pageSize) :
    ((d.image m.file).pages m.pageSize).Written m.pageSize n bytes
      ((d'.image m.file).pages m.pageSize) := by
  have hcount : (d'.image m.file).size / m.pageSize =
      max ((d.image m.file).pages m.pageSize).size (n + 1) := by
    rw [h.size_eq hw, Nat.mul_div_cancel _ hpos]
  have hget : ∀ i, i < max ((d.image m.file).pages m.pageSize).size (n + 1) →
      ((d'.image m.file).pages m.pageSize)[i]? =
        some (if i = n then bytes else (d.image m.file).read (i * m.pageSize) m.pageSize) := by
    intro i hi
    rw [FileImage.getElem?_pages, hcount, if_pos hi, h.read_eq hs]
  refine ⟨?_, ?_, fun i hge hlt => ?_, fun i hlt hne => ?_⟩
  · rw [FileImage.size_pages, hcount]
  · rw [hget n (by omega), if_pos rfl]
  · -- Between the old end and the page there was nothing, which reads as zeros.
    rw [hget i (by omega), if_neg (Nat.ne_of_lt hlt),
      FileImage.read_past _ _ _ ((past_iff hpos hw i).2 hge)]
    rfl
  · rw [hget i (by omega), if_neg hne]
    rw [FileImage.size_pages] at hlt
    rw [FileImage.getElem?_pages, if_pos hlt]

end Wrote

/-- Any page can be written from a buffer of its length, as far as there is room. -/
theorem refines_write (hpos : 0 < m.pageSize) (hw : m.pageSize ∣ (d.image m.file).size) (n : Nat)
    (bytes : Bytes) :
    Refines m.file m.pageSize d (.write n bytes) (m.perform d (.write n bytes)).1
      (m.perform d (.write n bytes)).2 := by
  have hpast := past_iff hpos hw n
  unfold perform
  rcases m.write_cases hpos d n bytes with
    ⟨hs, hwrite⟩ | ⟨hs, hend, hlimit, hwrite⟩ | ⟨hs, hroom, d₁, hwrite, hwrote⟩
  · simp only [hwrite]
    exact ⟨hw, .unwritable hs, fun _ _ => rfl, rfl⟩
  · simp only [hwrite]
    rw [← Nat.succ_mul] at hlimit
    exact ⟨hw, .tooFar hs (hpast.1 hend) hlimit, fun _ _ => rfl, rfl⟩
  · simp only [hwrite]
    refine ⟨?_, .written hs (fun hle => ?_) (hwrote.written hpos hw hs), hwrote.others,
      hwrote.limit⟩
    · rw [hwrote.size_eq hw]
      exact Nat.dvd_mul_left _ _
    · rw [Nat.succ_mul]
      exact hroom (hpast.2 hle)

/-! ## Appending -/

/-- The pages of a file that was cut or extended to some number of them. -/
theorem getElem?_pages_resize (f : FileImage) {size : Nat} (hpos : 0 < size) (k i : Nat) :
    ((f.resize (k * size)).pages size)[i]? =
      if i < k then some (f.read (i * size) size) else none := by
  rw [FileImage.getElem?_pages, FileImage.size_resize, Nat.mul_div_cancel _ hpos]
  split
  · rename_i hi
    have hend : i * size + size ≤ k * size := by
      rw [← Nat.succ_mul]
      exact Nat.mul_le_mul_right _ hi
    refine congrArg some (FileImage.read_congr _ _ _ _ _ fun j hj => ?_)
    rw [FileImage.byte_resize, if_pos (by omega)]
  · rfl

/-- A file of whole pages that becomes longer by a page has one page of zeros more. -/
theorem pages_resize_succ (hpos : 0 < m.pageSize) (hw : m.pageSize ∣ (d.image m.file).size) :
    ((d.image m.file).resize
        ((((d.image m.file).pages m.pageSize).size + 1) * m.pageSize)).pages m.pageSize =
      ((d.image m.file).pages m.pageSize).push (PageArray.zeros m.pageSize) := by
  apply Array.ext_getElem?
  intro i
  rw [getElem?_pages_resize _ hpos, Array.getElem?_push]
  by_cases hi : i = ((d.image m.file).pages m.pageSize).size
  · rw [if_pos hi, if_pos (by omega),
      FileImage.read_past _ _ _ ((past_iff hpos hw i).2 (Nat.le_of_eq hi.symm))]
    rfl
  · rw [if_neg hi, FileImage.getElem?_pages]
    rw [FileImage.size_pages] at hi ⊢
    by_cases hlt : i < (d.image m.file).size / m.pageSize
    · rw [if_pos hlt, if_pos (by omega)]
    · rw [if_neg hlt, if_neg (by omega)]

/-- A page is appended after the last, as far as there is room. -/
theorem refines_append (hpos : 0 < m.pageSize) (hw : m.pageSize ∣ (d.image m.file).size)
    (hc : (d.image m.file).size / m.pageSize < UInt32.size) :
    Refines m.file m.pageSize d .append (m.perform d .append).1 (m.perform d .append).2 := by
  unfold perform
  rw [append_eq hpos, pageCount_eq hc]
  by_cases hroom : (((d.image m.file).pages m.pageSize).size + 1) * m.pageSize ≤ d.limit
  · rw [if_pos hroom]
    refine ⟨?_, ?_, fun _ hn => Disk.image_put_other _ _ hn, rfl⟩
    · simp only [Disk.image_put_self, FileImage.size_resize]
      exact Nat.dvd_mul_left _ _
    · simp only [Disk.image_put_self, pages_resize_succ hpos hw]
      exact .appended hroom
  · rw [if_neg hroom]
    exact ⟨hw, .tooMany (Nat.lt_of_not_le hroom), fun _ _ => rfl, rfl⟩

/-! ## All operations -/

/-- Every operation keeps to the array of the file's pages, as long as they can be counted. -/
theorem refines_perform (hpos : 0 < m.pageSize) (hw : m.pageSize ∣ (d.image m.file).size)
    (hc : (d.image m.file).size / m.pageSize < UInt32.size) (op : Op) :
    Refines m.file m.pageSize d op (m.perform d op).1 (m.perform d op).2 := by
  cases op with
  | count =>
      refine ⟨hw, ?_, fun _ _ => rfl, rfl⟩
      simp only [perform, count_eq hpos, pageCount_eq hc]
      exact .counted
  | read p length => exact ⟨hw, step_read hpos hc p length, fun _ _ => rfl, rfl⟩
  | write n bytes => exact refines_write hpos hw n bytes
  | append => exact refines_append hpos hw hc

variable {file : FileNo} {size : Nat}

/-- Operations one after another are a history, by the first and those that follow it. -/
theorem history_performAll (hpos : 0 < size) (asks : List (PageFile × Op)) :
    ∀ {d : Disk}, (∀ a ∈ asks, a.1.On file size) → size ∣ (d.image file).size →
      Countable file size d asks →
      History file size d asks (performAll d asks).1 (performAll d asks).2 := by
  induction asks with
  | nil => exact fun _ _ _ => .nil _
  | cons a rest ih =>
      intro d hon hw hc
      rcases hon a List.mem_cons_self with ⟨rfl, rfl⟩
      have hfirst := refines_perform hpos hw hc.1 a.2
      exact .cons hfirst (ih (fun b hb => hon b (List.mem_cons_of_mem _ hb)) hfirst.whole hc.2)

theorem History.whole {asks : List (PageFile × Op)} {answers : List (Except StoreError Answer)}
    (h : History file size d asks answers d') (hw : size ∣ (d.image file).size) :
    size ∣ (d'.image file).size := by
  induction h with
  | nil => exact hw
  | cons first _ ih => exact ih first.whole

/-- The pages can still be counted at the end. -/
theorem Countable.last (asks : List (PageFile × Op)) : ∀ {d : Disk}, Countable file size d asks →
    ((performAll d asks).2.image file).size / size < UInt32.size := by
  induction asks with
  | nil => exact fun h => h
  | cons a rest ih => exact fun h => ih h.2

/-- Whatever is done to a file of whole pages by any number of page files that agree on the size of
    a page, as long as the pages can be counted: each operation answers as the array of the file's
    pages does and changes it as it should, the file stays a whole number of pages, and no other
    file is touched. At the end the file can be taken up, and who takes it up counts and reads the
    pages that the others left. -/
theorem file_is_page_array (hpos : 0 < size) (hw : size ∣ (d.image file).size)
    (asks : List (PageFile × Op)) (hon : ∀ a ∈ asks, a.1.On file size)
    (hc : Countable file size d asks) :
    let answers := (performAll d asks).1
    let d' := (performAll d asks).2
    let A := (d'.image file).pages size
    History file size d asks answers d' ∧
      size ∣ (d'.image file).size ∧
      ∀ m : PageFile, m.On file size →
        m.openFile d' = .ok () ∧ m.count d' = .ok A.size ∧
        ∀ p, m.read d' p size =
          match A[p.number]? with
          | some bytes => .ok bytes
          | none => .error (.pageOutOfRange p A.size) := by
  intro answers d' A
  have hist : History file size d asks answers d' := history_performAll hpos asks hon hw hc
  have hw' : size ∣ (d'.image file).size := hist.whole hw
  have hc' : (d'.image file).size / size < UInt32.size := hc.last
  refine ⟨hist, hw', ?_⟩
  rintro m ⟨rfl, rfl⟩
  refine ⟨?_, ?_, fun p => ?_⟩
  · simp only [openFile, if_neg (Nat.ne_of_gt hpos), Nat.mod_eq_zero_of_dvd hw', ne_eq,
      not_true_eq_false, if_false]
  · rw [count_eq hpos, pageCount_eq hc']
  · rw [read_eq hpos, pageCount_eq hc', FileImage.getElem?_pages, FileImage.size_pages]
    by_cases hn : p.number < (d'.image m.file).size / m.pageSize
    · simp only [if_pos hn]
    · simp only [if_neg hn]

/-- A disk with one file of two pages of two bytes. -/
def twoPages : Disk := Disk.put {} ⟨0⟩ (FileImage.ofBytes #[1, 2, 3, 4])

/-- Two page files, opened by different paths, work on one file: a page far past the end is written,
    one more is appended by the other, and then pages are read that there are and that there are
    not, and a page is written from a buffer that is too short. -/
def takingTurns : List (PageFile × Op) :=
  let m : PageFile := ⟨⟨0⟩, 2, "a.tbl"⟩
  let k : PageFile := ⟨⟨0⟩, 2, "./a.tbl"⟩
  [(m, .write 4 #[9, 9]), (k, .append), (m, .read ⟨⟨1⟩, 3⟩ 2), (k, .read ⟨⟨1⟩, 6⟩ 2),
    (k, .write 0 #[5]), (m, .count)]

theorem file_is_page_array_takingTurns :
    2 ∣ (twoPages.image ⟨0⟩).size ∧ (∀ a ∈ takingTurns, a.1.On ⟨0⟩ 2) ∧
      Countable ⟨0⟩ 2 twoPages takingTurns ∧
      History ⟨0⟩ 2 twoPages takingTurns
        [.ok .done, .ok (.number 5), .ok (.page #[0, 0]), .error (.pageOutOfRange ⟨⟨1⟩, 6⟩ 6),
          .error (.invalidArgument (.bufferLength 2 1)), .ok (.number 6)]
        (performAll twoPages takingTurns).2 ∧
      (⟨⟨0⟩, 2, "again"⟩ : PageFile).openFile (performAll twoPages takingTurns).2 = .ok () ∧
      ((performAll twoPages takingTurns).2.image ⟨0⟩).pages 2 =
        #[#[1, 2], #[3, 4], #[0, 0], #[0, 0], #[9, 9], #[0, 0]] := by
  have hw : 2 ∣ (twoPages.image ⟨0⟩).size := by decide +kernel
  have hon : ∀ a ∈ takingTurns, a.1.On ⟨0⟩ 2 := by decide +kernel
  have hc : Countable ⟨0⟩ 2 twoPages takingTurns := by decide +kernel
  have h := file_is_page_array (by decide) hw takingTurns hon hc
  have hans : (performAll twoPages takingTurns).1 =
      [.ok .done, .ok (.number 5), .ok (.page #[0, 0]), .error (.pageOutOfRange ⟨⟨1⟩, 6⟩ 6),
        .error (.invalidArgument (.bufferLength 2 1)), .ok (.number 6)] := by
    rfl
  exact ⟨hw, hon, hc, hans ▸ h.1, (h.2.2 ⟨⟨0⟩, 2, "again"⟩ ⟨rfl, rfl⟩).1, by decide +kernel⟩

end PageFile

end RowStore
