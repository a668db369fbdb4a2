import RowStore.Proofs.File.PageArray

/-!
# Numbers of New Pages

Which number an appended page gets, and what becomes of a file that has too many pages
to be counted.

A file starts out empty, and pages are written and appended. Every number that is given
to a page lies below the number of pages, so the page that is appended next has a new
one, and the file only ever becomes longer.

This comes to an end with the last number that a word can hold. As soon as a page has
it, there are 2^32 pages, and they are counted as none. No page can be read then, not
even the one that was just written. The page that is appended next gets number 0 again,
and the file is cut to this one page. It does not take 2^32 operations to get there: any
page can be written at any time, so one is enough.

## Main definitions

* `PageFile.Op.takes`, `PageFile.taken`: The numbers that were given to pages.
* `PageFile.Numbered`: A file of no more pages than there are numbers.
* `PageFile.Grows`: Pages can be added to a file, and nothing is lost by it.
* `PageFile.Uncounted`: A file whose pages are counted as none.

## Theorems

* `PageArray.Step.takes`: What an operation adds to the numbers and to the pages.
* `PageFile.taken_below`: Numbers that were given are below the number of pages.
* `PageFile.uncounted`: What becomes of a file with 2^32 pages.
* `PageFile.new_until_last`: Pages are added to a file as they should be until the last number is
  given, and not after that.
-/

namespace RowStore

namespace PageFile

/-- The last number that a page can have. -/
def lastNumber : Nat := UInt32.size - 1

/-- A page that is written has a number that fits in a word. -/
def Op.Fits : Op → Prop
  | .write n _ => n ≤ lastNumber
  | .count | .read _ _ | .append => True

instance : (op : Op) → Decidable op.Fits
  | .write n _ => inferInstanceAs (Decidable (n ≤ lastNumber))
  | .count | .read _ _ | .append => inferInstanceAs (Decidable True)

/-- The numbers of pages that an operation has written or appended. -/
def Op.takes : Op → Except StoreError Answer → List Nat
  | .write n _, .ok _ => [n]
  | .append, .ok (.number n) => [n]
  | _, _ => []

/-- The numbers of all pages that were written or appended by operations one after another. -/
def taken (d : Disk) : List (PageFile × Op) → List Nat
  | [] => []
  | (m, op) :: rest => op.takes (m.perform d op).1 ++ taken (m.perform d op).2 rest

end PageFile

open PageFile (lastNumber)

namespace PageArray.Step

variable {size limit : Nat} {A A' : PageArray} {op : PageFile.Op}
  {answer : Except StoreError PageFile.Answer} (h : A.Step size limit op answer A')
  (hfits : op.Fits)

include h hfits

/-- An array gets no more pages than there are numbers, if a page is appended only when there is a
    number left. -/
theorem size_le (hfew : A.size ≤ UInt32.size) (hleft : op = .append → A.size ≤ lastNumber) :
    A'.size ≤ UInt32.size := by
  cases h with
  | written _ _ hw =>
      rw [hw.count]
      exact Nat.max_le.2 ⟨hfew, Nat.succ_le_succ hfits⟩
  | appended =>
      rw [Array.size_push]
      exact Nat.succ_le_succ (hleft rfl)
  | _ => exact hfew

/-- An operation gives away numbers below the number of pages that there are after it. There are as
    many pages as numbers if it gave away the last one. -/
theorem takes (hleft : A.size ≤ lastNumber) :
    A.size ≤ A'.size ∧ (∀ n ∈ op.takes answer, n < A'.size) ∧
      (lastNumber ∈ op.takes answer ↔ A'.size = lastNumber + 1) := by
  cases h with
  | written _ _ hw =>
      have hn := hfits
      have hc := hw.count
      simp only [PageFile.Op.Fits] at hn
      simp only [PageFile.Op.takes, List.mem_singleton, forall_eq]
      omega
  | appended =>
      simp only [PageFile.Op.takes, List.mem_singleton, forall_eq, Array.size_push]
      omega
  | _ =>
      simp only [PageFile.Op.takes, List.not_mem_nil, false_imp_iff, implies_true, false_iff,
        true_and]
      omega

end PageArray.Step

namespace PageFile

/-- A file of whole pages, no more of them than there are numbers, on a disk that has room for that
    many. -/
structure Numbered (file : FileNo) (size : Nat) (d : Disk) : Prop where
  whole : size ∣ (d.image file).size
  few : ((d.image file).pages size).size ≤ UInt32.size
  room : UInt32.size * size ≤ d.limit

/-- Pages can be added to a file: one that is appended gets a number that no page had, one that is
    written can be read back, and no other page is touched. -/
structure Grows (file : FileNo) (size : Nat) (used : List Nat) (d : Disk) : Prop where
  append : ∀ m : PageFile, m.On file size → ∃ d',
    m.append d = .ok (((d.image file).pages size).size, d') ∧
      ((d.image file).pages size).size ∉ used ∧
      (d'.image file).pages size = ((d.image file).pages size).push (PageArray.zeros size) ∧
      (d'.image file).size = (d.image file).size + size
  readBack : ∀ m : PageFile, m.On file size → ∀ p : PageId, p.number < lastNumber →
    ∀ bytes : Bytes, bytes.size = size → ∃ d',
      m.write d p.number bytes = .ok d' ∧ m.read d' p size = .ok bytes

/-- The pages of a file are counted as none: none can be read, and the file is cut to one page when
    a page is appended, which is page 0 once more. -/
structure Uncounted (file : FileNo) (size : Nat) (d : Disk) : Prop where
  length : (d.image file).size = UInt32.size * size
  count : ∀ m : PageFile, m.On file size → m.count d = .ok 0
  read : ∀ m : PageFile, m.On file size → ∀ p, m.read d p size = .error (.pageOutOfRange p 0)
  append : ∀ m : PageFile, m.On file size → ∃ d',
    m.append d = .ok (0, d') ∧ (d'.image file).size = size

variable {file : FileNo} {size : Nat} {d : Disk}

theorem Numbered.length (h : Numbered file size d) :
    (d.image file).size = ((d.image file).pages size).size * size := by
  rw [FileImage.size_pages, Nat.div_mul_cancel h.whole]

/-- There is room for a page if there is a number for it. -/
theorem Numbered.room_of_le (h : Numbered file size d) {n : Nat} (hn : n ≤ lastNumber) :
    (n + 1) * size ≤ d.limit :=
  Nat.le_trans (Nat.mul_le_mul_right _ (Nat.succ_le_succ hn)) h.room

/-- As long as there is a number left, the pages are counted. -/
theorem pageCount_of_left {m : PageFile}
    (hleft : ((d.image m.file).pages m.pageSize).size ≤ lastNumber) :
    m.pageCount d = ((d.image m.file).pages m.pageSize).size := by
  rw [FileImage.size_pages] at hleft
  exact pageCount_eq (Nat.lt_succ_of_le hleft)

/-! ## Too many pages -/

section Full

variable (hpos : 0 < size) (h : Numbered file size d)
  (hfull : ((d.image file).pages size).size = UInt32.size) {m : PageFile} (hm : m.On file size)

include hpos hfull hm

/-- 2^32 pages are counted as none. -/
theorem count_full : m.count d = .ok 0 ∧ m.pageCount d = 0 := by
  rcases hm with ⟨rfl, rfl⟩
  rw [FileImage.size_pages] at hfull
  have hcount : m.pageCount d = 0 := by
    simp only [pageCount, hfull, Nat.mod_self]
  exact ⟨hcount ▸ count_eq hpos d, hcount⟩

theorem read_full (p : PageId) : m.read d p size = .error (.pageOutOfRange p 0) := by
  have hcount := (count_full hpos hfull hm).2
  rcases hm with ⟨rfl, rfl⟩
  rw [read_eq hpos, hcount, if_neg (Nat.not_lt_zero _)]

include h in
/-- A page is appended after none, and the file ends with it. -/
theorem append_full : m.append d = .ok (0, d.put file ((d.image file).resize size)) := by
  have hcount := (count_full hpos hfull hm).2
  have hroom := h.room_of_le (Nat.zero_le lastNumber)
  rcases hm with ⟨rfl, rfl⟩
  rw [append_eq hpos, hcount, if_pos hroom, Nat.zero_add, Nat.one_mul]

end Full

theorem uncounted (hpos : 0 < size) (h : Numbered file size d)
    (hfull : ((d.image file).pages size).size = UInt32.size) : Uncounted file size d where
  length := hfull ▸ h.length
  count _ hm := (count_full hpos hfull hm).1
  read _ hm p := read_full hpos hfull hm p
  append _ hm := by
    refine ⟨_, append_full hpos h hfull hm, ?_⟩
    rw [Disk.image_put_self, FileImage.size_resize]

/-! ## One operation -/

variable {m : PageFile}

theorem Refines.numbered {op : Op} {answer : Except StoreError Answer} {d' : Disk}
    (href : Refines file size d op answer d') (h : Numbered file size d) (hfits : op.Fits)
    (hleft : op = .append → ((d.image file).pages size).size ≤ lastNumber) :
    Numbered file size d' :=
  ⟨href.whole, href.step.size_le hfits h.few hleft, href.limit ▸ h.room⟩

/-- As long as there is a number left, every operation keeps to the array of pages. -/
theorem Numbered.refines (hpos : 0 < size) (h : Numbered file size d) (hm : m.On file size)
    (hleft : ((d.image file).pages size).size ≤ lastNumber) (op : Op) :
    Refines file size d op (m.perform d op).1 (m.perform d op).2 := by
  rcases hm with ⟨rfl, rfl⟩
  rw [FileImage.size_pages] at hleft
  exact refines_perform hpos h.whole (Nat.lt_succ_of_le hleft) op

/-- No operation makes a file have more pages than there are numbers. -/
theorem numbered_perform (hpos : 0 < size) (h : Numbered file size d) (hm : m.On file size) (op : Op)
    (hfits : op.Fits) : Numbered file size (m.perform d op).2 := by
  cases op with
  | count | read => exact h
  | write n bytes =>
      rcases hm with ⟨rfl, rfl⟩
      exact (refines_write hpos h.whole n bytes).numbered h hfits nofun
  | append =>
      by_cases hleft : ((d.image file).pages size).size ≤ lastNumber
      · exact (h.refines hpos hm hleft .append).numbered h hfits fun _ => hleft
      · -- A page that is appended to a file that is full cuts it.
        have hfull := Nat.le_antisymm h.few (Nat.lt_of_not_le hleft)
        simp only [perform, append_full hpos h hfull hm]
        refine ⟨?_, ?_, h.room⟩
        · rw [Disk.image_put_self]
          exact Nat.dvd_refl size
        · rw [Disk.image_put_self, FileImage.size_pages, FileImage.size_resize, Nat.div_self hpos]
          decide

/-- Every page that has a number can be written, also when there are no more to be given. -/
theorem Numbered.write (hpos : 0 < size) (h : Numbered file size d) (hm : m.On file size) {n : Nat}
    (hn : n ≤ lastNumber) {bytes : Bytes} (hs : bytes.size = size) :
    ∃ d', m.write d n bytes = .ok d' ∧
      ((d.image file).pages size).Written size n bytes ((d'.image file).pages size) ∧
      Numbered file size d' := by
  have h' := numbered_perform hpos h hm (.write n bytes) hn
  rcases hm with ⟨rfl, rfl⟩
  rcases m.write_cases hpos d n bytes with
    ⟨hne, _⟩ | ⟨_, _, hlimit, _⟩ | ⟨_, _, d', hwrite, hwrote⟩
  · exact absurd hs hne
  · have hroom := h.room_of_le hn
    rw [Nat.succ_mul] at hroom
    exact absurd hroom (Nat.not_le_of_lt hlimit)
  · simp only [perform, hwrite] at h'
    exact ⟨d', hwrite, hwrote.written hpos h.whole hs, h'⟩

/-- A page of the array is read as long as there is a number left. -/
theorem read_page (hpos : 0 < size) (hm : m.On file size)
    (hleft : ((d.image file).pages size).size ≤ lastNumber) {p : PageId} {bytes : Bytes}
    (hpage : ((d.image file).pages size)[p.number]? = some bytes) :
    m.read d p size = .ok bytes := by
  rcases hm with ⟨rfl, rfl⟩
  rw [FileImage.getElem?_pages] at hpage
  split at hpage
  · rename_i hn
    rw [read_eq hpos, pageCount_of_left hleft, FileImage.size_pages, if_pos hn]
    exact congrArg Except.ok (Option.some.inj hpage)
  · cases hpage

/-- As long as there is a number left, pages can be added. -/
theorem Numbered.grows (hpos : 0 < size) (h : Numbered file size d)
    (hleft : ((d.image file).pages size).size ≤ lastNumber) {used : List Nat}
    (hused : ∀ n ∈ used, n < ((d.image file).pages size).size) : Grows file size used d where
  append := by
    rintro m ⟨rfl, rfl⟩
    have happend := append_eq hpos d
    rw [pageCount_of_left hleft, if_pos (h.room_of_le hleft)] at happend
    refine ⟨_, happend, fun hmem => Nat.lt_irrefl _ (hused _ hmem), ?_, ?_⟩
    · rw [Disk.image_put_self, pages_resize_succ hpos h.whole]
    · rw [Disk.image_put_self, FileImage.size_resize, Nat.succ_mul, ← h.length]
  readBack m hm p hp bytes hs := by
    rcases h.write hpos hm (Nat.le_of_lt hp) hs with ⟨d', hwrite, hw, _⟩
    have hleft' : ((d'.image file).pages size).size ≤ lastNumber := by
      rw [hw.count]
      exact Nat.max_le.2 ⟨hleft, hp⟩
    exact ⟨d', hwrite, read_page hpos hm hleft' hw.self⟩

/-! ## One operation after another -/

theorem numbered_performAll (hpos : 0 < size) (asks : List (PageFile × Op))
    (hasks : ∀ a ∈ asks, a.1.On file size ∧ a.2.Fits) :
    ∀ {d : Disk}, Numbered file size d → Numbered file size (performAll d asks).2 := by
  induction asks with
  | nil => exact fun h => h
  | cons a rest ih =>
      intro d h
      rcases hasks a List.mem_cons_self with ⟨hm, hfits⟩
      exact ih (fun b hb => hasks b (List.mem_cons_of_mem _ hb))
        (numbered_perform hpos h hm a.2 hfits)

/-- As long as the last number is not given, all numbers that are given are below the number of
    pages, and there is one left. -/
theorem taken_below (hpos : 0 < size) (asks : List (PageFile × Op))
    (hasks : ∀ a ∈ asks, a.1.On file size ∧ a.2.Fits) :
    ∀ {d : Disk}, Numbered file size d → ((d.image file).pages size).size ≤ lastNumber →
      lastNumber ∉ taken d asks →
      ((d.image file).pages size).size ≤ (((performAll d asks).2.image file).pages size).size ∧
      (((performAll d asks).2.image file).pages size).size ≤ lastNumber ∧
      ∀ n ∈ taken d asks, n < (((performAll d asks).2.image file).pages size).size := by
  induction asks with
  | nil => exact fun _ hleft _ => ⟨Nat.le_refl _, hleft, nofun⟩
  | cons a rest ih =>
      intro d h hleft hlast
      rcases hasks a List.mem_cons_self with ⟨hm, hfits⟩
      rcases not_or.1 (mt List.mem_append.2 hlast) with ⟨hnow, hlater⟩
      -- The first operation leaves a number, so the rest of the run begins as this one does.
      rcases (h.refines hpos hm hleft a.2).step.takes hfits hleft with ⟨hle, htakes, hfull⟩
      have h₁ := numbered_perform hpos h hm a.2 hfits
      have hleft₁ := Nat.le_of_lt_succ (Nat.lt_of_le_of_ne h₁.few (mt hfull.2 hnow))
      rcases ih (fun b hb => hasks b (List.mem_cons_of_mem _ hb)) h₁ hleft₁ hlater with
        ⟨hle', hleft', htaken⟩
      refine ⟨Nat.le_trans hle hle', hleft', fun n hn => ?_⟩
      -- What was given first stays below the number of pages, which only grows.
      rcases List.mem_append.1 hn with hn | hn
      · exact Nat.lt_of_lt_of_le (htakes n hn) hle'
      · exact htaken n hn

/-- A file that was just made has no pages. -/
theorem numbered_create (hm : m.On file size) (hroom : UInt32.size * size ≤ d.limit) :
    Numbered file size (m.create d) ∧ (((m.create d).image file).pages size).size = 0 := by
  have himage : (m.create d).image file = .empty := by
    rw [← hm.file]
    exact Disk.image_put_self _ _ _
  have hsize : ((FileImage.empty).pages size).size = 0 := by
    rw [FileImage.size_pages]
    exact Nat.zero_div size
  refine ⟨⟨?_, ?_, hroom⟩, himage ▸ hsize⟩
  · rw [himage]
    exact Nat.dvd_zero size
  · rw [himage, hsize]
    exact Nat.zero_le _

/-- Whatever was done to a file since it was made: a page that has a number can be written, it is
    then in its place in the array, and the file has not become shorter. As long as the last number
    was not given to a page, the next page that is appended gets a number that none has had, and a
    page that was written can be read. Whatever gives away the last number ends this: no page can
    be read any more, and the next page that is appended is page 0, and all that is left. -/
theorem new_until_last (hpos : 0 < size) (hroom : UInt32.size * size ≤ d.limit)
    (hm : m.On file size) (asks : List (PageFile × Op))
    (hasks : ∀ a ∈ asks, a.1.On file size ∧ a.2.Fits) :
    let d' := (performAll (m.create d) asks).2
    let used := taken (m.create d) asks
    (∀ k : PageFile, k.On file size → ∀ n ≤ lastNumber, ∀ bytes : Bytes, bytes.size = size →
      ∃ d'', k.write d' n bytes = .ok d'' ∧
        ((d'.image file).pages size).Written size n bytes ((d''.image file).pages size) ∧
        (d'.image file).size ≤ (d''.image file).size) ∧
    (lastNumber ∉ used → Grows file size used d' ∧
      ∀ k : PageFile, k.On file size → ∀ op : Op, op.Fits →
        lastNumber ∈ op.takes (k.perform d' op).1 →
        Uncounted file size (k.perform d' op).2) := by
  intro d' used
  rcases numbered_create hm hroom with ⟨hmade, hnone⟩
  have h : Numbered file size d' := numbered_performAll hpos asks hasks hmade
  refine ⟨fun k hk n hn bytes hs => ?_, fun hlast => ?_⟩
  · rcases h.write hpos hk hn hs with ⟨d'', hwrite, hw, h''⟩
    refine ⟨d'', hwrite, hw, ?_⟩
    rw [h.length, h''.length, hw.count]
    exact Nat.mul_le_mul_right _ (Nat.le_max_left _ _)
  · rcases taken_below hpos asks hasks hmade (hnone ▸ Nat.zero_le _) hlast with ⟨_, hleft, htaken⟩
    refine ⟨h.grows hpos hleft htaken, fun k hk op hfits hgives => ?_⟩
    have hfull := ((h.refines hpos hk hleft op).step.takes hfits hleft).2.2.1 hgives
    exact uncounted hpos (numbered_perform hpos h hk op hfits) hfull

/-- Two page files work on one new file: a page is written past the end, one more is appended by the
    other, and a page in between is written. -/
def withGap : List (PageFile × Op) :=
  [(⟨⟨0⟩, 2, "a.tbl"⟩, .write 3 #[7, 7]), (⟨⟨0⟩, 2, "./a.tbl"⟩, .append),
    (⟨⟨0⟩, 2, "a.tbl"⟩, .write 1 #[8, 8])]

theorem new_until_last_withGap :
    let d := (performAll ((⟨⟨0⟩, 2, "a.tbl"⟩ : PageFile).create {}) withGap).2
    UInt32.size * 2 ≤ ({} : Disk).limit ∧ (∀ a ∈ withGap, a.1.On ⟨0⟩ 2 ∧ a.2.Fits) ∧
      ((d.image ⟨0⟩).pages 2).size = 5 ∧ Grows ⟨0⟩ 2 [3, 4, 1] d := by
  have hroom : UInt32.size * 2 ≤ ({} : Disk).limit := by decide
  have hasks : ∀ a ∈ withGap, a.1.On ⟨0⟩ 2 ∧ a.2.Fits := by decide +kernel
  have h := new_until_last (by decide) hroom (m := ⟨⟨0⟩, 2, "a.tbl"⟩) ⟨rfl, rfl⟩ withGap hasks
  exact ⟨hroom, hasks, by decide +kernel, (h.2 (by decide +kernel)).1⟩

/-- Page 0 of a new file was written, and then the page with the last number. That page cannot be
    read, and the page that is appended next is page 0 once more, and the file is cut to it. -/
theorem last_number_empties_file :
    let m : PageFile := ⟨⟨0⟩, 1, "x.tbl"⟩
    let asks : List (PageFile × Op) := [(m, .write 0 #[0xaa]), (m, .write lastNumber #[0x7f])]
    let d := (performAll (m.create {}) asks).2
    (performAll (m.create {}) asks).1 = [.ok .done, .ok .done] ∧
      m.read d ⟨⟨1⟩, lastNumber⟩ 1 = .error (.pageOutOfRange ⟨⟨1⟩, lastNumber⟩ 0) ∧
      (m.perform d .append).1 = .ok (.number 0) ∧ 0 ∈ taken (m.create {}) asks ∧
      (d.image ⟨0⟩).size = 4294967296 ∧ ((m.perform d .append).2.image ⟨0⟩).size = 1 := by
  exact ⟨rfl, rfl, rfl, by decide +kernel, by decide +kernel, by decide +kernel⟩

end PageFile

end RowStore
