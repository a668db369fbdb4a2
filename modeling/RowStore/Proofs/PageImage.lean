import RowStore.Pool
import RowStore.Proofs.FileBytes

/-!
# Images of Pages on Disk

A table's file seen as an array of pages, and what reading, writing and appending
do to that array.

The number of pages is told in two ways. `TableFile.pageCount` is a 32-bit word
and is what the store goes by; `TableFile.pagesOn` is the true number. They are
the same up to 2^32 - 1 pages, and past that the word starts again from zero, so
a growing table would be cut off. Every statement here that lets a table grow asks
for the true number to be below 2^32.

A file that is a whole number of pages stays one. Its pages do not overlap, and
tables have files of their own, so a page that is written has its bytes and every
other page of every table keeps its own.

The array has no end: past the last page it goes on with pages of zeros. An append
then changes which pages a table has and no page's bytes.

## Main definitions

* `TableFile.pagesOn`, `TableFile.imageOn`: The array of pages.
* `Pool.stored`: The bytes of a page on disk, zeros past the end.
* `Pool.Has`: The page is on disk.
* `Pool.Laid`: Every table is known by its own id and has a file of its own, of whole pages.
* `Pool.Bounded`: Every table can be counted in 32 bits, with a page to spare.

## Theorems

* `PageFile.read_eq`, `PageFile.append_eq`: What a file of pages reads and appends, by its count.
* `TableFile.read_ok_iff`: What a page that can be read is.
* `TableFile.write_eq`, `TableFile.append_eq`: What a write and an append make of the disk.
* `Pool.stored_written`, `Pool.stored_grown`: What they make of the bytes of all pages.
-/

namespace RowStore

theorem Layout.pageSize_pos (l : Layout) : 0 < l.pageSize := by
  have h := l.slots_pos
  unfold slotsFor at h
  rcases Nat.eq_zero_or_pos l.pageSize with hz | hp
  · rw [hz, Nat.zero_mul, Nat.zero_div] at h
    omega
  · exact hp

namespace PageFile

variable {m : PageFile} (hpos : 0 < m.pageSize) (d : Disk)

include hpos

theorem count_eq : m.count d = .ok (m.pageCount d) := if_neg (Nat.ne_of_gt hpos)

/-- A page is read if it is below the count. -/
theorem read_eq (p : PageId) :
    m.read d p m.pageSize =
      if p.number < m.pageCount d then
        .ok ((d.image m.file).read (p.number * m.pageSize) m.pageSize)
      else .error (.pageOutOfRange p (m.pageCount d)) := by
  have hb : m.checkBuffer m.pageSize = .ok () := if_pos rfl
  simp only [read, hb, bind, Except.bind, count_eq hpos]
  rfl

/-- Appending sets the length of the file to one page more than it counts, unless the file would be
    too long. -/
theorem append_eq :
    m.append d =
      if (m.pageCount d + 1) * m.pageSize ≤ d.limit then
        .ok (m.pageCount d,
          d.put m.file ((d.image m.file).resize ((m.pageCount d + 1) * m.pageSize)))
      else .error (.io .invalidInput) := by
  simp only [append, bind, Except.bind, count_eq hpos, setSize, Disk.setSize]
  by_cases hl : (m.pageCount d + 1) * m.pageSize ≤ d.limit
  · simp only [if_pos hl]
    rfl
  · simp only [if_neg hl]
    rfl

end PageFile

namespace TableFile

variable (f : TableFile)

/-- The number of whole pages in the file. -/
def pagesOn (d : Disk) : Nat := (d.image f.file).size / f.layout.pageSize

/-- The bytes of a page in the file. -/
def imageOn (d : Disk) (n : Nat) : Bytes :=
  (d.image f.file).read (n * f.layout.pageSize) f.layout.pageSize

/-- The file is a whole number of pages. -/
def Whole (d : Disk) : Prop := f.pagesOn d * f.layout.pageSize = (d.image f.file).size

theorem pageCount_eq (d : Disk) : f.pageCount d = f.pagesOn d % UInt32.size := rfl

theorem pageCount_le (d : Disk) : f.pageCount d ≤ f.pagesOn d := Nat.mod_le _ _

/-- Two pages of a file do not overlap. -/
theorem apart_of_ne {n m size : Nat} (h : n ≠ m) :
    n * size + size ≤ m * size ∨ m * size + size ≤ n * size := by
  rcases Nat.lt_or_gt_of_ne h with hlt | hlt
  · left
    rw [← Nat.succ_mul]
    exact Nat.mul_le_mul_right size hlt
  · right
    rw [← Nat.succ_mul]
    exact Nat.mul_le_mul_right size hlt

/-- A page below the number of pages lies inside the file. -/
theorem end_le_size {d : Disk} {n : Nat} (h : n < f.pagesOn d) :
    n * f.layout.pageSize + f.layout.pageSize ≤ (d.image f.file).size := by
  rw [← Nat.succ_mul]
  exact Nat.le_trans (Nat.mul_le_mul_right _ h) (Nat.div_mul_le_self _ _)

@[simp]
theorem size_imageOn (d : Disk) (n : Nat) : (f.imageOn d n).size = f.layout.pageSize :=
  FileImage.size_read _ _ _

/-- A page past the end would be a page of zeros. -/
theorem imageOn_past {d : Disk} (hw : f.Whole d) {n : Nat} (h : f.pagesOn d ≤ n) :
    f.imageOn d n = Array.replicate f.layout.pageSize 0 := by
  apply FileImage.read_past
  rw [← hw]
  exact Nat.mul_le_mul_right _ h

section congr

variable {d d' : Disk} (h : d'.image f.file = d.image f.file)

include h

theorem pagesOn_congr : f.pagesOn d' = f.pagesOn d := by
  unfold pagesOn
  rw [h]

theorem imageOn_congr (n : Nat) : f.imageOn d' n = f.imageOn d n := by
  unfold imageOn
  rw [h]

theorem whole_congr : f.Whole d' ↔ f.Whole d := by
  unfold Whole
  rw [f.pagesOn_congr h, h]

end congr

/-! ## Reading -/

theorem checkPage_eq_ok {p : PageId} {u : Unit} (h : f.checkPage p = .ok u) :
    p.table = f.table := by
  unfold checkPage at h
  split at h
  · assumption
  · cases h

theorem checkRow_eq_ok {row : Bytes} {u : Unit} (h : f.checkRow row = .ok u) :
    row.size = f.layout.rowWidth := by
  unfold checkRow at h
  split at h
  · assumption
  · cases h

theorem count_eq (d : Disk) : f.pages.count d = .ok (f.pageCount d) :=
  PageFile.count_eq f.layout.pageSize_pos d

/-- A page of the table is read if it is below the count. -/
theorem read_eq (d : Disk) {p : PageId} (ht : p.table = f.table) :
    f.read d p =
      if p.number < f.pageCount d then .ok ⟨p, f.imageOn d p.number, none⟩
      else .error (.pageOutOfRange p (f.pageCount d)) := by
  -- The table is checked first, and then the file of pages makes its own checks.
  have hread : f.pages.read d p f.layout.pageSize =
      if p.number < f.pageCount d then .ok (f.imageOn d p.number)
      else .error (.pageOutOfRange p (f.pageCount d)) :=
    PageFile.read_eq f.layout.pageSize_pos d p
  unfold read checkPage
  rw [if_pos ht]
  simp only [bind, Except.bind, hread]
  by_cases hn : p.number < f.pageCount d
  · simp only [if_pos hn]
  · simp only [if_neg hn]

/-- Any page of the table below its count can be read, and no other. -/
theorem read_ok_iff (d : Disk) (p : PageId) (page : Page) :
    f.read d p = .ok page ↔
      p.table = f.table ∧ p.number < f.pageCount d ∧ page = ⟨p, f.imageOn d p.number, none⟩ := by
  by_cases ht : p.table = f.table
  · rw [f.read_eq d ht]
    by_cases hn : p.number < f.pageCount d
    · rw [if_pos hn, Except.ok.injEq]
      simp only [ht, hn, true_and]
      exact eq_comm
    · simp [hn]
  · unfold read checkPage
    rw [if_neg ht]
    simp [bind, Except.bind, ht]

/-! ## Writing -/

/-- The disk after a page inside the file was written. -/
def written (d : Disk) (n : Nat) (bytes : Bytes) : Disk :=
  d.put f.file ((d.image f.file).write (n * f.layout.pageSize) bytes)

/-- A page inside the file can be written without changing its length. -/
theorem write_eq (d : Disk) (page : Page) (ht : page.id.table = f.table)
    (hn : page.id.number < f.pagesOn d) (hs : page.bytes.size = f.layout.pageSize) :
    f.write d page = .ok (f.written d page.id.number page.bytes) := by
  have hb : f.pages.checkBuffer page.bytes.size = .ok () := if_pos hs
  -- The end of the page is inside the file, so the file need not grow.
  have hr : f.pages.reach d page.id.number = .ok d := by
    have hend := f.end_le_size hn
    have hpos := f.layout.pageSize_pos
    apply if_neg
    simp only [PageFile.offset, pages]
    omega
  simp only [write, checkPage, if_pos ht, bind, Except.bind, PageFile.write, hb, hr]
  rfl

section written

variable {d : Disk} {n : Nat} {bytes : Bytes} (hn : n < f.pagesOn d)
  (hs : bytes.size = f.layout.pageSize)

include hn hs

theorem size_image_written :
    ((f.written d n bytes).image f.file).size = (d.image f.file).size := by
  have hend := f.end_le_size hn
  unfold written
  rw [Disk.image_put_self, FileImage.size_write]
  split
  · rfl
  · omega

theorem pagesOn_written : f.pagesOn (f.written d n bytes) = f.pagesOn d := by
  unfold pagesOn
  rw [f.size_image_written hn hs]

omit hn in
theorem imageOn_written (m : Nat) :
    f.imageOn (f.written d n bytes) m = if m = n then bytes else f.imageOn d m := by
  unfold imageOn written
  rw [Disk.image_put_self]
  split
  · rename_i h
    rw [h, ← hs, FileImage.read_write_self]
  · rename_i h
    -- Another page lies before the written one or after it.
    apply FileImage.read_write_other
    rw [hs]
    exact apart_of_ne h

end written

/-! ## Appending -/

/-- The disk after a page of zeros was appended. -/
def grown (d : Disk) : Disk :=
  d.put f.file ((d.image f.file).resize ((f.pagesOn d + 1) * f.layout.pageSize))

/-- As long as the pages can be counted, appending adds one page after the last, unless the file
    would be too long. -/
theorem append_eq {d : Disk} (hc : f.pagesOn d < UInt32.size) :
    f.append d =
      if (f.pagesOn d + 1) * f.layout.pageSize ≤ d.limit then
        .ok (⟨f.table, f.pagesOn d⟩, f.grown d)
      else .error (.io .invalidInput) := by
  -- The count is the number of pages, so the new page comes right after the last.
  have hm : f.pages.pageCount d = f.pagesOn d := Nat.mod_eq_of_lt hc
  have happend : f.pages.append d =
      if (f.pagesOn d + 1) * f.layout.pageSize ≤ d.limit then .ok (f.pagesOn d, f.grown d)
      else .error (.io .invalidInput) := by
    rw [PageFile.append_eq (m := f.pages) f.layout.pageSize_pos, hm]
    rfl
  simp only [append, bind, Except.bind, happend]
  by_cases hl : (f.pagesOn d + 1) * f.layout.pageSize ≤ d.limit
  · simp only [if_pos hl]
  · simp only [if_neg hl]

theorem append_eq_ok {d d' : Disk} {p : PageId} (hc : f.pagesOn d < UInt32.size)
    (h : f.append d = .ok (p, d')) : p = ⟨f.table, f.pagesOn d⟩ ∧ d' = f.grown d := by
  rw [f.append_eq hc] at h
  split at h
  · cases h
    exact ⟨rfl, rfl⟩
  · cases h

section grown

variable {d : Disk} (hw : f.Whole d)

include hw

theorem imageOn_grown (m : Nat) : f.imageOn (f.grown d) m = f.imageOn d m := by
  unfold imageOn grown
  rw [Disk.image_put_self]
  -- The file is whole, so it ends where the new page begins, and becomes longer.
  apply FileImage.read_resize
  rw [← hw]
  exact Nat.mul_le_mul_right _ (Nat.le_succ _)

omit hw in
theorem pagesOn_grown : f.pagesOn (f.grown d) = f.pagesOn d + 1 := by
  unfold pagesOn grown
  rw [Disk.image_put_self, FileImage.size_resize]
  exact Nat.mul_div_cancel _ f.layout.pageSize_pos

omit hw in
theorem whole_grown : f.Whole (f.grown d) := by
  unfold Whole
  rw [pagesOn_grown]
  unfold grown
  rw [Disk.image_put_self]
  rfl

end grown

end TableFile

/-! ## The pages of a pool -/

/-- What is true of every value found in a map is true of every entry. -/
theorem Assoc.forall_iff {κ α : Type} [DecidableEq κ] (m : Assoc κ α) (R : κ → α → Prop) :
    (∀ k a, m.get? k = some a → R k a) ↔ ∀ e ∈ m.entries, R e.1 e.2 := by
  constructor
  · intro h e he
    exact h e.1 e.2 ((m.mem_entries_iff e.1 e.2).1 he)
  · intro h k a ha
    exact h (k, a) ((m.mem_entries_iff k a).2 ha)

namespace Pool

variable {ρ : Type}

/-- The bytes that its table's file has in the place of a page. They are zeros past the end of the
    file, and there are none if the table is not known. -/
def stored (P : Pool ρ) (p : PageId) : Bytes :=
  match P.tables.get? p.table with
  | none => #[]
  | some f => f.imageOn P.disk p.number

/-- The page is in the file of its table. -/
def Has (P : Pool ρ) (p : PageId) : Prop :=
  ∃ f, P.tables.get? p.table = some f ∧ p.number < f.pagesOn P.disk

/-- Every table is known by its own id and has a file of its own, which is whole. -/
structure Laid (P : Pool ρ) : Prop where
  keyed : ∀ t f, P.tables.get? t = some f → f.table = t
  apart : ∀ t f, P.tables.get? t = some f →
    ∀ u g, P.tables.get? u = some g → f.file = g.file → t = u
  whole : ∀ t f, P.tables.get? t = some f → f.Whole P.disk

/-- Every table has fewer pages than can be counted, so that it can grow by one and still be
    counted. -/
def Bounded (P : Pool ρ) : Prop :=
  ∀ t f, P.tables.get? t = some f → f.pagesOn P.disk < UInt32.size - 1

instance (P : Pool ρ) : Decidable P.Bounded := decidable_of_iff' _ (Assoc.forall_iff _ _)

instance (f : TableFile) (d : Disk) : Decidable (f.Whole d) :=
  inferInstanceAs (Decidable (_ = _))

instance (P : Pool ρ) : Decidable P.Laid :=
  decidable_of_iff
    ((∀ e ∈ P.tables.entries, e.2.table = e.1) ∧
      (∀ e ∈ P.tables.entries, ∀ e' ∈ P.tables.entries, e.2.file = e'.2.file → e.1 = e'.1) ∧
      ∀ e ∈ P.tables.entries, e.2.Whole P.disk) <| by
    simp only [← Assoc.forall_iff P.tables fun _ f => f.Whole P.disk,
      ← Assoc.forall_iff P.tables fun t f => f.table = t,
      ← Assoc.forall_iff P.tables fun t f => ∀ e' ∈ P.tables.entries, f.file = e'.2.file → t = e'.1]
    constructor
    · rintro ⟨hk, ha, hw⟩
      exact ⟨hk, fun t f hf u g hg => ha t f hf (u, g) ((P.tables.mem_entries_iff u g).2 hg), hw⟩
    · intro h
      exact ⟨h.keyed, fun t f hf e he =>
        h.apart t f hf e.1 e.2 ((P.tables.mem_entries_iff e.1 e.2).1 he), h.whole⟩

/-- A table that can be counted has as many pages as are counted. -/
theorem Bounded.pageCount_eq {P : Pool ρ} (hb : P.Bounded) {t : TableId} {f : TableFile}
    (hf : P.tables.get? t = some f) : f.pageCount P.disk = f.pagesOn P.disk :=
  Nat.mod_eq_of_lt (Nat.lt_of_lt_of_le (hb t f hf) (Nat.sub_le _ _))

theorem stored_of_table {P : Pool ρ} {p : PageId} {f : TableFile}
    (hf : P.tables.get? p.table = some f) : P.stored p = f.imageOn P.disk p.number := by
  unfold stored
  rw [hf]

/-- Past the end of its table a page would be one of zeros. -/
theorem stored_past {P : Pool ρ} (hl : P.Laid) {p : PageId} {f : TableFile}
    (hf : P.tables.get? p.table = some f) (hn : f.pagesOn P.disk ≤ p.number) :
    P.stored p = Array.replicate f.layout.pageSize 0 := by
  rw [stored_of_table hf]
  exact f.imageOn_past (hl.whole _ f hf) hn

/-- What a pool has on disk depends on its tables and its disk only. -/
theorem stored_congr {σ : Type} {P : Pool ρ} {Q : Pool σ} (ht : Q.tables = P.tables)
    (hd : Q.disk = P.disk) : Q.stored = P.stored := by
  funext p
  unfold stored
  rw [ht, hd]

theorem Has.congr {σ : Type} {P : Pool ρ} {Q : Pool σ} {p : PageId} (h : P.Has p)
    (ht : Q.tables = P.tables) (hd : Q.disk = P.disk) : Q.Has p := by
  unfold Has
  rw [ht, hd]
  exact h

theorem Laid.congr {σ : Type} {P : Pool ρ} {Q : Pool σ} (h : P.Laid) (ht : Q.tables = P.tables)
    (hd : Q.disk = P.disk) : Q.Laid := by
  refine ⟨?_, ?_, ?_⟩
  · rw [ht]
    exact h.keyed
  · rw [ht]
    exact h.apart
  · rw [ht, hd]
    exact h.whole

/-- What is loaded is what is stored. -/
theorem loadImage_eq_ok {P : Pool ρ} {p : PageId} {page : Page} (h : P.loadImage p = .ok page) :
    page = ⟨p, P.stored p, none⟩ ∧ P.Has p ∧ P.faults.onRead p = none := by
  unfold loadImage table at h
  cases hf : P.tables.get? p.table with
  | none =>
      simp only [hf, bind, Except.bind] at h
      cases h
  | some f =>
      simp only [hf, bind, Except.bind] at h
      cases hr : P.faults.onRead p with
      | some fault =>
          simp only [hr] at h
          cases h
      | none =>
          simp only [hr] at h
          -- Below the count is inside the file, because no more pages are counted than there are.
          rcases (f.read_ok_iff P.disk p page).1 h with ⟨_, hn, rfl⟩
          refine ⟨?_, ⟨f, hf, Nat.lt_of_lt_of_le hn (f.pageCount_le P.disk)⟩, rfl⟩
          rw [stored_of_table hf]

/-- A page that is there can be loaded, if the pages of its table can be counted and the device
    lets it be read. -/
theorem loadImage_of_has {P : Pool ρ} (hl : P.Laid) (hb : P.Bounded) {p : PageId} (h : P.Has p)
    (hr : P.faults.onRead p = none) : P.loadImage p = .ok ⟨p, P.stored p, none⟩ := by
  rcases h with ⟨f, hf, hn⟩
  have hm := hb.pageCount_eq hf
  have hread : f.read P.disk p = .ok ⟨p, P.stored p, none⟩ := by
    rw [f.read_ok_iff, hm, stored_of_table hf]
    exact ⟨(hl.keyed _ f hf).symm, hn, rfl⟩
  simp only [loadImage, table, hf, bind, Except.bind, hr, hread]

/-! ## Changes to one file -/

section file

variable {P : Pool ρ} (hl : P.Laid) {t : TableId} {f : TableFile}
  (hf : P.tables.get? t = some f)

include hl hf

/-- A change to the file of a table leaves the files of other tables alone. -/
theorem image_put_of_ne (image : FileImage) {u : TableId} {g : TableFile}
    (hg : P.tables.get? u = some g) (hne : u ≠ t) :
    (P.disk.put f.file image).image g.file = P.disk.image g.file :=
  P.disk.image_put_other image fun h => hne (hl.apart u g hg t f hf h)

theorem stored_put_of_ne (image : FileImage) {p : PageId} (hne : p.table ≠ t) :
    stored { P with disk := P.disk.put f.file image } p = P.stored p := by
  unfold stored
  simp only
  cases hg : P.tables.get? p.table with
  | none => rfl
  | some g => exact g.imageOn_congr (image_put_of_ne hl hf image hg hne) _

theorem laid_put (image : FileImage) (hw : f.Whole (P.disk.put f.file image)) :
    Laid { P with disk := P.disk.put f.file image } where
  keyed := hl.keyed
  apart := hl.apart
  whole := by
    intro u g hg
    by_cases hu : u = t
    · subst hu
      have hgf : g = f := Option.some.inj (hg.symm.trans hf)
      rw [hgf]
      exact hw
    · exact (g.whole_congr (image_put_of_ne hl hf image hg hu)).2 (hl.whole u g hg)

/-- A change that takes no page from the file of one table takes none from any table. -/
theorem pagesOn_put (image : FileImage)
    (hn : f.pagesOn P.disk ≤ f.pagesOn (P.disk.put f.file image)) {u : TableId} {g : TableFile}
    (hg : P.tables.get? u = some g) :
    g.pagesOn P.disk ≤ g.pagesOn (P.disk.put f.file image) := by
  by_cases hu : u = t
  · subst hu
    have hgf : g = f := Option.some.inj (hg.symm.trans hf)
    rw [hgf]
    exact hn
  · exact Nat.le_of_eq (g.pagesOn_congr (image_put_of_ne hl hf image hg hu)).symm

/-- A page that is written has its bytes, and every other page of every table keeps its own. -/
theorem stored_written {n : Nat} {bytes : Bytes} (hs : bytes.size = f.layout.pageSize)
    (p : PageId) :
    stored { P with disk := f.written P.disk n bytes } p =
      if p = ⟨t, n⟩ then bytes else P.stored p := by
  rcases p with ⟨u, m⟩
  by_cases hu : u = t
  · subst hu
    -- In the table itself the place decides. Other tables have other files.
    have hf' : (Pool.tables { P with disk := f.written P.disk n bytes }).get? u = some f := hf
    rw [stored_of_table hf, stored_of_table hf', f.imageOn_written hs]
    by_cases hm : m = n
    · rw [hm, if_pos rfl, if_pos rfl]
    · have hne : (⟨u, m⟩ : PageId) ≠ ⟨u, n⟩ := fun h => hm (PageId.mk.inj h).2
      rw [if_neg hm, if_neg hne]
  · have hne : (⟨u, m⟩ : PageId) ≠ ⟨t, n⟩ := fun h => hu (PageId.mk.inj h).1
    rw [if_neg hne]
    exact stored_put_of_ne hl hf _ hu

theorem laid_written {n : Nat} {bytes : Bytes} (hn : n < f.pagesOn P.disk)
    (hs : bytes.size = f.layout.pageSize) :
    Laid { P with disk := f.written P.disk n bytes } := by
  apply laid_put hl hf
  have hw := hl.whole t f hf
  unfold TableFile.Whole at hw
  rw [← f.size_image_written hn hs, ← f.pagesOn_written hn hs] at hw
  exact hw

/-- An appended page is one of zeros, so it has the bytes that were in its place before, and every
    other page of every table keeps its own. -/
theorem stored_grown : stored { P with disk := f.grown P.disk } = P.stored := by
  funext p
  rcases p with ⟨u, m⟩
  by_cases hu : u = t
  · subst hu
    -- A page that was there is as before, and the new one takes the place of zeros.
    have hf' : (Pool.tables { P with disk := f.grown P.disk }).get? u = some f := hf
    rw [stored_of_table hf, stored_of_table hf']
    exact f.imageOn_grown (hl.whole u f hf) m
  · exact stored_put_of_ne hl hf _ hu

theorem laid_grown : Laid { P with disk := f.grown P.disk } := laid_put hl hf _ f.whole_grown

end file

end Pool

end RowStore
