import RowStore.Proofs.PageImage

/-!
# Writing Pages of Any File

What writing a page does to a file of any length, and why two writes can change places.

Others may have cut a file in the middle of a page, or extended it. A page of such a
file is written all the same. If it begins inside the file it is written where it is,
and where the file ends too early it becomes longer. If it begins past the end, the
file is first made longer up to the end of the page, with zeros in between, and that is
refused if the file would become too long.

Two writes to one file meet in its length. Each makes it at least as long as to the end
of its page, so in either order it ends at the page that lies further on. The limit
stands in the way of that page and not of the other, and it does so whether the other
page was written before or not.

A file keeps runs of bytes in the order in which they were written. So disks are
compared here by what can be read from them.

## Main definitions

* `FileImage.Same`, `Disk.Same`: Files and disks that cannot be told apart by reading.
* `PageFile.Wrote`: A page was written, and nothing else has changed.
* `TableFile.Writable`: A copy can be written.
* `TableFile.Wrote`: A copy was written, and nothing else has changed.
* `TableFile.Clear`: Two copies are of pages in different places.

## Theorems

* `PageFile.write_cases`: The three things that can become of a write.
* `TableFile.write_ok_iff`, `TableFile.wrote_of_write`: When a write succeeds, and what it does.
* `TableFile.write_congr`, `TableFile.read_same`: Disks that are the same are written and read alike.
* `TableFile.write_swap`: Two writes in different places can change places.
-/

namespace RowStore

/-! ## Files that are the same -/

namespace FileImage

/-- Two files have the same length and the same bytes. -/
structure Same (f g : FileImage) : Prop where
  size : g.size = f.size
  byte : ∀ i, g.byte i = f.byte i

theorem Same.refl (f : FileImage) : f.Same f := ⟨rfl, fun _ => rfl⟩

theorem Same.symm {f g : FileImage} (h : f.Same g) : g.Same f :=
  ⟨h.size.symm, fun i => (h.byte i).symm⟩

theorem Same.trans {f g k : FileImage} (h : f.Same g) (h' : g.Same k) : f.Same k :=
  ⟨h'.size.trans h.size, fun i => (h'.byte i).trans (h.byte i)⟩

theorem Same.read {f g : FileImage} (h : f.Same g) (start count : Nat) :
    g.read start count = f.read start count :=
  read_congr _ _ _ _ _ fun i _ => h.byte (start + i)

theorem byte_write_congr {f g : FileImage} (h : ∀ i, g.byte i = f.byte i) (start : Nat)
    (run : Bytes) (i : Nat) : (g.write start run).byte i = (f.write start run).byte i := by
  rw [byte_write, byte_write, h]

/-- Of two runs that do not overlap it does not matter which is written first. -/
theorem byte_write_swap (f : FileImage) {a b : Nat} {x y : Bytes}
    (h : a + x.size ≤ b ∨ b + y.size ≤ a) (i : Nat) :
    ((f.write a x).write b y).byte i = ((f.write b y).write a x).byte i := by
  simp only [byte_write]
  by_cases hx : a ≤ i ∧ i < a + x.size
  · -- The offset is in the first run, so it is not in the second.
    have hy : b ≤ i → y[i - b]? = none := fun hb => Array.getElem?_eq_none (by omega)
    have hlt : i - a < x.size := by omega
    simp only [if_pos hx.1, Array.getElem?_eq_getElem hlt, Option.getD_some]
    split
    · rename_i hb
      rw [hy hb, Option.getD_none]
    · rfl
  · have hn : a ≤ i → x[i - a]? = none := fun ha => Array.getElem?_eq_none (by omega)
    by_cases ha : a ≤ i
    · simp only [if_pos ha, hn ha, Option.getD_none]
    · simp only [if_neg ha]

end FileImage

namespace Disk

/-- Two disks allow files of the same length, and have the same files. -/
structure Same (d e : Disk) : Prop where
  limit : e.limit = d.limit
  image : ∀ n, (d.image n).Same (e.image n)

theorem Same.refl (d : Disk) : d.Same d := ⟨rfl, fun _ => .refl _⟩

theorem Same.symm {d e : Disk} (h : d.Same e) : e.Same d := ⟨h.limit.symm, fun n => (h.image n).symm⟩

theorem Same.trans {d e k : Disk} (h : d.Same e) (h' : e.Same k) : d.Same k :=
  ⟨h'.limit.trans h.limit, fun n => (h.image n).trans (h'.image n)⟩

end Disk

/-! ## One write -/

namespace PageFile

variable (m : PageFile)

/-- A page was written to its place in the file, which has become longer if it ended before the end
    of the page. Nothing else has changed. -/
structure Wrote (n : Nat) (bytes : Bytes) (d d' : Disk) : Prop where
  limit : d'.limit = d.limit
  others : ∀ k, k ≠ m.file → d'.image k = d.image k
  size : (d'.image m.file).size = max (d.image m.file).size (n * m.pageSize + m.pageSize)
  byte : ∀ i, (d'.image m.file).byte i = ((d.image m.file).write (n * m.pageSize) bytes).byte i

theorem reach_eq (d : Disk) (n : Nat) :
    m.reach d n =
      if (d.image m.file).size ≤ n * m.pageSize then
        if n * m.pageSize + m.pageSize ≤ d.limit then
          .ok (d.put m.file ((d.image m.file).resize (n * m.pageSize + m.pageSize)))
        else .error (.io .invalidInput)
      else .ok d := by
  unfold reach setSize Disk.setSize
  by_cases hpast : (d.image m.file).size ≤ n * m.pageSize
  · rw [if_pos hpast]
    refine (if_pos hpast).trans ?_
    by_cases hroom : n * m.pageSize + m.pageSize ≤ d.limit
    · rw [if_pos hroom]
      exact congrArg _ (if_pos hroom)
    · rw [if_neg hroom]
      exact congrArg _ (if_neg hroom)
  · rw [if_neg hpast]
    exact if_neg hpast

/-- Making room for a page changes nothing that can be read, and not what the length of the file
    will be with the page. -/
theorem reach_ok {d : Disk} {n : Nat}
    (hroom : (d.image m.file).size ≤ n * m.pageSize → n * m.pageSize + m.pageSize ≤ d.limit) :
    ∃ d', m.reach d n = .ok d' ∧ d'.limit = d.limit ∧
      (∀ k, k ≠ m.file → d'.image k = d.image k) ∧
      max (d'.image m.file).size (n * m.pageSize + m.pageSize) =
        max (d.image m.file).size (n * m.pageSize + m.pageSize) ∧
      ∀ i, (d'.image m.file).byte i = (d.image m.file).byte i := by
  rw [m.reach_eq]
  by_cases hpast : (d.image m.file).size ≤ n * m.pageSize
  · rw [if_pos hpast, if_pos (hroom hpast)]
    refine ⟨_, rfl, rfl, fun k hk => Disk.image_put_other _ _ hk, ?_, fun i => ?_⟩
    · rw [Disk.image_put_self, FileImage.size_resize]
      omega
    · -- What the file is made longer by is zeros, as is what is read past its end.
      rw [Disk.image_put_self, FileImage.byte_resize]
      split
      · rfl
      · exact (FileImage.byte_past _ _ (by omega)).symm
  · rw [if_neg hpast]
    exact ⟨d, rfl, rfl, fun _ _ => rfl, rfl, fun _ => rfl⟩

theorem reach_error {d : Disk} {n : Nat} (hpast : (d.image m.file).size ≤ n * m.pageSize)
    (hroom : d.limit < n * m.pageSize + m.pageSize) :
    m.reach d n = .error (.io .invalidInput) := by
  rw [m.reach_eq, if_pos hpast, if_neg (Nat.not_le_of_lt hroom)]

/-- A buffer of another length is refused, and so is a page past the end of the file for which the
    file would have to be too long. Any other write succeeds. -/
theorem write_cases (hpos : 0 < m.pageSize) (d : Disk) (n : Nat) (bytes : Bytes) :
    (bytes.size ≠ m.pageSize ∧
      m.write d n bytes = .error (.invalidArgument (.bufferLength m.pageSize bytes.size))) ∨
    (bytes.size = m.pageSize ∧ (d.image m.file).size ≤ n * m.pageSize ∧
      d.limit < n * m.pageSize + m.pageSize ∧ m.write d n bytes = .error (.io .invalidInput)) ∨
    (bytes.size = m.pageSize ∧
      ((d.image m.file).size ≤ n * m.pageSize → n * m.pageSize + m.pageSize ≤ d.limit) ∧
      ∃ d', m.write d n bytes = .ok d' ∧ m.Wrote n bytes d d') := by
  simp only [write, bind, Except.bind]
  by_cases hs : bytes.size = m.pageSize
  · have hb : m.checkBuffer bytes.size = .ok () := if_pos hs
    simp only [hb]
    by_cases hroom : (d.image m.file).size ≤ n * m.pageSize →
        n * m.pageSize + m.pageSize ≤ d.limit
    · rcases m.reach_ok hroom with ⟨d₁, hr, hlimit, hothers, hsize, hbyte⟩
      rw [hr]
      refine Or.inr (Or.inr ⟨hs, hroom, _, rfl, hlimit, fun k hk => ?_, ?_, fun i => ?_⟩)
      · exact (Disk.image_put_other _ _ hk).trans (hothers k hk)
      · simp only [offset, Disk.image_put_self, FileImage.size_write, hs]
        rw [if_neg (Nat.ne_of_gt hpos), hsize]
      · simp only [offset, Disk.image_put_self]
        exact FileImage.byte_write_congr hbyte _ _ i
    · rcases Classical.not_imp.1 hroom with ⟨hpast, hlimit⟩
      have hlt := Nat.lt_of_not_le hlimit
      rw [m.reach_error hpast hlt]
      exact Or.inr (Or.inl ⟨hs, hpast, hlt, rfl⟩)
  · have hb : m.checkBuffer bytes.size =
        .error (.invalidArgument (.bufferLength m.pageSize bytes.size)) := if_neg hs
    rw [hb]
    exact Or.inl ⟨hs, rfl⟩

end PageFile

namespace TableFile

/-- A copy is of a page of the table and as long as its pages, and if the file has to be made longer
    for it then not too long. -/
structure Writable (f : TableFile) (d : Disk) (page : Page) : Prop where
  own : page.id.table = f.table
  whole : page.bytes.size = f.layout.pageSize
  room : (d.image f.file).size ≤ page.id.number * f.layout.pageSize →
    page.id.number * f.layout.pageSize + f.layout.pageSize ≤ d.limit

/-- A copy was written to its place in the file, which has become longer if it ended before the end
    of the page. Nothing else has changed. -/
structure Wrote (f : TableFile) (page : Page) (d d' : Disk) : Prop where
  limit : d'.limit = d.limit
  others : ∀ n, n ≠ f.file → d'.image n = d.image n
  size : (d'.image f.file).size =
    max (d.image f.file).size (page.id.number * f.layout.pageSize + f.layout.pageSize)
  byte : ∀ i, (d'.image f.file).byte i =
    ((d.image f.file).write (page.id.number * f.layout.pageSize) page.bytes).byte i

/-- Two copies are of pages in different places: in files of different tables, or in different
    places of one file. -/
def Clear (f g : TableFile) (page other : Page) : Prop :=
  f.file ≠ g.file ∨ g = f ∧ other.id.number ≠ page.id.number

/-- A write succeeds if the copy can be written, and does nothing but what it is asked for. -/
theorem write_cases (f : TableFile) (d : Disk) (page : Page) :
    (f.Writable d page ∧ ∃ d', f.write d page = .ok d' ∧ f.Wrote page d d') ∨
    (¬ f.Writable d page ∧ ∃ e, f.write d page = .error e) := by
  -- The table is checked first, and then the file of pages makes its own checks.
  by_cases hown : page.id.table = f.table
  · have hcheck : f.checkPage page.id = .ok () := if_pos hown
    simp only [write, hcheck, bind, Except.bind]
    rcases f.pages.write_cases f.layout.pageSize_pos d page.id.number page.bytes with
      ⟨hs, hw⟩ | ⟨_, hpast, hlimit, hw⟩ | ⟨hs, hroom, d', hw, hd⟩
    · exact Or.inr ⟨fun h => hs h.whole, _, hw⟩
    · exact Or.inr ⟨fun h => Nat.not_le_of_lt hlimit (h.room hpast), _, hw⟩
    · exact Or.inl ⟨⟨hown, hs, hroom⟩, d', hw, hd.limit, hd.others, hd.size, hd.byte⟩
  · have hcheck : f.checkPage page.id = .error (.invalidArgument (.foreignPage page.id f.table)) :=
      if_neg hown
    simp only [write, hcheck, bind, Except.bind]
    exact Or.inr ⟨fun h => hown h.own, _, rfl⟩

theorem write_ok_iff (f : TableFile) (d : Disk) (page : Page) :
    (∃ d', f.write d page = .ok d') ↔ f.Writable d page := by
  rcases f.write_cases d page with ⟨hw, d', heq, _⟩ | ⟨hn, e, heq⟩
  · exact ⟨fun _ => hw, fun _ => ⟨d', heq⟩⟩
  · refine ⟨fun ⟨d', h⟩ => ?_, fun h => absurd h hn⟩
    cases heq.symm.trans h

theorem wrote_of_write {f : TableFile} {d d' : Disk} {page : Page} (h : f.write d page = .ok d') :
    f.Writable d page ∧ f.Wrote page d d' := by
  rcases f.write_cases d page with ⟨hw, e, heq, hwrote⟩ | ⟨_, e, heq⟩
  · cases heq.symm.trans h
    exact ⟨hw, hwrote⟩
  · cases heq.symm.trans h

section Wrote

variable {f : TableFile} {page : Page} {d d' : Disk} (h : f.Wrote page d d')

include h

/-- No file becomes shorter. -/
theorem Wrote.size_le (n : FileNo) : (d.image n).size ≤ (d'.image n).size := by
  by_cases hn : n = f.file
  · rw [hn, h.size]
    exact Nat.le_max_left _ _
  · exact Nat.le_of_eq (congrArg _ (h.others n hn)).symm

/-- What was written is there. -/
theorem Wrote.imageOn_self (hs : page.bytes.size = f.layout.pageSize) :
    f.imageOn d' page.id.number = page.bytes := by
  have hread : f.imageOn d' page.id.number =
      ((d.image f.file).write (page.id.number * f.layout.pageSize) page.bytes).read
        (page.id.number * f.layout.pageSize) page.bytes.size := by
    unfold imageOn
    rw [hs]
    exact FileImage.read_congr _ _ _ _ _ fun i _ => h.byte _
  rw [hread, FileImage.read_write_self]

theorem Wrote.lt_pagesOn (hpos : 0 < f.layout.pageSize) : page.id.number < f.pagesOn d' := by
  unfold pagesOn
  rw [Nat.lt_div_iff_mul_lt hpos, h.size]
  omega

/-- What is in another place stays. -/
theorem Wrote.imageOn_clear {g : TableFile} {other : Page} (hc : f.Clear g page other)
    (hs : page.bytes.size = f.layout.pageSize) :
    g.imageOn d' other.id.number = g.imageOn d other.id.number := by
  rcases hc with hne | ⟨rfl, hne⟩
  · exact g.imageOn_congr (h.others _ (Ne.symm hne)) _
  · unfold imageOn
    rw [← FileImage.read_write_other (d.image g.file) (page.id.number * g.layout.pageSize) page.bytes]
    · exact FileImage.read_congr _ _ _ _ _ fun i _ => h.byte _
    · rw [hs]
      exact apart_of_ne hne

end Wrote

/-! ## Disks that are the same -/

section Same

variable {d e : Disk} (h : d.Same e)

include h

theorem read_same (f : TableFile) (p : PageId) : f.read e p = f.read d p := by
  have hc : f.pages.count e = f.pages.count d := by
    simp only [PageFile.count, PageFile.pageCount, (h.image _).size]
  simp only [read, PageFile.read, hc, (h.image _).read]

theorem writable_same {f : TableFile} {page : Page} (hw : f.Writable d page) :
    f.Writable e page where
  own := hw.own
  whole := hw.whole
  room hpast := by
    rw [h.limit]
    rw [(h.image _).size] at hpast
    exact hw.room hpast

theorem wrote_same {f : TableFile} {page : Page} {d' e' : Disk} (hd : f.Wrote page d d')
    (he : f.Wrote page e e') : d'.Same e' where
  limit := by rw [he.limit, hd.limit, h.limit]
  image n := by
    by_cases hn : n = f.file
    · subst hn
      refine ⟨by rw [he.size, hd.size, (h.image _).size], fun i => ?_⟩
      rw [he.byte, hd.byte]
      exact FileImage.byte_write_congr (h.image _).byte _ _ i
    · rw [he.others n hn, hd.others n hn]
      exact h.image n

/-- A copy that can be written to one disk can be written to another that is the same, and then they
    are the same again. -/
theorem write_congr {f : TableFile} {page : Page} {d' : Disk} (hd : f.write d page = .ok d') :
    ∃ e', f.write e page = .ok e' ∧ d'.Same e' := by
  rcases wrote_of_write hd with ⟨hw, hwrote⟩
  rcases (f.write_ok_iff e page).2 (writable_same h hw) with ⟨e', he⟩
  exact ⟨e', he, wrote_same h hwrote (wrote_of_write he).2⟩

end Same

/-! ## Two writes -/

section Clear

variable {f g : TableFile} {page other : Page} (hc : f.Clear g page other)

include hc

/-- A copy that can be written after another can be written before it. -/
theorem writable_before {d d' : Disk} (hp : f.Writable d page) (hwrote : f.Wrote page d d')
    (hq : g.Writable d' other) : g.Writable d other := by
  refine ⟨hq.own, hq.whole, fun hpast => ?_⟩
  rcases hc with hne | ⟨rfl, hne⟩
  · rw [← hwrote.limit]
    rw [← hwrote.others _ (Ne.symm hne)] at hpast
    exact hq.room hpast
  · have hapart := @apart_of_ne _ _ g.layout.pageSize hne
    have hroom := hp.room
    have hroom' := hq.room
    rw [hwrote.size, hwrote.limit] at hroom'
    -- The limit can stand in the way only of the page that lies further on.
    omega

omit hc in
/-- Nothing that can be written stands in the way of another copy. -/
theorem writable_after {d d' : Disk} (hp : f.Writable d page) (hwrote : g.Wrote other d d') :
    f.Writable d' page := by
  refine ⟨hp.own, hp.whole, fun hpast => ?_⟩
  rw [hwrote.limit]
  refine hp.room (Nat.le_trans (hwrote.size_le _) hpast)

theorem same_swap {d d₁ d₂ e₁ e₂ : Disk} (hs : page.bytes.size = f.layout.pageSize)
    (hs' : other.bytes.size = g.layout.pageSize) (hd₁ : f.Wrote page d d₁)
    (hd₂ : g.Wrote other d₁ d₂) (he₁ : g.Wrote other d e₁) (he₂ : f.Wrote page e₁ e₂) :
    d₂.Same e₂ where
  limit := by rw [he₂.limit, he₁.limit, hd₂.limit, hd₁.limit]
  image n := by
    rcases hc with hne | ⟨rfl, hne⟩
    · by_cases hf : n = f.file
      · subst hf
        refine ⟨?_, fun i => ?_⟩
        · rw [he₂.size, he₁.others _ hne, hd₂.others _ hne, hd₁.size]
        · rw [he₂.byte, he₁.others _ hne, hd₂.others _ hne, hd₁.byte]
      · by_cases hg : n = g.file
        · subst hg
          refine ⟨?_, fun i => ?_⟩
          · rw [he₂.others _ hf, he₁.size, hd₂.size, hd₁.others _ hf]
          · rw [he₂.others _ hf, he₁.byte, hd₂.byte, hd₁.others _ hf]
        · rw [he₂.others _ hf, he₁.others _ hg, hd₂.others _ hg, hd₁.others _ hf]
          exact .refl _
    · by_cases hg : n = g.file
      · subst hg
        refine ⟨?_, fun i => ?_⟩
        · rw [he₂.size, he₁.size, hd₂.size, hd₁.size]
          omega
        · rw [he₂.byte, hd₂.byte, FileImage.byte_write_congr he₁.byte,
            FileImage.byte_write_congr hd₁.byte]
          refine (FileImage.byte_write_swap _ ?_ i).symm
          rw [hs, hs', or_comm]
          exact apart_of_ne hne
      · rw [he₂.others _ hg, he₁.others _ hg, hd₂.others _ hg, hd₁.others _ hg]
        exact .refl _

/-- Two writes in different places can change places. -/
theorem write_swap {d d₁ d₂ : Disk} (hp : f.write d page = .ok d₁)
    (hq : g.write d₁ other = .ok d₂) :
    ∃ e₁ e₂, g.write d other = .ok e₁ ∧ f.write e₁ page = .ok e₂ ∧ d₂.Same e₂ := by
  rcases wrote_of_write hp with ⟨hw, hd₁⟩
  rcases wrote_of_write hq with ⟨hw', hd₂⟩
  rcases (g.write_ok_iff d other).2 (writable_before hc hw hd₁ hw') with ⟨e₁, he₁⟩
  have hwrote := (wrote_of_write he₁).2
  rcases (f.write_ok_iff e₁ page).2 (writable_after hw hwrote) with ⟨e₂, he₂⟩
  exact ⟨e₁, e₂, he₁, he₂, same_swap hc hw.whole hw'.whole hd₁ hd₂ hwrote (wrote_of_write he₂).2⟩

end Clear

end TableFile

end RowStore
