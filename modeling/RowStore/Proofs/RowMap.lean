import RowStore.Proofs.Scan
import RowStore.Proofs.SlotRows

/-!
# A Table as a Map

The rows of all tables as a map from places to rows, and insertions and deletions as
updates of that map.

An array of pages is read as such a map page by page. What is done to the pages can
then be told twice, as accesses to pages and as operations on rows. The two go
together if on every array on which the accesses can be replayed the operations are
possible, and come to the map of the array that is left. Told like this they can be
put one after the other, and nothing has to be known of the array.

A scan lists the places of the map that have a row. A list of that kind is longer by
one after an insertion that was possible, and shorter by one after such a deletion.

## Main definitions

* `rowAt?`: The row at a place, by an array of pages.
* `RowOp`: The insertion of a row, or a deletion.
* `RowOp.after`, `RowOp.Replays`: A list of operations as a program for a map.
* `Tells`: Operations on rows tell the same as accesses to pages.
* `Lists`: The places of a table that have a row, each once.
* `TableFile.placesOf`: The places of the rows that a scan finds.

## Theorems

* `Tells.append`: What is told in parts.
* `tells_insert`, `tells_delete`: What the work on a page is as an operation on rows.
* `length_lists`: The number of rows, from the operations.
* `mem_rowsOf_stored`, `nodup_rowsOf`, `lists_stored`: What a scan finds is the map.
-/

namespace RowStore

/-- The row at a place, by an array of pages. -/
def rowAt? (tables : Assoc TableId TableFile) (A : PageId → Bytes) (r : RowId) : Option Bytes :=
  (tables.get? r.page.table).bind fun f => SlotPage.get? f.layout (A r.page) r.slot

/-- The insertion of a row at a place, or the deletion of the row at a place. -/
inductive RowOp
  | insert (place : RowId) (row : Bytes)
  | delete (place : RowId)
  deriving DecidableEq, Repr

namespace RowOp

def place : RowOp → RowId
  | insert r _ | delete r => r

/-- What is at the place afterwards. -/
def row? : RowOp → Option Bytes
  | insert _ row => some row
  | delete _ => none

/-- A row is inserted where there is none, and deleted where there is one. -/
def Possible (M : RowId → Option Bytes) : RowOp → Prop
  | insert r _ => M r = none
  | delete r => M r ≠ none

/-- The map after an operation. -/
def apply (M : RowId → Option Bytes) (op : RowOp) : RowId → Option Bytes :=
  fun r => if r = op.place then op.row? else M r

/-- The map after some operations. -/
def after (M : RowId → Option Bytes) : List RowOp → RowId → Option Bytes
  | [] => M
  | op :: rest => after (op.apply M) rest

/-- Every one of some operations is possible at its turn. -/
def Replays (M : RowId → Option Bytes) : List RowOp → Prop
  | [] => True
  | op :: rest => op.Possible M ∧ Replays (op.apply M) rest

theorem after_append (M : RowId → Option Bytes) (l l' : List RowOp) :
    after M (l ++ l') = after (after M l) l' := by
  induction l generalizing M with
  | nil => rfl
  | cons op rest ih => exact ih (op.apply M)

theorem replays_append (M : RowId → Option Bytes) (l l' : List RowOp) :
    Replays M (l ++ l') ↔ Replays M l ∧ Replays (after M l) l' := by
  induction l generalizing M with
  | nil => simp only [List.nil_append, Replays, after, true_and]
  | cons op rest ih => simp only [List.cons_append, Replays, after, ih, and_assoc]

/-- How many rows of a table some operations insert. -/
def inserted (t : TableId) (ops : List RowOp) : Nat :=
  ops.countP fun op => op.place.page.table = t && op.row?.isSome

/-- How many rows of a table some operations delete. -/
def deleted (t : TableId) (ops : List RowOp) : Nat :=
  ops.countP fun op => op.place.page.table = t && op.row?.isNone

end RowOp

/-! ## Accesses and operations -/

/-- Operations on rows tell the same as accesses to pages: where the accesses can be replayed the
    operations can, and they leave the same rows. -/
def Tells (tables : Assoc TableId TableFile) (ops : List PageOp) (rows : List RowOp) : Prop :=
  ∀ A, PageOp.Replays A ops → RowOp.Replays (rowAt? tables A) rows ∧
    rowAt? tables (PageOp.after A ops) = RowOp.after (rowAt? tables A) rows

section Tells

variable {tables : Assoc TableId TableFile}

theorem Tells.nil : Tells tables [] [] := fun _ _ => ⟨trivial, rfl⟩

/-- A read tells nothing of rows. -/
theorem Tells.read (p : PageId) (seen : Bytes) : Tells tables [.read p seen] [] :=
  fun _ _ => ⟨trivial, rfl⟩

theorem Tells.append {ops ops' : List PageOp} {rows rows' : List RowOp}
    (h : Tells tables ops rows) (h' : Tells tables ops' rows') :
    Tells tables (ops ++ ops') (rows ++ rows') := by
  intro A hA
  rw [PageOp.replays_append] at hA
  rcases h A hA.1 with ⟨hr, ha⟩
  rcases h' _ hA.2 with ⟨hr', ha'⟩
  rw [ha] at hr' ha'
  rw [RowOp.replays_append, PageOp.after_append, RowOp.after_append]
  exact ⟨⟨hr, hr'⟩, ha'⟩

/-- A page is read and replaced by one whose map differs at one slot. -/
theorem tells_update {f : TableFile} {p : PageId} (hf : tables.get? p.table = some f)
    {b b' : Bytes} {slot : Nat} {op : RowOp} (hplace : op.place = ⟨p, slot⟩)
    (hpossible : ∀ M : RowId → Option Bytes, M ⟨p, slot⟩ = SlotPage.get? f.layout b slot →
      op.Possible M)
    (hmap : ∀ s, SlotPage.get? f.layout b' s =
      if s = slot then op.row? else SlotPage.get? f.layout b s) :
    Tells tables [.read p b, .write p b'] [op] := by
  rintro A ⟨rfl, -⟩
  refine ⟨⟨hpossible _ (by simp only [rowAt?, hf, Option.bind_some]), trivial⟩, ?_⟩
  funext r
  simp only [PageOp.after, RowOp.after, RowOp.apply, hplace, rowAt?, PageOp.put]
  by_cases hp : r.page = p
  · -- On the page, only the one slot is different.
    rw [if_pos hp, hp, hf, Option.bind_some, Option.bind_some, hmap]
    by_cases hs : r.slot = slot
    · rw [if_pos hs, if_pos (by rw [← hp, ← hs])]
    · rw [if_neg hs, if_neg (by rintro rfl; exact hs rfl)]
  · rw [if_neg hp, if_neg (by rintro rfl; exact hp rfl)]

/-- What an insertion does to its page. -/
theorem tells_insert {f : TableFile} {p : PageId} (hf : tables.get? p.table = some f)
    {row b b' : Bytes} {slot : Nat} (h : Task.rowIn f.layout row b = .ok (slot, b')) :
    Tells tables [.read p b, .write p b'] [.insert ⟨p, slot⟩ row] := by
  rcases Task.rowIn_eq_ok h with ⟨hsize, hin⟩
  rcases SlotPage.get?_insert hsize hin with ⟨hfree, hmap⟩
  exact tells_update hf rfl (fun M hM => hM.trans hfree) hmap

/-- What a deletion does to its page. -/
theorem tells_delete {f : TableFile} {p : PageId} (hf : tables.get? p.table = some f)
    {b b' : Bytes} {slot : Nat} (h : Task.rowOut f.layout slot b = .ok ((), b')) :
    Tells tables [.read p b, .write p b'] [.delete ⟨p, slot⟩] := by
  rcases Task.rowOut_eq_ok h with ⟨hsize, hout⟩
  rcases SlotPage.get?_delete hsize hout with ⟨⟨row, hlive⟩, hmap⟩
  refine tells_update hf rfl (fun M hM => ?_) hmap
  rw [RowOp.Possible, hM, hlive]
  exact Option.some_ne_none _

end Tells

/-! ## How many rows -/

/-- The places of a table that have a row, each once. -/
structure Lists (M : RowId → Option Bytes) (t : TableId) (places : List RowId) : Prop where
  nodup : places.Nodup
  mem : ∀ r, r ∈ places ↔ r.page.table = t ∧ M r ≠ none

/-- An operation that is possible makes the list longer or shorter by one, if it is on the table. -/
theorem lists_apply {M : RowId → Option Bytes} {t : TableId} {places : List RowId}
    (hl : Lists M t places) {op : RowOp} (hop : op.Possible M) :
    ∃ places', Lists (op.apply M) t places' ∧
      places'.length + RowOp.deleted t [op] = places.length + RowOp.inserted t [op] := by
  by_cases ht : op.place.page.table = t
  · cases op with
    | insert r row =>
        have hnot : r ∉ places := fun hm => ((hl.mem r).1 hm).2 hop
        refine ⟨r :: places, ⟨List.nodup_cons.2 ⟨hnot, hl.nodup⟩, fun q => ?_⟩, ?_⟩
        · rw [List.mem_cons, hl.mem]
          by_cases hq : q = r
          · subst hq
            have htable : q.page.table = t := ht
            simp [RowOp.apply, RowOp.place, RowOp.row?, htable]
          · simp [RowOp.apply, RowOp.place, hq]
        · simp [RowOp.inserted, RowOp.deleted, RowOp.row?, ht]
    | delete r =>
        have hm : r ∈ places := (hl.mem r).2 ⟨ht, hop⟩
        refine ⟨places.erase r, ⟨hl.nodup.erase r, fun q => ?_⟩, ?_⟩
        · rw [hl.nodup.mem_erase_iff, hl.mem]
          by_cases hq : q = r
          · simp [RowOp.apply, RowOp.place, RowOp.row?, hq]
          · simp [RowOp.apply, RowOp.place, hq]
        · have hlen := List.length_erase_add_one hm
          simp [RowOp.inserted, RowOp.deleted, RowOp.row?, ht]
          omega
  · -- The table is another one, of which nothing has changed.
    refine ⟨places, ⟨hl.nodup, fun q => ?_⟩, by simp [RowOp.inserted, RowOp.deleted, ht]⟩
    rw [hl.mem]
    by_cases hq : q = op.place
    · rw [hq]
      simp only [ht, false_and]
    · simp only [RowOp.apply, if_neg hq]

/-- The number of rows of a table after some operations, each possible at its turn. -/
theorem length_lists {M : RowId → Option Bytes} {t : TableId} {ops : List RowOp}
    {places places' : List RowId} (hl : Lists M t places)
    (hl' : Lists (RowOp.after M ops) t places') (hr : RowOp.Replays M ops) :
    places'.length + RowOp.deleted t ops = places.length + RowOp.inserted t ops := by
  induction ops generalizing M places with
  | nil =>
      -- Both list the same places.
      have hperm : places'.Perm places :=
        (List.perm_ext_iff_of_nodup hl'.nodup hl.nodup).2 fun r => (hl'.mem r).trans (hl.mem r).symm
      rw [hperm.length_eq]
      rfl
  | cons op rest ih =>
      rcases lists_apply hl hr.1 with ⟨mid, hmid, hone⟩
      have hrest := ih hmid hl' hr.2
      have hcount : RowOp.deleted t (op :: rest) = RowOp.deleted t [op] + RowOp.deleted t rest ∧
          RowOp.inserted t (op :: rest) = RowOp.inserted t [op] + RowOp.inserted t rest :=
        ⟨@List.countP_append _ _ [op] rest, @List.countP_append _ _ [op] rest⟩
      omega

/-! ## What a scan lists -/

theorem mem_pageRows {layout : Layout} {p : PageId} {b : Bytes} {row : Row} :
    row ∈ pageRows layout p b ↔
      ∃ s, row.place = some ⟨p, s⟩ ∧ SlotPage.get? layout b s = some row.bytes := by
  unfold pageRows
  rw [List.mem_map]
  constructor
  · rintro ⟨⟨s, bytes⟩, hm, rfl⟩
    exact ⟨s, rfl, (SlotPage.mem_rows b s bytes).1 hm⟩
  · rintro ⟨s, hs, hget⟩
    refine ⟨(s, row.bytes), (SlotPage.mem_rows b s row.bytes).2 hget, ?_⟩
    rw [← hs]

theorem nodup_pageRows (layout : Layout) (p : PageId) (b : Bytes) :
    ((pageRows layout p b).map Row.place).Nodup := by
  have hplaces : (pageRows layout p b).map Row.place =
      ((SlotPage.rows layout b).map Prod.fst).map fun s => some ⟨p, s⟩ := by
    simp only [pageRows, List.map_map, Function.comp_def]
  rw [hplaces]
  refine (SlotPage.nodup_rows b).map fun s s' h => ?_
  cases h
  rfl

section rowsOf

variable {tables : Assoc TableId TableFile} {f : TableFile} (A : PageId → Bytes) (count : Nat)

/-- A scan of so many pages finds the rows of the map that are on these pages. -/
theorem mem_rowsOf (hf : tables.get? f.table = some f) (row : Row) :
    row ∈ f.rowsOf A count ↔ ∃ r, row.place = some r ∧ r.page.table = f.table ∧
      r.page.number < count ∧ rowAt? tables A r = some row.bytes := by
  unfold TableFile.rowsOf TableFile.rowsFrom
  simp only [List.mem_flatMap, List.mem_range'_1, Nat.zero_add, Nat.zero_le, true_and,
    mem_pageRows]
  constructor
  · rintro ⟨n, hn, s, hs, hget⟩
    exact ⟨_, hs, rfl, hn, by simp only [rowAt?, hf, Option.bind_some, hget]⟩
  · rintro ⟨⟨⟨t, n⟩, s⟩, hs, ht, hn, hget⟩
    cases ht
    simp only [rowAt?, hf, Option.bind_some] at hget
    exact ⟨n, hn, s, hs, hget⟩

/-- It finds every row once. -/
theorem nodup_rowsOf (f : TableFile) : ((f.rowsOf A count).map Row.place).Nodup := by
  unfold TableFile.rowsOf TableFile.rowsFrom
  rw [List.map_flatMap, List.nodup_flatMap]
  refine ⟨fun n _ => nodup_pageRows _ _ _, ?_⟩
  -- Rows of different pages are at different places.
  refine (List.nodup_range' 1).imp fun {n m} hne => List.disjoint_left.2 fun place hn hm => ?_
  rcases List.mem_map.1 hn with ⟨row, hrow, rfl⟩
  rcases List.mem_map.1 hm with ⟨row', hrow', heq⟩
  rcases mem_pageRows.1 hrow with ⟨s, hs, _⟩
  rcases mem_pageRows.1 hrow' with ⟨s', hs', _⟩
  rw [hs, hs'] at heq
  cases heq
  exact hne rfl

/-- The places of the rows that a scan finds. -/
def TableFile.placesOf (f : TableFile) (A : PageId → Bytes) (count : Nat) : List RowId :=
  (f.rowsOf A count).filterMap Row.place

theorem length_placesOf (hf : tables.get? f.table = some f) :
    (f.placesOf A count).length = (f.rowsOf A count).length := by
  refine List.filterMap_length_eq_length.2 fun row hm => ?_
  rcases (mem_rowsOf A count hf row).1 hm with ⟨r, hr, _⟩
  rw [hr]
  rfl

/-- They are the places of the table that have a row, if the scan comes to all pages that have
    one. -/
theorem lists_placesOf (hf : tables.get? f.table = some f)
    (hall : ∀ r, r.page.table = f.table → count ≤ r.page.number → rowAt? tables A r = none) :
    Lists (rowAt? tables A) f.table (f.placesOf A count) where
  nodup := by
    have hplaces : f.placesOf A count = ((f.rowsOf A count).map Row.place).filterMap id := by
      rw [List.filterMap_map]
      rfl
    rw [hplaces]
    exact (nodup_rowsOf A count f).filterMap fun a a' b ha ha' => ha.trans ha'.symm
  mem r := by
    unfold TableFile.placesOf
    simp only [List.mem_filterMap, mem_rowsOf A count hf]
    constructor
    · rintro ⟨row, ⟨q, hq, ht, _, hget⟩, hr⟩
      rw [hq, Option.some.injEq] at hr
      subst hr
      refine ⟨ht, ?_⟩
      rw [hget]
      exact Option.some_ne_none _
    · rintro ⟨ht, hne⟩
      rcases Option.ne_none_iff_exists'.1 hne with ⟨bytes, hget⟩
      -- A place with a row is on one of the pages.
      have hn : r.page.number < count := by
        by_contra hn
        exact hne (hall r ht (Nat.le_of_not_lt hn))
      exact ⟨⟨some r, bytes⟩, ⟨r, rfl, ht, hn, hget⟩, rfl⟩

end rowsOf

section stored

variable {ρ : Type} {P : Pool ρ} (hl : P.Laid) {f : TableFile}
  (hf : P.tables.get? f.table = some f)

include hl hf

/-- Where a table has no pages, it has no rows. -/
theorem rowAt?_past {r : RowId} (ht : r.page.table = f.table)
    (hn : f.pagesOn P.disk ≤ r.page.number) : rowAt? P.tables P.stored r = none := by
  have hf' : P.tables.get? r.page.table = some f := ht ▸ hf
  rw [rowAt?, hf', Option.bind_some, Pool.stored_past hl hf' hn]
  exact SlotPage.get?_zeros _ _

/-- A scan of all the pages of a table finds all its rows. -/
theorem mem_rowsOf_stored (row : Row) : row ∈ f.rowsOf P.stored (f.pagesOn P.disk) ↔
    ∃ r, row.place = some r ∧ r.page.table = f.table ∧
      rowAt? P.tables P.stored r = some row.bytes := by
  rw [mem_rowsOf _ _ hf]
  constructor
  · rintro ⟨r, hr, ht, _, hrow⟩
    exact ⟨r, hr, ht, hrow⟩
  · rintro ⟨r, hr, ht, hrow⟩
    refine ⟨r, hr, ht, ?_, hrow⟩
    by_contra hn
    rw [rowAt?_past hl hf ht (Nat.le_of_not_lt hn)] at hrow
    cases hrow

theorem lists_stored :
    Lists (rowAt? P.tables P.stored) f.table (f.placesOf P.stored (f.pagesOn P.disk)) :=
  lists_placesOf _ _ hf fun _ => rowAt?_past hl hf

end stored

end RowStore
