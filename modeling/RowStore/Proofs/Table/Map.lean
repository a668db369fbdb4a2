import RowStore.Task

/-!
# Tables as Maps

A table seen as an ordered map: the places are pairs of a page and a slot, and a
place has a row or none.

What may become of such a map when it is asked to take a row in, to give one up or to
list all of them is told by `TableMap.Serves`, which knows nothing of pages in memory,
of bitmaps or of cursors. A row goes to the least place that is free. Only when none is
left does the table become longer, by one page, and the row is the first on it. A call
that fails leaves the map as it was, but for a page without rows that it may have added
before.

A call can also be refused for what the pool has to work with: there may be no frame for
a page, and the device may not read a page or not let the file become longer. The map
does not tell when a frame is free, because that is a matter of what is in memory.

## Main definitions

* `TableMap`: The rows by page and slot, and the number of pages.
* `TableMap.Least`, `TableMap.Full`: The first place that is free, and that none is.
* `TableMap.Lists`: All rows in the order of their places.
* `TableCall`: What a table can be asked.
* `TableMap.Serves`: How it may answer, and what it is then.
* `TableMap.Run`: The same for one call after another.

## Theorems

* `TableMap.lists_listing`: The rows page by page are all rows in order.
* `TableMap.Serves.longer_iff`: A table becomes longer for a row just when it is full.
* `TableMap.Serves.failing`: A call that fails changes no row.
-/

namespace RowStore

/-- A table as a map: the rows by page and slot, and how many pages there are. -/
@[ext]
structure TableMap where
  rows : Nat → Nat → Option Bytes
  pages : Nat

/-- One row is kept before another: on an earlier page, or on the same page in an earlier slot. -/
def Row.Before (a b : Row) : Prop :=
  ∃ i j, a.place = some i ∧ b.place = some j ∧
    (i.page.number < j.page.number ∨ i.page.number = j.page.number ∧ i.slot < j.slot)

namespace TableMap

/-- The map with something else at one place. -/
def put (M : TableMap) (page slot : Nat) (row : Option Bytes) : TableMap :=
  { M with rows := fun p s => if p = page ∧ s = slot then row else M.rows p s }

/-- The map with one page more. -/
def grown (M : TableMap) : TableMap := { M with pages := M.pages + 1 }

/-! ## Places -/

section places

variable (M : TableMap) (l : Layout)

/-- Every row is at a place. -/
def Within : Prop := ∀ page slot row, M.rows page slot = some row → page < M.pages ∧ slot < l.slots

/-- A place has no row. -/
def Free (page slot : Nat) : Prop := page < M.pages ∧ slot < l.slots ∧ M.rows page slot = none

/-- It is the first of all that have none, by page and then by slot. -/
def Least (page slot : Nat) : Prop :=
  M.Free l page slot ∧ ∀ p s, M.Free l p s → page < p ∨ page = p ∧ slot ≤ s

/-- Every place has a row. -/
def Full : Prop := ∀ page slot, ¬ M.Free l page slot

/-- Every place on the pages before one has a row. -/
def FullBefore (page : Nat) : Prop := ∀ p s, p < page → s < l.slots → M.rows p s ≠ none

/-- A slot is the first of its page that has none. -/
structure First (page slot : Nat) : Prop where
  lt : slot < l.slots
  free : M.rows page slot = none
  before : ∀ s, s < slot → M.rows page s ≠ none

end places

variable {M : TableMap} {l : Layout} {page slot : Nat}

/-- The first of a page is the first of all if the pages before have none. -/
theorem First.least (h : M.First l page slot) (hpage : page < M.pages)
    (hbefore : M.FullBefore l page) : M.Least l page slot := by
  refine ⟨⟨hpage, h.lt, h.free⟩, fun p s hfree => ?_⟩
  rcases hfree with ⟨_, hs, hnone⟩
  have hp : page ≤ p := Nat.le_of_not_lt fun hlt => hbefore p s hlt hs hnone
  rcases Nat.lt_or_eq_of_le hp with hlt | rfl
  · exact Or.inl hlt
  · exact Or.inr ⟨rfl, Nat.le_of_not_lt fun hlt => h.before s hlt hnone⟩

theorem FullBefore.succ (h : M.FullBefore l page)
    (hpage : ∀ s, s < l.slots → M.rows page s ≠ none) : M.FullBefore l (page + 1) := by
  intro p s hp hs
  rcases Nat.lt_or_eq_of_le (Nat.le_of_lt_succ hp) with hlt | rfl
  · exact h p s hlt hs
  · exact hpage s hs

theorem FullBefore.full (h : M.FullBefore l M.pages) : M.Full l :=
  fun p s hfree => h p s hfree.1 hfree.2.1 hfree.2.2

/-- A page past the last has no rows, so its first slot is slot 0. -/
theorem Within.eq_zero_of_first (h : M.Within l) (hfirst : M.First l M.pages slot) : slot = 0 := by
  refine Nat.eq_zero_of_not_pos fun hpos => ?_
  cases hrow : M.rows M.pages 0 with
  | none => exact hfirst.before 0 hpos hrow
  | some row => exact Nat.lt_irrefl _ (h _ _ _ hrow).1

/-- So it has a slot that is free. -/
theorem Within.exists_free (h : M.Within l) : ∃ s, s < l.slots ∧ M.rows M.pages s = none := by
  refine ⟨0, l.slots_pos, ?_⟩
  cases hrow : M.rows M.pages 0 with
  | none => rfl
  | some row => exact absurd (h _ _ _ hrow).1 (Nat.lt_irrefl _)

/-! ## Listings -/

/-- A row with its place. -/
def entry (f : TableFile) (page slot : Nat) (row : Bytes) : Row :=
  ⟨some ⟨⟨f.table, page⟩, slot⟩, row⟩

/-- All rows, each once, in the order of their places. -/
structure Lists (M : TableMap) (f : TableFile) (rows : List Row) : Prop where
  mem : ∀ r, r ∈ rows ↔ ∃ page slot row, M.rows page slot = some row ∧ r = entry f page slot row
  sorted : rows.Pairwise Row.Before

/-- The rows of a page. -/
def rowsOn (M : TableMap) (f : TableFile) (page : Nat) : List Row :=
  (List.range f.layout.slots).filterMap fun slot => (M.rows page slot).map (entry f page slot)

/-- The rows of some pages. -/
def listing (M : TableMap) (f : TableFile) (start count : Nat) : List Row :=
  (List.range' start count).flatMap (M.rowsOn f)

variable {f : TableFile}

theorem mem_rowsOn (r : Row) :
    r ∈ M.rowsOn f page ↔
      ∃ slot row, slot < f.layout.slots ∧ M.rows page slot = some row ∧
        r = entry f page slot row := by
  simp only [rowsOn, List.mem_filterMap, List.mem_range, Option.map_eq_some_iff]
  constructor
  · rintro ⟨slot, hslot, row, hrow, rfl⟩
    exact ⟨slot, row, hslot, hrow, rfl⟩
  · rintro ⟨slot, row, hslot, hrow, rfl⟩
    exact ⟨slot, hslot, row, hrow, rfl⟩

theorem sorted_rowsOn : (M.rowsOn f page).Pairwise Row.Before := by
  unfold rowsOn
  rw [List.pairwise_filterMap]
  refine List.pairwise_lt_range.imp fun hlt a ha b hb => ?_
  rcases Option.map_eq_some_iff.1 ha with ⟨_, _, rfl⟩
  rcases Option.map_eq_some_iff.1 hb with ⟨_, _, rfl⟩
  exact ⟨_, _, rfl, rfl, Or.inr ⟨rfl, hlt⟩⟩

/-- The rows page by page are all of them in order. -/
theorem lists_listing (h : M.Within f.layout) : M.Lists f (M.listing f 0 M.pages) := by
  refine ⟨fun r => ?_, ?_⟩
  · simp only [listing, List.mem_flatMap, List.mem_range'_1, mem_rowsOn]
    constructor
    · rintro ⟨page, _, slot, row, _, hrow, rfl⟩
      exact ⟨page, slot, row, hrow, rfl⟩
    · rintro ⟨page, slot, row, hrow, rfl⟩
      rcases h _ _ _ hrow with ⟨hpage, hslot⟩
      exact ⟨page, by omega, slot, row, hslot, hrow, rfl⟩
  · unfold listing
    rw [List.pairwise_flatMap]
    refine ⟨fun _ _ => sorted_rowsOn, ?_⟩
    refine (List.pairwise_lt_range' 1 Nat.one_pos).imp fun hlt a ha b hb => ?_
    rcases (mem_rowsOn a).1 ha with ⟨_, _, _, _, rfl⟩
    rcases (mem_rowsOn b).1 hb with ⟨_, _, _, _, rfl⟩
    exact ⟨_, _, rfl, rfl, Or.inl hlt⟩

end TableMap

/-! ## Calls -/

/-- What a table can be asked. -/
inductive TableCall
  | insert (row : Bytes)
  | delete (page slot : Nat)
  | scan
  deriving DecidableEq

/-- The task of a call. -/
def TableCall.task (f : TableFile) (t : TxnId) : TableCall → Task
  | .insert row => .insert { table := f.table, rows := [row] }
  | .delete page slot => .delete (some ⟨⟨f.table, page⟩, slot⟩)
  | .scan => .advance (Cursor.start { file := f, txn := t }) (.drain [])

/-- What a pool has to work with: so many frames, and a device that refuses some reads and files
    over some length. -/
structure Means where
  frames : Nat
  faults : Faults
  limit : Nat

/-- Why a page of a table may not be had: there is no frame for it, or it cannot be read. -/
inductive Means.Refuses (w : Means) (f : TableFile) : StoreError → Prop
  | frame : w.Refuses f (.noEvictableFrame w.frames)
  | read (page : Nat) (fault : IoFault) (h : w.faults.onRead ⟨f.table, page⟩ = some fault) :
      w.Refuses f (.io fault)

namespace TableMap

/-- How a map may answer a call, and what it is then. -/
inductive Serves (M : TableMap) (f : TableFile) (w : Means) :
    TableCall → Outcome → TableMap → Prop
  /-- The row goes to the least place that is free. -/
  | placed {row : Bytes} {page slot : Nat} (hsize : row.size = f.layout.rowWidth)
      (h : M.Least f.layout page slot) :
      M.Serves f w (.insert row) (.inserted [⟨⟨f.table, page⟩, slot⟩] none)
        (M.put page slot (some row))
  /-- There is none, and the row is the first on a new page. -/
  | extended {row : Bytes} (hsize : row.size = f.layout.rowWidth) (h : M.Full f.layout) :
      M.Serves f w (.insert row) (.inserted [⟨⟨f.table, M.pages⟩, 0⟩] none)
        (M.grown.put M.pages 0 (some row))
  | misfit {row : Bytes} (hsize : row.size ≠ f.layout.rowWidth) :
      M.Serves f w (.insert row) (.inserted [] (some (.invalidArgument
        (.rowForTable row.size f.table f.layout.rowWidth)))) M
  | unplaced {row : Bytes} {e : StoreError} (hsize : row.size = f.layout.rowWidth)
      (he : w.Refuses f e) :
      M.Serves f w (.insert row) (.inserted [] (some e)) M
  /-- The file cannot become longer. -/
  | overlong {row : Bytes} (hsize : row.size = f.layout.rowWidth) (h : M.Full f.layout)
      (hlimit : w.limit < (M.pages + 1) * f.layout.pageSize) :
      M.Serves f w (.insert row) (.inserted [] (some (.io .invalidInput))) M
  /-- The new page is there, but it cannot be had. -/
  | unfilled {row : Bytes} {e : StoreError} (hsize : row.size = f.layout.rowWidth)
      (h : M.Full f.layout) (he : w.Refuses f e) :
      M.Serves f w (.insert row) (.inserted [] (some e)) M.grown
  | deleted {page slot : Nat} {row : Bytes} (h : M.rows page slot = some row) :
      M.Serves f w (.delete page slot) .deleted (M.put page slot none)
  | noRow {page slot : Nat} (h : M.Free f.layout page slot) :
      M.Serves f w (.delete page slot) (.failed (.rowNotFound slot)) M
  | noSlot {page slot : Nat} (hpage : page < M.pages) (hslot : f.layout.slots ≤ slot) :
      M.Serves f w (.delete page slot) (.failed (.invalidSlot slot (f.layout.slots - 1))) M
  | noPage {page slot : Nat} (h : M.pages ≤ page) :
      M.Serves f w (.delete page slot) (.failed (.pageOutOfRange ⟨f.table, page⟩ M.pages)) M
  | undeleted {page slot : Nat} {e : StoreError} (he : w.Refuses f e) :
      M.Serves f w (.delete page slot) (.failed e) M
  | listed {cursor : Cursor} {rows : List Row} (h : M.Lists f rows) :
      M.Serves f w .scan (.moved cursor (.ok (.rows rows))) M
  | unlisted {cursor : Cursor} {e : StoreError} (he : w.Refuses f e) :
      M.Serves f w .scan (.moved cursor (.error e)) M

section Serves

variable {M M' : TableMap} {f : TableFile} {w : Means}

/-- A row that is taken in makes the table longer if every place has a row, and only then. -/
theorem Serves.longer_iff {row : Bytes} {r : RowId}
    (h : M.Serves f w (.insert row) (.inserted [r] none) M') :
    M'.pages = M.pages + 1 ↔ M.Full f.layout := by
  cases h with
  | placed hsize hleast =>
      constructor
      · intro hpages
        exact absurd hpages (Nat.ne_of_lt (Nat.lt_succ_self M.pages))
      · intro hfull
        exact absurd hleast.1 (hfull _ _)
  | extended hsize hfull => exact ⟨fun _ => hfull, fun _ => rfl⟩

/-- A call that fails changes no row. At most it has added a page. -/
theorem Serves.failing {call : TableCall} {outcome : Outcome}
    (h : M.Serves f w call outcome M') (hfail : outcome.failure? ≠ none) :
    M' = M ∨ M.Full f.layout ∧ M' = M.grown := by
  cases h with
  | placed | extended | deleted | listed => exact absurd rfl hfail
  | unfilled _ hfull _ => exact Or.inr ⟨hfull, rfl⟩
  | misfit | unplaced | overlong | noRow | noSlot | noPage | undeleted | unlisted => exact Or.inl rfl

end Serves

/-- How it may answer one call after another. -/
inductive Run (f : TableFile) (w : Means) :
    TableMap → List TableCall → List Outcome → TableMap → Prop
  | nil (M : TableMap) : Run f w M [] [] M
  | cons {M M' M'' : TableMap} {call : TableCall} {rest : List TableCall} {outcome : Outcome}
      {outcomes : List Outcome} (h : M.Serves f w call outcome M')
      (hrest : Run f w M' rest outcomes M'') :
      Run f w M (call :: rest) (outcome :: outcomes) M''

end TableMap

end RowStore
