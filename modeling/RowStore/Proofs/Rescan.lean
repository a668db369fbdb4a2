import RowStore.Proofs.ScanInUse
import RowStore.Recency

/-!
# A Table Scanned Twice

What a transaction finds when it scans a table that it has scanned before.

A scan holds every page that it has read, also those without rows. So nobody else writes
them until the transaction leaves, whoever commits, is rolled back or has the page leave
memory meanwhile, and whatever calls the transaction makes at a time. The pages are shown
as they were read, and a second scan reads them so. Others can only have the table grow,
and rows on the pages that were appended are found after all those that were found before.

The first scan is one of the pages that there are when it ends. Others may have appended
some of them while it went on, and the second scan may have begun by then.

What the transaction itself writes is another matter. A page may be written by it after
the scan has read it and before the scan has ended, and then the rows that were handed
out are not those that a second scan finds. That is `Engine.own_write_is_rescanned`.

## Main definitions

* `Scan.reached`: How many pages a scan has read.
* `Engine.Gathered`: The rows of a scan are those of the pages that it has read.
* `TableFile.Repeats`: The rows of a scan are those of another one, and further ones.

## Theorems

* `Engine.gathered_follows`: A scan has the rows of its pages, as they are shown.
* `Engine.repeats_follows`: A scan of pages that are held finds the rows that were there.
* `Engine.rescan_extends_scan`: The second scan finds the rows of the first, and then others.
* `Engine.own_write_is_rescanned`: It need not, if its transaction has written what it had read.
-/

namespace RowStore

/-! ## The rows of some pages -/

namespace TableFile

variable {f : TableFile} {A : PageId → Bytes}

theorem rowsOf_succ (f : TableFile) (A : PageId → Bytes) (n : Nat) :
    f.rowsOf A (n + 1) = f.rowsOf A n ++ pageRows f.layout ⟨f.table, n⟩ (A ⟨f.table, n⟩) := by
  simp only [rowsOf, rowsFrom, List.range'_1_concat, List.flatMap_append, List.flatMap_singleton,
    Nat.zero_add]

theorem rowsOf_congr {B : PageId → Bytes} {n : Nat} (h : ∀ k < n, A ⟨f.table, k⟩ = B ⟨f.table, k⟩) :
    f.rowsOf A n = f.rowsOf B n := by
  induction n with
  | zero => rfl
  | succ n ih => rw [rowsOf_succ, rowsOf_succ, ih fun k hk => h k (Nat.lt_succ_of_lt hk),
      h n (Nat.lt_succ_self n)]

/-- A row is on a page of the table, from some page on. -/
def HasFrom (f : TableFile) (start : Nat) (row : Row) : Prop :=
  ∃ r, row.place = some r ∧ r.page.table = f.table ∧ start ≤ r.page.number

/-- The rows of a scan that has read so many pages. Of the first pages they are what an array of
    pages has; further ones may be on the pages after those. -/
inductive Repeats (f : TableFile) (A : PageId → Bytes) (count : Nat) : Nat → List Row → Prop
  | within {n : Nat} (h : n ≤ count) : Repeats f A count n (f.rowsOf A n)
  | beyond {n : Nat} {more : List Row} (h : count ≤ n) (hmore : ∀ row ∈ more, f.HasFrom count row) :
      Repeats f A count n (f.rowsOf A count ++ more)

/-- The next page adds the rows that are on it. -/
theorem Repeats.read {count n : Nat} {rows : List Row} (h : f.Repeats A count n rows) {b : Bytes}
    (hb : n < count → b = A ⟨f.table, n⟩) :
    f.Repeats A count (n + 1) (rows ++ pageRows f.layout ⟨f.table, n⟩ b) := by
  have hplace : count ≤ n → ∀ row ∈ pageRows f.layout ⟨f.table, n⟩ b, f.HasFrom count row := by
    intro hle row hrow
    rcases List.mem_map.1 hrow with ⟨e, _, rfl⟩
    exact ⟨⟨⟨f.table, n⟩, e.1⟩, rfl, rfl, hle⟩
  cases h with
  | within hle =>
      rcases Nat.lt_or_eq_of_le hle with hlt | rfl
      · rw [hb hlt, ← rowsOf_succ]
        exact .within hlt
      · exact .beyond (Nat.le_succ n) (hplace (Nat.le_refl n))
  | beyond hle hmore =>
      rw [List.append_assoc]
      refine .beyond (Nat.le_succ_of_le hle) fun row hrow => ?_
      exact (List.mem_append.1 hrow).elim (hmore row) (hplace hle row)

/-- A scan that has read all the first pages has their rows first. -/
theorem Repeats.extends {count n : Nat} {rows : List Row} (h : f.Repeats A count n rows)
    (hle : count ≤ n) :
    ∃ more, rows = f.rowsOf A count ++ more ∧ ∀ row ∈ more, f.HasFrom count row := by
  cases h with
  | within hn =>
      cases Nat.le_antisymm hn hle
      exact ⟨[], (List.append_nil _).symm, fun row hrow => by cases hrow⟩
  | beyond _ hmore => exact ⟨_, rfl, hmore⟩

end TableFile

/-- How many pages a scan has read. -/
def Scan.reached {ρ : Type} (E : Engine ρ) (s : Scan) : Nat :=
  match s.place with
  | .inl cursor => cursor.nextPage
  | .inr c =>
    match (E.calls.get? c).map Call.task with
    | some (.advance cursor _) | some (.load cursor _) => cursor.nextPage
    | _ => 0

namespace Engine

variable {ρ : Type} [EvictionOrder ρ]

omit [EvictionOrder ρ] in
theorem Stands.reached {E : Engine ρ} {s : Scan} {cursor : Cursor} {rows : List Row}
    (h : E.Stands s cursor rows) : s.reached E = cursor.nextPage := by
  cases h with
  | resting _ => rfl
  | moving hcall _ => simp only [Scan.reached, hcall, Option.map_some]
  | loading hcall _ => simp only [Scan.reached, hcall, Option.map_some]

/-- What is asked of a move by which a scan goes on: the pages that it has read are spared. -/
def Reading (t : TxnId) (f : TableFile) (E : Engine ρ) (s : Scan) (m : Move ρ) : Prop :=
  E.Spares t f.table (s.reached E) m

instance (t : TxnId) (f : TableFile) (E : Engine ρ) (s : Scan) (m : Move ρ) :
    Decidable (E.Reading t f s m) :=
  inferInstanceAs (Decidable (E.Spares t f.table (s.reached E) m))

/-- The rows of a scan are those of the pages that it has read, as they are shown. The table has
    these pages, and the transaction holds them. -/
structure Gathered (E : Engine ρ) (t : TxnId) (f : TableFile) (cursor : Cursor) (rows : List Row) :
    Prop where
  file : cursor.file = f
  txn : cursor.txn = t
  shown : rows = f.rowsOf E.pool.shown cursor.nextPage
  held : E.Holds t f.table cursor.nextPage
  within : cursor.nextPage ≤ f.pagesOn E.pool.disk

/-- A scan has the rows of its pages after a move that spares them. -/
theorem gathered_move {E : Engine ρ} (h : E.Arises Strict) {t : TxnId} {f : TableFile}
    (hf : E.pool.tables.get? f.table = some f) {cursor cursor' : Cursor} {rows rows' : List Row}
    {m : Move ρ} (hm : E.Spares t f.table cursor.nextPage m) (hg : E.Gathered t f cursor rows)
    (hturns : E.Turns m cursor rows cursor' rows') : (E.move m).Gathered t f cursor' rows' := by
  have hlonger := longer_move (h.sited fun _ _ => And.left) hm.strict.1 _ f hf
  have hheld := holds_move h hm hg.held
  -- Either the scan stays where it is, and its pages are shown as they were, or it has read one
  -- more page, under a lock that it keeps.
  cases hturns with
  | same left =>
      refine ⟨hg.file, hg.txn, ?_, hheld, Nat.le_trans hg.within hlonger⟩
      rw [hg.shown]
      exact f.rowsOf_congr fun k hk => (shown_spared h hm hg.held hf hk).symm
  | read hhas hnew hshown =>
      have hpage : cursor.page = ⟨f.table, cursor.nextPage⟩ := by rw [Cursor.page, hg.file]
      refine ⟨hg.file, hg.txn, ?_, fun k hk => ?_, ?_⟩
      · rw [hg.shown, hshown, hg.file, hpage]
        exact (f.rowsOf_succ _ _).symm
      · rcases Nat.lt_or_eq_of_le (Nat.le_of_lt_succ hk) with hlt | rfl
        · exact hheld k hlt
        · rw [mode?_move h.tidy hm.strict.2 hm.stays]
          rw [hg.txn, hpage] at hnew
          exact hnew
      · rcases hhas with ⟨g, hg', hlt⟩
        rw [hpage] at hg' hlt
        cases hf.symm.trans hg'
        exact Nat.le_trans hlt hlonger

/-- A run that spares what a scan has read leaves the scan with the rows of its pages. -/
theorem gathered_follows {E : Engine ρ} (h : E.Arises Strict) {t : TxnId} {f : TableFile}
    (hf : E.pool.tables.get? f.table = some f) {s s' : Scan} {cursor : Cursor} {rows : List Row}
    (hstands : E.Stands s cursor rows) (hg : E.Gathered t f cursor rows) {ms : List (Move ρ)}
    (hms : E.Follows (Reading t f) s ms s') :
    ∃ cursor' rows', (E.moves ms).Stands s' cursor' rows' ∧
      (E.moves ms).Gathered t f cursor' rows' := by
  induction hms generalizing cursor rows with
  | nil => exact ⟨cursor, rows, hstands, hg⟩
  | @cons E s s' s'' m ms hm hr _ ih =>
      have hm' : E.Spares t f.table cursor.nextPage m := hstands.reached ▸ hm
      rcases stands_move (h.sited fun _ _ => And.left) h.listed h.guarded.toBacked
        hstands (hg.file ▸ hf) hr with
        ⟨cursor', rows', hstands', hturns⟩
      exact ih (.move h hm.strict) (known_move hm.strict.1 hf) hstands'
        (gathered_move h hf hm' hg hturns)

/-- A scan of a table of which its transaction holds the first pages finds the rows that are on
    these, along a run that spares them. -/
theorem repeats_follows {E : Engine ρ} (h : E.Arises Strict) {t : TxnId} {f : TableFile}
    (hf : E.pool.tables.get? f.table = some f) {A : PageId → Bytes} {count : Nat}
    (hheld : E.Holds t f.table count)
    (hshown : ∀ k < count, E.pool.shown ⟨f.table, k⟩ = A ⟨f.table, k⟩)
    {s s' : Scan} {cursor : Cursor} {rows : List Row} (hstands : E.Stands s cursor rows)
    (hfile : cursor.file = f) (hrep : f.Repeats A count cursor.nextPage rows) {ms : List (Move ρ)}
    (hms : E.Follows (fun E _ m => E.Spares t f.table count m) s ms s') :
    ∃ cursor' rows', (E.moves ms).Stands s' cursor' rows' ∧ cursor'.file = f ∧
      f.Repeats A count cursor'.nextPage rows' := by
  induction hms generalizing cursor rows with
  | nil => exact ⟨cursor, rows, hstands, hfile, hrep⟩
  | @cons E s s' s'' m ms hm hr _ ih =>
      rcases stands_move (h.sited fun _ _ => And.left) h.listed h.guarded.toBacked
        hstands (hfile ▸ hf) hr with
        ⟨cursor', rows', hstands', hturns⟩
      have hnext : cursor'.file = f ∧ f.Repeats A count cursor'.nextPage rows' := by
        cases hturns with
        | same left => exact ⟨hfile, hrep⟩
        | read _ _ _ =>
            have hpage : cursor.page = ⟨f.table, cursor.nextPage⟩ := by rw [Cursor.page, hfile]
            rw [hfile, hpage]
            exact ⟨hfile, hrep.read fun hlt => hshown _ hlt⟩
      exact ih (.move h hm.strict) (known_move hm.strict.1 hf) (holds_move h hm hheld)
        (fun k hk => (shown_spared h hm hheld hf hk).trans (hshown k hk)) hstands' hnext.1 hnext.2

/-- Two scans of a table by one transaction, which does not leave meanwhile. It writes no page that
    a scan has read before the first scan is over, and then none of those that the table has when
    the first scan is over. Then the rows of the second scan are those of the first, and after them
    such as are on pages that the table has grown by since the first was over. -/
theorem rescan_extends_scan {E : Engine ρ} (h : E.Arises Strict) {t : TxnId} {f : TableFile}
    (hf : E.pool.tables.get? f.table = some f) {ms later : List (Move ρ)} {a b : Cursor} {s : Scan}
    {rows rows' : List Row} {count : Nat}
    (hfirst : E.Follows (Reading t f) ⟨.inl (Cursor.start { file := f, txn := t }), []⟩ ms
      ⟨.inl a, rows⟩)
    (hsecond : E.Follows (Reading t f) ⟨.inl (Cursor.start { file := f, txn := t }), []⟩ ms s)
    (hover : a.Done (E.moves ms).pool) (hb : (E.moves ms).pool.Bounded)
    (hcount : f.pageCount (E.moves ms).pool.disk = count)
    (hlater : (E.moves ms).Follows (fun E' _ m => E'.Spares t f.table count m) s later
      ⟨.inl b, rows'⟩)
    (hover' : b.Done ((E.moves ms).moves later).pool)
    (hb' : ((E.moves ms).moves later).pool.Bounded) :
    ∃ more, rows' = rows ++ more ∧ ∀ row ∈ more, f.HasFrom count row := by
  have hstart : E.Stands ⟨.inl (Cursor.start { file := f, txn := t }), []⟩
      (Cursor.start { file := f, txn := t }) [] := .resting rfl
  have hnone : E.Gathered t f (Cursor.start { file := f, txn := t }) [] :=
    ⟨rfl, rfl, rfl, fun k hk => absurd hk (Nat.not_lt_zero k), Nat.zero_le _⟩
  rcases gathered_follows h hf hstart hnone hfirst with ⟨cursor, all, hstands, hg⟩
  rcases gathered_follows h hf hstart hnone hsecond with ⟨cursor₂, all₂, hstands₂, hg₂⟩
  have harises := h.moves (hfirst.admits fun _ _ _ hm => hm.strict)
  have hf₁ := known_moves (hfirst.admits fun _ _ _ hm => hm.strict.1) hf
  have hplaced : (E.moves ms).Admits Placed later := hlater.admits fun _ _ _ hm => hm.strict.1
  rw [hb.pageCount_eq hf₁] at hcount
  -- The first scan has read all the pages that there are.
  cases hstands with
  | @resting _ left _ hrows =>
      cases hrows.symm.trans hover.1
      have hread := hover.2
      rw [hg.file, hb.pageCount_eq hf₁, hcount] at hread
      have hall : a.nextPage = count := Nat.le_antisymm (hcount ▸ hg.within) hread
      have hrows' := hg.shown
      rw [List.append_nil, hall] at hrows'
      -- The second one has read some of them, and goes on.
      have hrep : f.Repeats (E.moves ms).pool.shown count cursor₂.nextPage all₂ := by
        rw [hg₂.shown]
        exact .within (hcount ▸ hg₂.within)
      rcases repeats_follows harises hf₁ (hall ▸ hg.held) (fun _ _ => rfl) hstands₂ hg₂.file hrep
        hlater with ⟨cursor', all', hstands', hfile', hrep'⟩
      cases hstands' with
      | @resting _ left' _ hleft =>
          cases hleft.symm.trans hover'.1
          rw [List.append_nil] at hrep'
          have hmore := hover'.2
          rw [hfile', hb'.pageCount_eq (known_moves hplaced hf₁)] at hmore
          have hlonger := longer_moves (harises.sited fun _ _ => And.left) hplaced _ f hf₁
          rw [hrows']
          exact hrep'.extends (hcount ▸ Nat.le_trans hlonger hmore)

/-! ## A small table -/

/-- A scan of the small table by the first transaction, before it has read a page. -/
def unread : Cursor := Cursor.start { file := .tiny, txn := ⟨1⟩ }

/-- The cursor of such a scan that has read so many pages and has no row left. -/
def readUpTo (pages : Nat) : Cursor := { unread with nextPage := pages }

/-- The row of the small table on a page that was filled. -/
def filled (n : Nat) : Row := ⟨some ⟨⟨⟨1⟩, n⟩, 0⟩, #[1]⟩

/-- A transaction puts a row on a page and commits. -/
def filling (n : Nat) (c : CallNo) (h : HandleNo) : List (Move Recency) :=
  [.event (.submit ⟨2⟩ (.fetch ⟨⟨1⟩, n⟩ .readWrite true)), .event (.step c),
    .event (.act (.write h (.fill 1))), .event (.act (.finish ⟨2⟩ .commit))]

/-- Some steps of a call. -/
def stepping (c : CallNo) (n : Nat) : List (Move Recency) :=
  List.replicate n (.event (.step c))

/-- The first transaction scans the small table in one call. -/
def scanning (c : CallNo) (n : Nat) : List (Move Recency) :=
  .event (.submit ⟨1⟩ (.advance unread (.drain []))) :: (stepping c n ++ [.event (.step c)])

/-- The table grows by a page, and another transaction puts a row on it. -/
def growing : List (Move Recency) := .event (.act (.grow ⟨1⟩)) :: filling 2 ⟨2⟩ ⟨1⟩

/-- A row is on the first of two pages. The second scan finds another one, on the page that was
    appended after the first scan. -/
theorem rescan_extends_scan_growing :
    ∃ more, [filled 0, filled 2] = [filled 0] ++ more ∧
      ∀ row ∈ more, TableFile.tiny.HasFrom 2 row := by
  let E := (tiny 4 ({} : Recency)).moves (filling 0 ⟨0⟩ ⟨0⟩)
  let F := E.moves (scanning ⟨1⟩ 5)
  have harises : E.Arises Strict :=
    (Arises.fresh (fresh_tiny 4 ({} : Recency))).moves (by decide +kernel)
  have hfirst : E.Follows (Reading ⟨1⟩ .tiny) ⟨.inl unread, []⟩ (scanning ⟨1⟩ 5)
      ⟨.inl (readUpTo 2), [filled 0]⟩ :=
    @Follows.of_call _ _ (Reading ⟨1⟩ .tiny) E (stepping ⟨1⟩ 5) ⟨1⟩ unread (readUpTo 2) (.drain [])
      [] (.rows [filled 0]) (by decide +kernel) rfl (by decide +kernel) (by decide +kernel)
      (by decide +kernel) (by decide +kernel)
  have hlater : F.Follows (fun E' _ m => E'.Spares ⟨1⟩ ⟨1⟩ 2 m) ⟨.inl unread, []⟩
      (growing ++ scanning ⟨3⟩ 8) ⟨.inl (readUpTo 3), [filled 0, filled 2]⟩ :=
    .append (.of_rest (by decide +kernel))
      (@Follows.of_call _ _ (fun E' _ m => E'.Spares ⟨1⟩ ⟨1⟩ 2 m) (F.moves growing)
        (stepping ⟨3⟩ 8) ⟨3⟩ unread (readUpTo 3) (.drain []) [] (.rows [filled 0, filled 2])
        (by decide +kernel) rfl (by decide +kernel) (by decide +kernel) (by decide +kernel)
        (by decide +kernel))
  exact rescan_extends_scan harises (by decide +kernel) hfirst (.of_rest (by decide +kernel))
    (by decide +kernel) (by decide +kernel) (by decide +kernel) hlater (by decide +kernel)
    (by decide +kernel)

/-- Whether a transaction writes to no page in a move. -/
def abstains (E : Engine ρ) (t : TxnId) : Move ρ → Bool
  | .event ev => ((E.notes ev).filterMap (Note.opOf? t)).all fun op => op.mode = .shared
  | _ => true

/-- A transaction puts a row on the first page. -/
def rowPut : List (Move Recency) :=
  [.event (.submit ⟨1⟩ (.fetch ⟨⟨1⟩, 0⟩ .readWrite true)), .event (.step ⟨0⟩),
    .event (.act (.write ⟨0⟩ (.fill 1)))]

/-- A scan of the small table is asked for its next row. -/
def asking (cursor : Cursor) (c : CallNo) (n : Nat) : List (Move Recency) :=
  .event (.submit ⟨1⟩ (.advance cursor .step)) :: (stepping c n ++ [.event (.step c)])

/-- The row is taken off again when the first scan has handed it out and is not over. -/
def takenOff : List (Move Recency) :=
  asking unread ⟨1⟩ 2 ++ ([.event (.act (.write ⟨0⟩ (.fill 0)))] ++ asking (readUpTo 1) ⟨2⟩ 2)

/-- It is not enough that a transaction writes nothing after its first scan. What it writes before,
    on pages that the scan has read, is found by the second scan and was not by the first. -/
theorem own_write_is_rescanned :
    ¬ ∀ (E : Engine Recency) (t : TxnId) (f : TableFile) (ms later : List (Move Recency))
      (a b : Cursor) (rows rows' : List Row), E.Arises Steady →
      E.pool.tables.get? f.table = some f →
      E.Follows (fun E' _ m => E'.Steady m ∧ m.leaver? ≠ some t ∧ m.isDiscard = false)
        ⟨.inl (Cursor.start { file := f, txn := t }), []⟩ ms ⟨.inl a, rows⟩ →
      a.Done (E.moves ms).pool → (E.moves ms).pool.Bounded →
      (E.moves ms).Follows (fun E' _ m => E'.Steady m ∧ m.leaver? ≠ some t ∧ m.isDiscard = false ∧
          E'.abstains t m = true)
        ⟨.inl (Cursor.start { file := f, txn := t }), []⟩ later ⟨.inl b, rows'⟩ →
      b.Done ((E.moves ms).moves later).pool → ((E.moves ms).moves later).pool.Bounded →
      ∃ more, rows' = rows ++ more := by
  intro h
  let E := (tiny 4 ({} : Recency)).moves rowPut
  let ok : Engine Recency → Scan → Move Recency → Prop := fun E' _ m =>
    E'.Steady m ∧ m.leaver? ≠ some ⟨1⟩ ∧ m.isDiscard = false
  have harises : E.Arises Steady :=
    (Arises.fresh (fresh_tiny 4 ({} : Recency))).moves (by decide +kernel)
  have hrow : E.Follows ok ⟨.inl unread, []⟩ (asking unread ⟨1⟩ 2)
      ⟨.inl (readUpTo 1), [filled 0]⟩ :=
    @Follows.of_call _ _ ok E (stepping ⟨1⟩ 2) ⟨1⟩ unread (readUpTo 1) .step [] (.row (filled 0))
      (by decide +kernel) rfl (by decide +kernel) (by decide +kernel) (by decide +kernel)
      (by decide +kernel)
  have hrest : ((E.moves (asking unread ⟨1⟩ 2)).moves
      [.event (.act (.write ⟨0⟩ (.fill 0)))]).Follows ok ⟨.inl (readUpTo 1), [filled 0]⟩
      (asking (readUpTo 1) ⟨2⟩ 2) ⟨.inl (readUpTo 2), [filled 0]⟩ :=
    @Follows.of_call _ _ ok _ (stepping ⟨2⟩ 2) ⟨2⟩ (readUpTo 1) (readUpTo 2) .step [filled 0]
      .exhausted (by decide +kernel) rfl (by decide +kernel) (by decide +kernel) (by decide +kernel)
      (by decide +kernel)
  have hfirst : E.Follows ok ⟨.inl unread, []⟩ takenOff ⟨.inl (readUpTo 2), [filled 0]⟩ :=
    hrow.append (.append (.of_rest (by decide +kernel)) hrest)
  have hlater : (E.moves takenOff).Follows (fun E' _ m => E'.Steady m ∧ m.leaver? ≠ some ⟨1⟩ ∧
        m.isDiscard = false ∧ E'.abstains ⟨1⟩ m = true)
      ⟨.inl unread, []⟩ (scanning ⟨3⟩ 4) ⟨.inl (readUpTo 2), []⟩ :=
    @Follows.of_call _ _ (fun E' _ m => E'.Steady m ∧ m.leaver? ≠ some ⟨1⟩ ∧
        m.isDiscard = false ∧ E'.abstains ⟨1⟩ m = true) (E.moves takenOff)
      (stepping ⟨3⟩ 4) ⟨3⟩ unread (readUpTo 2) (.drain []) [] (.rows []) (by decide +kernel) rfl
      (by decide +kernel) (by decide +kernel) (by decide +kernel) (by decide +kernel)
  rcases h E ⟨1⟩ .tiny takenOff (scanning ⟨3⟩ 4) (readUpTo 2) (readUpTo 2) [filled 0] [] harises
    (by decide +kernel) hfirst (by decide +kernel) (by decide +kernel) hlater (by decide +kernel)
    (by decide +kernel) with ⟨more, hmore⟩
  cases hmore

end Engine

end RowStore
