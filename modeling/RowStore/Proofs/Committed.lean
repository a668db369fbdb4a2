import RowStore.Proofs.RowBooks

/-!
# What Was Committed

The disk holds what was committed and nothing else, page by page and row by row.

Of a page the disk holds what was shown of it when a transaction that held it to write
committed last. That is so whatever calls a transaction makes at a time. So the pool may be
lost at any moment and the files taken up by a new one, and a scan finds the rows of these
pages.

It is another matter whether these are the rows that transactions have put there and
committed. A commit writes out the pages that its transaction holds to write. Those are all
that it has changed, unless an overtaken call has been resumed (`RowStore.Proofs.Requests`).
As long as none is, the disk is what the transactions that committed have left, one after the
other, and a new pool finds the rows that the books have settled. If one is, it need not:
`Engine.committed_row_not_on_disk`.

## Theorems

* `Engine.stored_left`, `Engine.mem_rows_stored`: The disk is what those left that committed.
* `Engine.disk_holds_committed`: The disk is the ledger, and a new pool finds the rows that were
  committed.
* `Engine.committed_row_not_on_disk`: It need not if an overtaken call is resumed.
-/

namespace RowStore

namespace Engine

variable {ρ : Type} [EvictionOrder ρ] {E : Engine ρ} (hf : E.Fresh) {evs : List Event}

include hf

/-- If endings succeed and no overtaken call is resumed, the disk is what the transactions that
    committed have left, one after the other. -/
theorem stored_left (h : E.Goes EndsWell evs) :
    (E.run evs).pool.stored = (History.of (E.trace evs)).left E.pool.stored :=
  (serial_run hf.serial h).pool.stored

/-- If rows are changed by calls only, endings succeed and no overtaken call is resumed, the rows on
    disk are those that the books have settled, each once. -/
theorem mem_rows_stored (h : E.Goes Keeping evs) {t : TableId} {f : TableFile}
    (htf : E.pool.tables.get? t = some f) :
    ((f.rowsOf (E.run evs).pool.stored (f.pagesOn (E.run evs).pool.disk)).map Row.place).Nodup ∧
    ∀ row, row ∈ f.rowsOf (E.run evs).pool.stored (f.pagesOn (E.run evs).pool.disk) ↔
      ∃ r, row.place = some r ∧ r.page.table = t ∧
        RowOp.after (rowAt? E.pool.tables E.pool.stored) (E.books {} evs).settled r =
          some row.bytes := by
  rcases accounted_run hf.accounted h with ⟨ha, ht, _⟩
  -- The books are kept for the tables that the run began with, and these are still the tables.
  have hft : f.table = t := hf.laid.keyed t f htf
  have htf' : (E.run evs).pool.tables.get? f.table = some f := by
    rw [ht, hft]
    exact htf
  have hafter := (settled_rows ha).2
  rw [ht] at hafter
  refine ⟨nodup_rowsOf _ _ f, fun row => ?_⟩
  rw [mem_rowsOf_stored ha.sane.coherent.laid htf', ht, hafter, hft]

omit hf

/-- At every moment of a run the disk holds of every page what was committed of it last, or, if
    nothing was, what was there to begin with, which is a page of zeros where there was none. So the
    pool can be lost at any moment: the files can be taken up again, and a scan of any table finds
    the rows that are on the committed pages. If no lock is given back early, nothing is discarded,
    endings succeed and no overtaken call is resumed, the committed pages are what the transactions
    that committed have left, one after the other. If besides rows are changed by calls only, the
    scan finds just the rows that are settled, each once. -/
theorem disk_holds_committed (E : Engine ρ) (hf : E.Fresh) (evs : List Event)
    (h : E.Goes Forcing evs) :
    (∀ p, (E.run evs).pool.stored p = E.ledger E.pool.stored evs p) ∧
    (∀ p f, E.pool.tables.get? p.table = some f → f.pagesOn E.pool.disk ≤ p.number →
      E.pool.stored p = Array.replicate f.layout.pageSize 0) ∧
    (E.Goes EndsWell evs → ∀ p,
      (E.run evs).pool.stored p = (History.of (E.trace evs)).left E.pool.stored p) ∧
    ∀ t f, E.pool.tables.get? t = some f →
      f.pages.openFile (E.run evs).pool.disk = .ok () ∧
      ∀ frames, 0 < frames → ∀ u, ∃ steps E' c cursor rows,
        (((E.run evs).pool.reopened frames).submit u
          (.advance (Cursor.start { file := f, txn := u }) (.drain []))).2.settle steps =
            (E', [(c, .moved cursor (.ok (.rows rows)))]) ∧
        rows = f.rowsOf (E.ledger E.pool.stored evs) (f.pagesOn (E.run evs).pool.disk) ∧
        (E.Goes Keeping evs → (rows.map Row.place).Nodup ∧
          ∀ row, row ∈ rows ↔ ∃ r, row.place = some r ∧ r.page.table = t ∧
            RowOp.after (rowAt? E.pool.tables E.pool.stored) (E.books {} evs).settled r =
              some row.bytes) := by
  rcases stored_run hf.sane h with ⟨hst, hs, ht, hb⟩
  refine ⟨fun p => congrFun hst p, fun p f hp hn => Pool.stored_past hf.laid hp hn,
    fun hwell p => congrFun (stored_left hf hwell) p, ?_⟩
  intro t f htf
  have hft : f.table = t := hf.laid.keyed t f htf
  have hf' : (E.run evs).pool.tables.get? f.table = some f := by
    rw [ht, hft]
    exact htf
  refine ⟨TableFile.openFile_eq (hs.coherent.laid.whole _ f hf'), fun frames hpos u => ?_⟩
  -- The new pool has nothing in memory, so all that it shows is read from the files.
  have hr := Pool.restful_reopened hs.coherent.laid hb hpos
  rcases settle_scan hr (fun _ => rfl) rfl rfl hf' u (Nat.le_refl _) with ⟨E', cursor, heq⟩
  have hst' : ((E.run evs).pool.reopened frames).pool.stored = E.ledger E.pool.stored evs :=
    (Pool.stored_congr rfl rfl).trans hst
  rw [hst'] at heq
  exact ⟨_, E', _, cursor, _, heq, rfl, fun hkeeping => hst ▸ mem_rows_stored hf hkeeping htf⟩

/-- A row is inserted and committed, and another is inserted. -/
def halfCommitted : List Event :=
  .submit ⟨1⟩ (.insert { table := ⟨1⟩, rows := [#[7]] }) :: List.replicate 6 (.step ⟨0⟩) ++
    .act (.finish ⟨1⟩ .commit) ::
      .submit ⟨2⟩ (.insert { table := ⟨1⟩, rows := [#[9]] }) :: List.replicate 8 (.step ⟨1⟩)

/-- Both rows are shown, and one is on disk and found by a scan of a new pool. -/
theorem disk_holds_one_of_two :
    ((tiny 1 ({} : Recency)).run halfCommitted).pool.shown ⟨⟨1⟩, 0⟩ = #[1, 7] ∧
    ((tiny 1 ({} : Recency)).run halfCommitted).pool.shown ⟨⟨1⟩, 1⟩ = #[1, 9] ∧
    ((tiny 1 ({} : Recency)).run halfCommitted).pool.stored ⟨⟨1⟩, 0⟩ = #[1, 7] ∧
    ((tiny 1 ({} : Recency)).run halfCommitted).pool.stored ⟨⟨1⟩, 1⟩ = #[0, 0] ∧
    (∀ p, ((tiny 1 ({} : Recency)).run halfCommitted).pool.stored p =
      (tiny 1 ({} : Recency)).ledger (tiny 1 ({} : Recency)).pool.stored halfCommitted p) ∧
    ∃ steps E' c cursor,
      ((((tiny 1 ({} : Recency)).run halfCommitted).pool.reopened 1).submit ⟨3⟩
        (.advance (Cursor.start { file := .tiny, txn := ⟨3⟩ }) (.drain []))).2.settle steps =
          (E', [(c, .moved cursor (.ok (.rows [⟨some ⟨⟨⟨1⟩, 0⟩, 0⟩, #[7]⟩])))]) := by
  have hgoes : (tiny 1 ({} : Recency)).Goes Forcing halfCommitted := by decide +kernel
  have h := disk_holds_committed (tiny 1 ({} : Recency)) (fresh_tiny 1 _) halfCommitted hgoes
  rcases (h.2.2.2 ⟨1⟩ .tiny rfl).2 1 Nat.one_pos ⟨3⟩ with
    ⟨steps, E', c, cursor, rows, hscan, hrows, _⟩
  have hone : TableFile.tiny.rowsOf
      ((tiny 1 ({} : Recency)).ledger (tiny 1 ({} : Recency)).pool.stored halfCommitted)
      (TableFile.tiny.pagesOn ((tiny 1 ({} : Recency)).run halfCommitted).pool.disk) =
        [⟨some ⟨⟨⟨1⟩, 0⟩, 0⟩, #[7]⟩] := by decide +kernel
  rw [hrows, hone] at hscan
  exact ⟨by decide +kernel, by decide +kernel, by decide +kernel, by decide +kernel, h.1,
    steps, E', c, cursor, hscan⟩

/-- Two insertions have ended well and are settled, and no lock was given back early. But the page
    of the first row is on disk as it was, and a scan of a new pool finds the second row only. -/
theorem committed_row_not_on_disk :
    (tiny 4 ({} : Recency)).Goes (fun E ev => E.Forcing ev ∧ (E.Firm ev → E.Keeping ev))
      twoInserted ∧
    ((tiny 4 ({} : Recency)).books {} twoInserted).settled =
      [.insert ⟨⟨⟨1⟩, 0⟩, 0⟩ #[7], .insert ⟨⟨⟨1⟩, 1⟩, 0⟩ #[9]] ∧
    ((tiny 4 ({} : Recency)).run twoInserted).pool.stored ⟨⟨1⟩, 0⟩ = #[0, 0] ∧
    (((((tiny 4 ({} : Recency)).run twoInserted).pool.reopened 1).submit ⟨3⟩
      (.advance (Cursor.start { file := .tiny, txn := ⟨3⟩ }) (.drain []))).2.settle 9).2 =
        [(⟨0⟩, .moved { Cursor.start { file := .tiny, txn := ⟨3⟩ } with nextPage := 2 }
          (.ok (.rows [⟨some ⟨⟨⟨1⟩, 1⟩, 0⟩, #[9]⟩])))] :=
  ⟨by decide +kernel, by decide +kernel, by decide +kernel, by decide +kernel⟩

end Engine

end RowStore
