import RowStore.Proofs.Lock.Accounts
import RowStore.Proofs.Run
import RowStore.Proofs.Tracking

/-!
# A Scan on its Own

What a scan of a table finds when nobody else is at work.

Then no lock is refused, and as long as no page is dirty or in use a page can always
be loaded, if only there is a frame. So the scan goes through the pages of its table
to the end. What it finds on each is what is stored there, because no copy differs
from its image.

## Main definitions

* `TableFile.rowsOf`: The rows of a table, by an array of pages.
* `Pool.Restful`: No page is dirty or in use, and there is a frame.
* `Engine.Solo`: One call is in progress.
* `Engine.Scanning`: One call is in progress, and nobody may write any page.

## Theorems

* `Engine.settle_scan`: A scan on its own ends with the rows of its table.
-/

namespace RowStore

/-- The rows on a page, each with its place. -/
def pageRows (layout : Layout) (p : PageId) (b : Bytes) : List Row :=
  (SlotPage.rows layout b).map fun e => ⟨some ⟨p, e.1⟩, e.2⟩

/-- The rows on the pages of a table from one page on. -/
def TableFile.rowsFrom (f : TableFile) (A : PageId → Bytes) (start count : Nat) : List Row :=
  (List.range' start count).flatMap fun n => pageRows f.layout ⟨f.table, n⟩ (A ⟨f.table, n⟩)

/-- The rows of a table with so many pages. -/
def TableFile.rowsOf (f : TableFile) (A : PageId → Bytes) (pages : Nat) : List Row :=
  f.rowsFrom A 0 pages

theorem Task.rowsOn_eq {layout : Layout} (p : PageId) {b : Bytes} (h : b.size = layout.pageSize) :
    Task.rowsOn layout p b = .ok (pageRows layout p b) := by
  unfold Task.rowsOn SlotPage.checkBytes
  rw [if_pos h]
  rfl

namespace LockTable

/-- When nobody writes and nobody waits, a reader is let in. -/
theorem request_shared {l : LockTable} (hx : ∀ p, (l.holdersOf p).exclusive = none)
    (hw : l.waiters = []) (c : CallNo) (t : TxnId) (p : PageId) :
    ∃ l', l.request c t p .shared = (l', .granted) ∧
      (∀ q, (l'.holdersOf q).exclusive = none) ∧ l'.waiters = [] := by
  unfold request
  split
  · exact ⟨l, rfl, hx, hw⟩
  · -- Only a writer is in the way of a reader, and there is none.
    have hb : l.blockers t p .shared = [] := by
      unfold blockers
      rw [Holders.blockers_eq_nil]
      intro u _
      refine ⟨?_, fun h => by cases h⟩
      rw [hx p]
      exact fun h => by cases h
    unfold judge
    rw [hb]
    refine ⟨_, rfl, fun q => ?_, ?_⟩
    · rw [holdersOf_grant]
      split
      · exact hx p
      · exact hx q
    · rw [(l.stirred_grant t p .shared).waiters, hw]
      rfl

end LockTable

namespace Pool

/-- No page is dirty or in use, the device lets every page be read, and there is a frame. -/
structure Restful (P : Pool Recency) : Prop where
  coherent : P.Coherent
  bounded : P.Bounded
  readable : ∀ p, P.faults.onRead p = none
  unused : ∀ n, P.cache.handles.get? n = none
  clean : ∀ p, P.owner? p = none
  roomy : 0 < P.cache.capacity
  tracks : P.cache.Tracks

/-- In such a pool any page that is there can be fetched, and it stays such a pool. -/
theorem restful_fetch {P : Pool Recency} (hr : P.Restful) {p : PageId} (hp : P.Has p)
    (t : TxnId) : ∃ Q h, Task.fetchHandle P t p .readOnly = (Q, .ok h) ∧ Q.Restful ∧ P.Quiet Q ∧
      Q.bytesOf h = P.stored p := by
  -- Nothing is pinned or dirty, so any page in memory can be made to leave.
  have hfree : ∀ q f, P.cache.resident.get? q = some f → P.cache.isEvictable f = true := by
    intro q f hq
    rcases hr.coherent.tidy.exists_page hq with ⟨page, hpage, hf, _⟩
    have ho := hr.clean q
    rw [owner?_of_page hpage] at ho
    have hpin : P.cache.isPinned f = false := by
      unfold Cache.isPinned Assoc.values
      rw [List.any_eq_false]
      intro h hm
      rcases List.mem_map.1 hm with ⟨e, he, rfl⟩
      have hn := (Assoc.mem_entries_iff _ e.1 e.2).1 he
      rw [hr.unused] at hn
      cases hn
    simp [Cache.isEvictable, hpin, hf, Page.isDirty, ho]
  have hload := loadImage_of_has hr.coherent.laid hr.bounded hp (hr.readable p)
  rcases fetch_has_room hr.tracks hr.roomy hfree hload with ⟨f, hf⟩
  have htracks := tracks_fetch hr.tracks p
  rcases Task.fetchHandle_cases hr.coherent t p .readOnly with
    ⟨Q, hq, hc, ⟨g, heq, hres⟩ | ⟨e, heq, _⟩⟩
  · have hQ : (P.fetch p).1 = Q := by
      unfold Task.fetchHandle at heq
      cases hfe : P.fetch p with
      | mk R r =>
          rw [hfe] at heq
          cases r with
          | error e => cases heq
          | ok f' => exact congrArg Prod.fst heq
    rw [hQ] at htracks
    refine ⟨Q, _, heq, ⟨hc, hq.bounded hr.bounded, ?_, ?_, ?_, ?_, htracks⟩, hq, ?_⟩
    · intro q
      rw [hq.faults]
      exact hr.readable q
    · intro n
      rw [hq.handles]
      exact hr.unused n
    · intro q
      rw [hq.owner]
      exact hr.clean q
    · rw [hq.capacity]
      exact hr.roomy
    · rw [hc.bytesOf_eq hres, hq.shown, hr.coherent.shown_clean (hr.clean p)]
  · unfold Task.fetchHandle at heq
    cases hfe : P.fetch p with
    | mk R r =>
        rw [hfe] at heq hf
        cases r with
        | error e => cases hf
        | ok f' => cases heq

end Pool

namespace Engine

/-- One call is in progress, and nobody waits. -/
structure Solo {ρ : Type} (E : Engine ρ) (c : CallNo) (call : Call) : Prop where
  unwaited : E.pool.locks.waiters = []
  alone : E.calls.entries = [(c, call)]

section Solo

variable {ρ : Type} {E : Engine ρ} {c : CallNo} {call : Call} (hs : E.Solo c call)

include hs

theorem Solo.get? : E.calls.get? c = some call := by
  rw [← Assoc.mem_entries_iff, hs.alone]
  exact List.mem_singleton.2 rfl

theorem Solo.waiterOf : E.pool.locks.waiterOf c = none := by
  unfold LockTable.waiterOf
  rw [hs.unwaited]
  rfl

theorem Solo.ready : E.ready = some c := by
  have hk : E.calls.keys = [c] := by
    unfold Assoc.keys
    rw [hs.alone]
    rfl
  unfold Engine.ready
  rw [hk]
  simp only [List.find?_cons, hs.waiterOf, Option.isNone_none]

theorem Solo.insert (call' : Call) : (E.calls.insert c call').entries = [(c, call')] := by
  simp [Assoc.insert, Assoc.erase, hs.alone]

theorem Solo.erase : (E.calls.erase c).entries = [] := by
  simp [Assoc.erase, hs.alone]

variable [EvictionOrder ρ]

/-- The call goes to its next point and nothing else happens. -/
theorem settle_go {E' : Engine ρ} (hstep : E.step c = (E', none)) (fuel : Nat) :
    E.settle (fuel + 1) = E'.settle fuel := by
  rw [settle, hs.ready]
  simp only [hstep]

/-- The call ends, and none is left. -/
theorem settle_stop {E' : Engine ρ} {outcome : Outcome}
    (hstep : E.step c = (E', some outcome)) (hcalls : E'.calls.entries = [])
    (hw : E'.pool.locks.waiters = []) (fuel : Nat) :
    E.settle (fuel + 1) = (E', [(c, outcome)]) := by
  have hready : E'.ready = none := by
    unfold Engine.ready Assoc.keys
    rw [hcalls, hw]
    rfl
  have hnone : E'.settle fuel = (E', []) := by
    cases fuel with
    | zero => rfl
    | succ n => rw [settle, hready]
  rw [settle, hs.ready]
  simp only [hstep, hnone]

end Solo

/-- One call is in progress, nobody waits, and nobody may write any page. -/
structure Scanning (E : Engine Recency) (c : CallNo) (call : Call) : Prop
    extends Solo E c call where
  restful : E.pool.Restful
  unlocked : ∀ p, (E.pool.locks.holdersOf p).exclusive = none

/-- A point without a demand, at which the pool is left as it is. -/
theorem step_point {c : CallNo} {E : Engine Recency} {t : TxnId} {task : Task} (task' : Task)
    (hs : E.Scanning c ⟨t, task⟩) (hd : task.demand = none)
    (hrun : task.run E.pool t = (E.pool, .inl task')) :
    ∃ E', E.step c = (E', none) ∧ E'.Scanning c ⟨t, task'⟩ ∧ E'.pool = E.pool := by
  refine ⟨{ E with calls := E.calls.insert c ⟨t, task'⟩ }, ?_, ?_, rfl⟩
  · simp only [step, hs.get?, hd, work, hrun]
  · exact ⟨⟨hs.unwaited, hs.insert _⟩, hs.restful, hs.unlocked⟩

section load

variable {E : Engine Recency} {c : CallNo} {t : TxnId} {cursor : Cursor}
  (hfile : E.pool.tables.get? cursor.file.table = some cursor.file)

include hfile

/-- The scan reads its next page. -/
theorem step_load {goal : Cursor.Goal} (hs : E.Scanning c ⟨t, .load cursor goal⟩)
    (hn : cursor.nextPage < cursor.file.pagesOn E.pool.disk) :
    ∃ E', E.step c = (E', none) ∧
      E'.Scanning c ⟨t, .advance (cursor.load
        (pageRows cursor.file.layout cursor.page (E.pool.stored cursor.page))) goal⟩ ∧
      E'.pool.tables = E.pool.tables ∧ E'.pool.disk = E.pool.disk := by
  rcases LockTable.request_shared hs.unlocked hs.unwaited c t cursor.page with
    ⟨l, hreq, hx, hw⟩
  have hr : (E.pool.setLocks l).Restful :=
    { hs.restful with coherent := hs.restful.coherent.setLocks l }
  have hhas : (E.pool.setLocks l).Has cursor.page := ⟨cursor.file, hfile, hn⟩
  rcases Pool.restful_fetch hr hhas t with ⟨Q, h, hfetch, hrQ, hq, hb⟩
  have hsize : (E.pool.stored cursor.page).size = cursor.file.layout.pageSize := by
    rw [Pool.stored_of_table (p := cursor.page) hfile, TableFile.size_imageOn]
  have hstored : (E.pool.setLocks l).stored = E.pool.stored := Pool.stored_congr rfl rfl
  refine ⟨{ E with
    pool := Q
    calls := E.calls.insert c ⟨t, .advance (cursor.load
      (pageRows cursor.file.layout cursor.page (E.pool.stored cursor.page))) goal⟩ },
    ?_, ?_, ?_, ?_⟩
  · have hrun : Task.run (E.pool.setLocks l) t (.load cursor goal) =
        (Q, .inl (.advance (cursor.load
          (pageRows cursor.file.layout cursor.page (E.pool.stored cursor.page))) goal)) := by
      simp only [Task.run, hfetch, hb, hstored, Task.rowsOn_eq cursor.page hsize]
    have hobey : E.step c = (E.setLocks l).work c ⟨t, .load cursor goal⟩ := by
      simp only [step, hs.get?, Task.demand, hs.waiterOf, hreq, obey]
    rw [hobey]
    have hpool : (E.setLocks l).pool = E.pool.setLocks l := rfl
    simp only [work, hpool, hrun]
    rfl
  · refine ⟨⟨?_, hs.insert _⟩, hrQ, ?_⟩
    · simp only [hq.locks]
      exact hw
    · intro p
      simp only [hq.locks]
      exact hx p
  · exact hq.tables
  · exact hq.disk

end load

/-- From any page on, a scan on its own takes the rows of the pages that are left and ends. -/
theorem settle_drain {c : CallNo} {t : TxnId} (left : Nat) {E : Engine Recency} (cursor : Cursor)
    {taken : List Row}
    (hs : E.Scanning c ⟨t, .advance { cursor with rows := some [] } (.drain taken)⟩)
    (hfile : E.pool.tables.get? cursor.file.table = some cursor.file)
    (hleft : cursor.nextPage + left = cursor.file.pagesOn E.pool.disk) {fuel : Nat}
    (hfuel : 3 * left + 1 ≤ fuel) :
    ∃ E' cursor', E.settle fuel = (E', [(c, .moved cursor' (.ok (.rows
      (taken ++ cursor.file.rowsFrom E.pool.stored cursor.nextPage left))))]) := by
  -- By the pages that are left. A page takes three steps if it has rows and two if it has none,
  -- so any fuel that is enough for three will do.
  induction left generalizing E cursor taken fuel with
  | zero =>
      -- The pages counted are all that are there, so the scan is at its end.
      have hcount := Pool.Bounded.pageCount_eq hs.restful.bounded hfile
      have hn : ¬ cursor.nextPage < cursor.file.pagesOn E.pool.disk := by omega
      have hstep : E.step c = ({ E with calls := E.calls.erase c },
          some (.moved { cursor with rows := some [] } (.ok (.rows taken)))) := by
        simp only [step, hs.get?, Task.demand, work, Task.run, hcount, hn, List.isEmpty_nil,
          decide_false, Bool.and_false, Bool.false_eq_true, if_false, Cursor.answer]
      obtain ⟨n, rfl⟩ : ∃ n, fuel = n + 1 := ⟨fuel - 1, by omega⟩
      refine ⟨{ E with calls := E.calls.erase c }, { cursor with rows := some [] }, ?_⟩
      rw [settle_stop hs.toSolo hstep hs.erase hs.unwaited n]
      simp only [TableFile.rowsFrom, List.range'_zero, List.flatMap_nil, List.append_nil]
  | succ left ih =>
      have hcount := Pool.Bounded.pageCount_eq hs.restful.bounded hfile
      have hn : cursor.nextPage < cursor.file.pagesOn E.pool.disk := by omega
      obtain ⟨n, rfl⟩ : ∃ n, fuel = n + 3 := ⟨fuel - 3, by omega⟩
      -- To the page, then onto it, then past its rows if it has any.
      rcases step_point (.load { cursor with rows := some [] } (.drain taken)) hs rfl (by
        simp only [Task.run, hcount, hn, List.isEmpty_nil, decide_true, Bool.and_self, if_true])
        with ⟨E₁, hstep₁, hs₁, hpool₁⟩
      rcases step_load (hpool₁ ▸ hfile) hs₁ (hpool₁ ▸ hn) with ⟨E₂, hstep₂, hs₂, ht₂, hd₂⟩
      rw [hpool₁] at ht₂ hd₂ hs₂
      have hst₂ : E₂.pool.stored = E.pool.stored := Pool.stored_congr ht₂ hd₂
      rw [settle_go hs.toSolo hstep₁, settle_go hs₁.toSolo hstep₂]
      have hrows : cursor.file.rowsFrom E.pool.stored cursor.nextPage (left + 1) =
          pageRows cursor.file.layout cursor.page (E.pool.stored cursor.page) ++
            cursor.file.rowsFrom E.pool.stored (cursor.nextPage + 1) left := by
        simp only [TableFile.rowsFrom, List.range'_succ, List.flatMap_cons]
        rfl
      rw [hrows]
      have hfile₂ : E₂.pool.tables.get? cursor.file.table = some cursor.file := by
        rw [ht₂]
        exact hfile
      have hleft₂ : cursor.nextPage + 1 + left = cursor.file.pagesOn E₂.pool.disk := by
        rw [hd₂]
        omega
      have hcur : (Cursor.page { cursor with rows := some [] }) = cursor.page := rfl
      rw [hcur] at hs₂
      cases hp : pageRows cursor.file.layout cursor.page (E.pool.stored cursor.page) with
      | nil =>
          simp only [hp] at hs₂
          rcases ih { cursor with nextPage := cursor.nextPage + 1 } hs₂ hfile₂ hleft₂
            (by omega : 3 * left + 1 ≤ n + 1) with ⟨E', cursor', heq⟩
          rw [hst₂] at heq
          exact ⟨E', cursor', heq⟩
      | cons r rest =>
          simp only [hp] at hs₂
          rcases step_point (.advance
            { cursor with nextPage := cursor.nextPage + 1, rows := some [] }
            (.drain (taken ++ r :: rest))) hs₂ rfl rfl with ⟨E₃, hstep₃, hs₃, hpool₃⟩
          rw [settle_go hs₂.toSolo hstep₃]
          rcases ih { cursor with nextPage := cursor.nextPage + 1 } hs₃
            (hpool₃ ▸ hfile₂) (hpool₃ ▸ hleft₂) (by omega : 3 * left + 1 ≤ n) with
            ⟨E', cursor', heq⟩
          rw [hpool₃, hst₂, List.append_assoc] at heq
          exact ⟨E', cursor', heq⟩

/-- A scan on its own ends with the rows of its table, as they are stored. -/
theorem settle_scan {E : Engine Recency} (hr : E.pool.Restful)
    (hx : ∀ p, (E.pool.locks.holdersOf p).exclusive = none) (hw : E.pool.locks.waiters = [])
    (hcalls : E.calls.entries = []) {f : TableFile}
    (hf : E.pool.tables.get? f.table = some f) (t : TxnId) {fuel : Nat}
    (hfuel : 3 * f.pagesOn E.pool.disk + 1 ≤ fuel) :
    ∃ E' cursor, (E.submit t (.advance (Cursor.start { file := f, txn := t }) (.drain []))).2.settle
      fuel = (E', [(⟨E.nextCall⟩, .moved cursor
        (.ok (.rows (f.rowsOf E.pool.stored (f.pagesOn E.pool.disk)))))]) := by
  have hs : Scanning (E.submit t (.advance (Cursor.start { file := f, txn := t }) (.drain []))).2
      ⟨E.nextCall⟩ ⟨t, .advance (Cursor.start { file := f, txn := t }) (.drain [])⟩ :=
    ⟨⟨hw, by simp [submit, Assoc.insert, Assoc.erase, hcalls]⟩, hr, hx⟩
  exact settle_drain (f.pagesOn E.pool.disk) { file := f, txn := t } hs hf
    (Nat.zero_add _) hfuel

end Engine

end RowStore
