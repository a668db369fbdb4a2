import RowStore.Proofs.Footprints
import RowStore.Proofs.Rescan
import RowStore.Proofs.RowMap

/-!
# What a Cursor Says

What a user hears who moves a cursor through a table, while the rows of the table stay
what they are.

The user may ask for rows one by one in two ways, ask whether a row is left, go back to
the first row, and close the cursor, in any order. Behind it all is one number: how many
rows the cursor has passed. A question does not change it, a row that is handed out adds
one, and going back makes it zero. The cursor itself has no such number. It has the rows
that are left of the page it read last, and the number of the page to read next. These
rows and those on the pages from that number on are the rows that the user has not been
given yet, and this is what stays so when a page is read.

A call may wait, and it may fail: when its lock is refused, or no frame can be freed, or
the device does not let the page be read. Pages that it has read until then had no rows,
so the number is what it was. Only the step of a loop closes the cursor when it fails.

Others may be at work all the while, and the table may grow by pages without rows.

## Main definitions

* `Cursor.IsAt`: How many rows of a list a cursor has passed, or that it is closed.
* `Request.answer`, `Request.refused`: What a cursor should say, and where it is then.
* `Law`, `Obeys`: A cursor answers one request as it should, and a row of them.
* `Engine.Talks`: A user moves a cursor while others are at work.
* `Engine.Still`: The rows of a table are these.
* `Engine.Asked`: A call is moving a cursor.
* `Engine.Refuses`: Why a call is refused a page.
* `Engine.Concludes`: A call answers in time, unless it has to wait.

## Theorems

* `Engine.goes_asked`: A call that moves a cursor goes on, or waits, or answers as it should.
* `Engine.asked_ends`: It answers in time, unless it has to wait.
* `Engine.obeys_talks`: A cursor answers all requests as it should.
* `Engine.cursor_hands_out_rows_in_order`: It hands out the rows one after the other.
-/

namespace RowStore

/-! ## The rows from a page on -/

/-- Whether a row is on no page before a number. -/
def Row.isFrom (n : Nat) (row : Row) : Bool := row.place.all fun r => n ≤ r.page.number

theorem filter_pageRows (layout : Layout) (p : PageId) (b : Bytes) (n : Nat) :
    (pageRows layout p b).filter (Row.isFrom n) =
      if n ≤ p.number then pageRows layout p b else [] := by
  have hplace : ∀ row ∈ pageRows layout p b, Row.isFrom n row = decide (n ≤ p.number) := by
    intro row hrow
    rcases mem_pageRows.1 hrow with ⟨s, hs, _⟩
    rw [Row.isFrom, hs]
    rfl
  split
  · rename_i hle
    exact List.filter_eq_self.2 fun row hrow => (hplace row hrow).trans (decide_eq_true hle)
  · rename_i hlt
    refine List.filter_eq_nil_iff.2 fun row hrow => ?_
    rw [hplace row hrow, decide_eq_true_eq]
    exact hlt

namespace TableFile

variable (f : TableFile) (A : PageId → Bytes)

/-- Past the last page there are no rows. -/
theorem filter_rowsOf_past {count n : Nat} (h : count ≤ n) :
    (f.rowsOf A count).filter (Row.isFrom n) = [] := by
  induction count with
  | zero => rfl
  | succ count ih =>
      rw [rowsOf_succ, List.filter_append, ih (Nat.le_of_succ_le h), filter_pageRows,
        if_neg (Nat.not_le_of_lt h), List.append_nil]

/-- The rows from a page on are those on the page and those from the next one on. -/
theorem filter_rowsOf_next {count n : Nat} (h : n < count) :
    (f.rowsOf A count).filter (Row.isFrom n) =
      pageRows f.layout ⟨f.table, n⟩ (A ⟨f.table, n⟩) ++
        (f.rowsOf A count).filter (Row.isFrom (n + 1)) := by
  induction count with
  | zero => cases h
  | succ count ih =>
      rw [rowsOf_succ, List.filter_append, List.filter_append, filter_pageRows, filter_pageRows]
      rcases Nat.lt_succ_iff_lt_or_eq.1 h with hlt | rfl
      · rw [ih hlt, if_pos (Nat.le_of_lt hlt), if_pos (Nat.succ_le_of_lt hlt),
          List.append_assoc]
      · rw [filter_rowsOf_past f A (Nat.le_refl n), filter_rowsOf_past f A (Nat.le_succ n),
          if_pos (Nat.le_refl n), if_neg (Nat.not_succ_le_self n), List.append_nil, List.nil_append,
          List.append_nil]

end TableFile

/-! ## What a cursor should say -/

/-- How many of some rows a cursor has passed, or that it is closed. The other rows are those that
    it has left of the page it read last, and those on the pages from the next one on. -/
def Cursor.IsAt (c : Cursor) (rows : List Row) : Option Nat → Prop
  | none => c.rows = none
  | some k => k ≤ rows.length ∧ ∃ left, c.rows = some left ∧
      left ++ rows.filter (Row.isFrom c.nextPage) = rows.drop k

/-- What the user of a cursor asks for: the first place, be the cursor open or not; whether a row is
    left; a row; or a row as a step of a loop. -/
inductive Request
  | rewind
  | hasNext
  | next
  | step
  deriving DecidableEq

namespace Request

/-- What the cursor is moved for. -/
def goal : Request → Cursor.Goal
  | rewind => .position
  | hasNext => .hasNext
  | next => .next
  | step => .step

/-- The cursor that is moved. -/
def cursor (c : Cursor) : Request → Cursor
  | rewind => c.start
  | hasNext | next | step => c

/-- How many rows the cursor that is moved has passed, or that it is closed. -/
def start (passed : Option Nat) : Request → Option Nat
  | rewind => some 0
  | hasNext | next | step => passed

/-- What a cursor says that has passed some rows or is closed, and where it is then, if no page is
    refused that it needs. -/
def answer (rows : List Row) (passed : Option Nat) :
    Request → Except StoreError Reading × Option Nat
  | rewind => (.ok .positioned, some 0)
  | hasNext => (.ok (.hasNext (passed.any (· < rows.length))), passed)
  | next =>
    match passed.bind (rows[·]?) with
    | some row => (.ok (.row row), passed.map (· + 1))
    | none => (.error .noMoreRows, passed)
  | step =>
    match passed.bind (rows[·]?) with
    | some row => (.ok (.row row), passed.map (· + 1))
    | none => (.ok .exhausted, passed)

/-- Where it is if a page is refused that it needs. A loop does not go on after an error. -/
def refused (passed : Option Nat) : Request → Option Nat
  | rewind => some 0
  | hasNext | next => passed
  | step => none

end Request

/-- Whether an error is that of a page that cannot be had: its lock is refused, or no frame can be
    freed for it, or the device does not let it be read. -/
def StoreError.isRefusal : StoreError → Bool
  | .deadlock _ _ | .noEvictableFrame _ | .io _ => true
  | _ => false

/-- A cursor answers a request as it should, or a page is refused that it needs. A closed cursor
    needs no page. -/
inductive Law (rows : List Row) (q : Request) (passed : Option Nat) :
    Except StoreError Reading → Option Nat → Prop
  | answers : Law rows q passed (q.answer rows passed).1 (q.answer rows passed).2
  | refused {e : StoreError} (hopen : q.start passed ≠ none) (he : e.isRefusal = true) :
      Law rows q passed (.error e) (q.refused passed)

/-- What a user does with a cursor: it closes it, or asks for something and is answered. -/
inductive Turn
  | close
  | call (q : Request) (reading : Except StoreError Reading)

/-- A cursor answers one request after the other as it should. -/
inductive Obeys (rows : List Row) : Option Nat → List Turn → Option Nat → Prop
  | nil {passed : Option Nat} : Obeys rows passed [] passed
  | close {passed passed' : Option Nat} {turns : List Turn} (h : Obeys rows none turns passed') :
      Obeys rows passed (.close :: turns) passed'
  | call {passed mid passed' : Option Nat} {q : Request} {reading : Except StoreError Reading}
      {turns : List Turn} (hlaw : Law rows q passed reading mid)
      (h : Obeys rows mid turns passed') : Obeys rows passed (.call q reading :: turns) passed'

/-- The rows that an answer hands out, if it is no error. -/
def Reading.handed : Except StoreError Reading → List Row
  | .ok reading => reading.given
  | .error _ => []

/-- The rows that were handed out since the cursor was sent to the first row for the last time. -/
def handedOut : List Row → List Turn → List Row
  | out, [] => out
  | out, .close :: turns => handedOut out turns
  | _, .call .rewind _ :: turns => handedOut [] turns
  | out, .call _ reading :: turns => handedOut (out ++ Reading.handed reading) turns

section obeys

variable {rows : List Row}

/-- Those that were handed out are the rows that the cursor has passed, after a request as well. -/
theorem Law.handed {q : Request} (hq : q ≠ .rewind) {passed passed' : Option Nat}
    {reading : Except StoreError Reading} (h : Law rows q passed reading passed') {k : Nat}
    (hk : k ≤ rows.length) (hpassed : ∀ j, passed = some j → j = k) :
    ∃ k' ≤ rows.length, rows.take k ++ Reading.handed reading = rows.take k' ∧
      ∀ j, passed' = some j → j = k' := by
  have hsame : ∀ passed' reading, Reading.handed reading = [] →
      (∀ j, passed' = some j → passed = some j) → ∃ k' ≤ rows.length,
        rows.take k ++ Reading.handed reading = rows.take k' ∧ ∀ j, passed' = some j → j = k' :=
    fun passed' reading hnone hkeep =>
      ⟨k, hk, by rw [hnone, List.append_nil], fun j hj => hpassed j (hkeep j hj)⟩
  -- A row is handed out only if the cursor is open and there is one.
  have hnext : ∀ row, passed.bind (rows[·]?) = some row → ∃ k' ≤ rows.length,
      rows.take k ++ Reading.handed (.ok (.row row)) = rows.take k' ∧
        ∀ j, passed.map (· + 1) = some j → j = k' := by
    intro row hrow
    rcases Option.bind_eq_some_iff.1 hrow with ⟨j, rfl, hj⟩
    cases hpassed j rfl
    refine ⟨k + 1, (List.getElem?_eq_some_iff.1 hj).1, ?_, fun i hi => (Option.some.inj hi).symm⟩
    rw [List.take_add_one, hj]
    rfl
  cases h with
  | refused hopen he =>
      refine hsame _ _ rfl fun j hj => ?_
      cases q with
      | rewind => exact absurd rfl hq
      | hasNext | next => exact hj
      | step => cases hj
  | answers =>
      cases q with
      | rewind => exact absurd rfl hq
      | hasNext => exact hsame _ _ rfl fun _ => id
      | next | step =>
          simp only [Request.answer]
          split
          · rename_i row hrow
            exact hnext row hrow
          · exact hsame _ _ rfl fun _ => id

/-- And after a row of requests. -/
theorem Obeys.handedOut {passed passed' : Option Nat} {turns : List Turn}
    (h : Obeys rows passed turns passed') {k : Nat} (hk : k ≤ rows.length)
    (hpassed : ∀ j, passed = some j → j = k) :
    ∃ k' ≤ rows.length, RowStore.handedOut (rows.take k) turns = rows.take k' ∧
      ∀ j, passed' = some j → j = k' := by
  induction h generalizing k with
  | nil => exact ⟨k, hk, rfl, hpassed⟩
  | close _ ih => exact ih hk fun j hj => by cases hj
  | @call passed mid passed' q reading turns hlaw _ ih =>
      by_cases hq : q = .rewind
      · subst hq
        have hstart : mid = some 0 := by cases hlaw <;> rfl
        exact ih (Nat.zero_le _) fun j hj => Option.some.inj (hj.symm.trans hstart)
      · rcases hlaw.handed hq hk hpassed with ⟨k', hk', hout, hpassed'⟩
        have hturn : RowStore.handedOut (rows.take k) (.call q reading :: turns) =
            RowStore.handedOut (rows.take k') turns := by
          rw [← hout]
          cases q with
          | rewind => exact absurd rfl hq
          | hasNext | next | step => rfl
        rw [hturn]
        exact ih hk' hpassed'

end obeys

namespace Cursor

/-! ## Where a cursor is -/

variable {c : Cursor} {rows : List Row}

/-- A cursor that has a row left is before it, and has passed it when it is taken. -/
theorem IsAt.row {k : Nat} (h : c.IsAt rows (some k)) {row : Row} {rest : List Row}
    (hrows : c.rows = some (row :: rest)) :
    rows[k]? = some row ∧ IsAt { c with rows := some rest } rows (some (k + 1)) := by
  rcases h with ⟨_, left, hleft, heq⟩
  cases hrows.symm.trans hleft
  have hrow : rows[k]? = some row := by
    rw [← List.head?_drop, ← heq]
    rfl
  refine ⟨hrow, (List.getElem?_eq_some_iff.1 hrow).1, rest, rfl, ?_⟩
  rw [← List.drop_drop, ← heq]
  rfl

theorem isAt_start (c : Cursor) (rows : List Row) : c.start.IsAt rows (some 0) := by
  refine ⟨Nat.zero_le _, [], rfl, List.filter_eq_self.2 fun row _ => ?_⟩
  rw [Row.isFrom]
  cases row.place with
  | none => rfl
  | some r => exact decide_eq_true (Nat.zero_le r.page.number)

/-- A cursor that is refused is where the request leaves it. -/
theorem isAt_refuse {q : Request} {passed : Option Nat} (h : c.IsAt rows (q.start passed)) :
    (c.refuse q.goal).IsAt rows (q.refused passed) := by
  cases q with
  | step => rfl
  | rewind | hasNext | next => exact h

variable {f : TableFile} {A : PageId → Bytes} {count : Nat}

/-- A cursor that has no row left and no next page has passed all rows. -/
theorem IsAt.done {k : Nat} (h : c.IsAt (f.rowsOf A count) (some k)) (hrows : c.rows = some [])
    (hpast : count ≤ c.nextPage) : k = (f.rowsOf A count).length := by
  rcases h with ⟨hk, left, hleft, heq⟩
  cases hrows.symm.trans hleft
  rw [List.nil_append, f.filter_rowsOf_past A hpast] at heq
  exact Nat.le_antisymm hk (List.drop_eq_nil_iff.1 heq.symm)

/-- When the next page is read, its rows are left in the place of those that were still to come. -/
theorem IsAt.load {passed : Option Nat} (h : c.IsAt (f.rowsOf A count) passed)
    (hrows : c.rows = some []) (hmore : c.nextPage < count) :
    (c.load (pageRows f.layout ⟨f.table, c.nextPage⟩ (A ⟨f.table, c.nextPage⟩))).IsAt
      (f.rowsOf A count) passed := by
  cases passed with
  | none => cases hrows.symm.trans h
  | some k =>
      rcases h with ⟨hk, left, hleft, heq⟩
      cases hrows.symm.trans hleft
      rw [List.nil_append, f.filter_rowsOf_next A hmore] at heq
      exact ⟨hk, _, rfl, heq⟩

end Cursor

/-- An answer is not the error of a page that cannot be had. -/
theorem Request.not_isRefusal {rows : List Row} {passed : Option Nat} {q : Request} {e : StoreError}
    (h : (q.answer rows passed).1 = .error e) : e.isRefusal = false := by
  cases q with
  | rewind | hasNext => cases h
  | next | step =>
      simp only [answer] at h
      split at h
      · cases h
      · cases h <;> rfl

namespace Cursor

variable {c : Cursor} {rows : List Row} {q : Request} {passed : Option Nat}

/-- An open cursor that needs no page answers as it should. -/
theorem answer_right (h : c.IsAt rows (q.start passed)) {left : List Row}
    (hrows : c.rows = some left)
    (hlast : ∀ k, left = [] → q.start passed = some k → k = rows.length) :
    (c.answer left q.goal).2 = (q.answer rows passed).1 ∧
      (c.answer left q.goal).1.IsAt rows (q.answer rows passed).2 := by
  cases hstart : q.start passed with
  | none =>
      rw [hstart] at h
      cases hrows.symm.trans h
  | some k =>
      rw [hstart] at h
      cases left with
      | nil =>
          -- No row is left, and no page to read: all rows have been passed.
          have hdone := hlast k rfl hstart
          cases q with
          | rewind =>
              cases hstart
              exact ⟨rfl, h⟩
          | hasNext | next | step =>
              cases hstart
              simpa [answer, Request.goal, Request.answer, ← hdone] using h
      | cons row rest =>
          -- The first row that is left is the next of all rows.
          rcases h.row hrows with ⟨hrow, hnext⟩
          rcases List.getElem?_eq_some_iff.1 hrow with ⟨hlt, hget⟩
          cases q with
          | rewind =>
              cases hstart
              exact ⟨rfl, h⟩
          | hasNext =>
              cases hstart
              simpa [answer, Request.goal, Request.answer, hlt] using h
          | next | step =>
              cases hstart
              simpa [answer, Request.goal, Request.answer, hlt, hget] using hnext

/-- So does a closed one. -/
theorem answerClosed_right (h : c.IsAt rows (q.start passed)) (hrows : c.rows = none) :
    (c.answerClosed q.goal).2 = (q.answer rows passed).1 ∧
      (c.answerClosed q.goal).1.IsAt rows (q.answer rows passed).2 := by
  cases hstart : q.start passed with
  | some k =>
      rw [hstart] at h
      rcases h with ⟨_, left, hleft, _⟩
      cases hrows.symm.trans hleft
  | none =>
      cases q with
      | rewind => cases hstart
      | hasNext | next | step =>
          cases hstart
          exact ⟨rfl, hrows⟩

theorem answer_file (c : Cursor) (left : List Row) (goal : Goal) :
    (c.answer left goal).1.file = c.file := by
  cases goal with
  | next | step => cases left <;> rfl
  | position | hasNext | drain => rfl

theorem answerClosed_file (c : Cursor) (goal : Goal) : (c.answerClosed goal).1.file = c.file := by
  cases goal <;> rfl

theorem refuse_file (c : Cursor) (goal : Goal) : (c.refuse goal).file = c.file := by
  cases goal <;> rfl

end Cursor

/-! ## Pages that cannot be had -/

namespace Pool

variable {ρ : Type} [EvictionOrder ρ] {P Q : Pool ρ} {p : PageId} {e : StoreError}

/-- Why a page that is there cannot be fetched: the device does not let it be read, or memory is
    full and no page may leave. -/
inductive Withholds (P : Pool ρ) (p : PageId) : StoreError → Prop
  | device {fault : IoFault} (hfault : P.faults.onRead p = some fault) : Withholds P p (.io fault)
  | crowded (hfull : P.cache.capacity ≤ P.cache.size) (hstay : P.cache.evict.2 = false) :
      Withholds P p (.noEvictableFrame P.cache.capacity)

theorem Withholds.isRefusal (h : P.Withholds p e) : e.isRefusal = true := by
  cases h <;> rfl

theorem withholds_of_fetch (hl : P.Laid) (hb : P.Bounded) (hhas : P.Has p)
    (h : P.fetch p = (Q, .error e)) : P.Withholds p e := by
  unfold fetch at h
  cases hr : P.cache.resident.get? p with
  | some f =>
      -- A page in memory can be had whatever the device does.
      rw [hr] at h
      cases h
  | none =>
      rw [hr] at h
      cases hfault : P.faults.onRead p with
      | some fault =>
          rcases hhas with ⟨f, hf, _⟩
          simp only [loadImage, table, hf, bind, Except.bind, hfault] at h
          cases h
          exact .device hfault
      | none =>
          simp only [loadImage_of_has hl hb hhas hfault, Cache.takeIn] at h
          by_cases hs : P.cache.size < P.cache.capacity
          · rw [if_pos hs] at h
            cases h
          · rw [if_neg hs] at h
            cases hevict : P.cache.evict with
            | mk cache vacated =>
                rw [hevict] at h
                cases vacated with
                | true => cases h
                | false =>
                    cases h
                    exact .crowded (Nat.le_of_not_lt hs) (congrArg Prod.snd hevict)

end Pool

/-! ## A call that moves a cursor -/

namespace Task

variable {ρ : Type} [EvictionOrder ρ] {P Q : Pool ρ} {t : TxnId}

/-- The next page of a cursor is read, if it is there and can be fetched. -/
theorem run_load_has (hc : P.Coherent) (hb : P.Bounded) {cursor : Cursor}
    (hf : P.tables.get? cursor.file.table = some cursor.file) (hhas : P.Has cursor.page)
    (goal : Cursor.Goal) :
    (∃ Q, Q.shown = P.shown ∧ Q.disk = P.disk ∧ run P t (.load cursor goal) =
      (Q, .inl (.advance (cursor.load
        (pageRows cursor.file.layout cursor.page (P.shown cursor.page))) goal))) ∨
    ∃ Q e, P.Withholds cursor.page e ∧ run P t (.load cursor goal) =
      (Q, .inr (.moved (cursor.refuse goal) (.error e))) := by
  simp only [run]
  cases hfetch : fetchHandle P t cursor.page .readOnly with
  | mk Q r =>
      cases r with
      | error e =>
          have hfails : P.fetch cursor.page = (Q, .error e) := by
            unfold fetchHandle at hfetch
            split at hfetch
            · cases hfetch
            · rename_i heq
              cases hfetch
              exact heq
          exact Or.inr ⟨Q, e, Pool.withholds_of_fetch hc.laid hb hhas hfails, rfl⟩
      | ok h =>
          rcases fetched_shown hc hfetch with ⟨f, rfl, hquiet, _, _, hbytes, _⟩
          have hsize := hc.size_shown (p := cursor.page) hf
          refine Or.inl ⟨Q, hquiet.shown, hquiet.disk, ?_⟩
          simp only [hbytes, rowsOn_eq _ hsize]

end Task

namespace Engine

variable {ρ : Type} [EvictionOrder ρ]

/-- A call is moving a cursor for a request, and needs no more than so many steps if it need not
    wait: it is to go on with the rows that it has, or to read a page that is there. -/
inductive Asked (E : Engine ρ) (c : CallNo) (f : TableFile) (rows : List Row) (q : Request)
    (passed : Option Nat) (steps : Nat) : Prop
  | advances {t : TxnId} {cursor : Cursor}
      (hcall : E.calls.get? c = some ⟨t, .advance cursor q.goal⟩) (hfile : cursor.file = f)
      (hat : cursor.IsAt rows (q.start passed))
      (hsteps : 2 * (f.pagesOn E.pool.disk - cursor.nextPage) < steps)
  | loads {t : TxnId} {cursor : Cursor}
      (hcall : E.calls.get? c = some ⟨t, .load cursor q.goal⟩) (hfile : cursor.file = f)
      (hat : cursor.IsAt rows (q.start passed)) (hrows : cursor.rows = some [])
      (hmore : cursor.nextPage < f.pagesOn E.pool.disk)
      (hsteps : 2 * (f.pagesOn E.pool.disk - cursor.nextPage) ≤ steps)

/-- A call cannot go on: it sleeps until its lock is free, or comes to. -/
def Stalls (E : Engine ρ) (c : CallNo) : Prop :=
  ∃ call, E.calls.get? c = some call ∧
    (E.ruling c = none ∨ ∃ locks, E.ruling c = some (call, locks, .waits))

/-- Why a call is refused a page of a table: it would have to wait for a transaction that waits for
    it, or the page cannot be fetched. -/
inductive Refuses (E : Engine ρ) (c : CallNo) (f : TableFile) : StoreError → Prop
  | lock {call : Call} {locks : LockTable} {n : Nat} (hn : n < f.pagesOn E.pool.disk)
      (hrule : E.ruling c = some (call, locks, .deadlock)) :
      Refuses E c f (.deadlock call.txn ⟨f.table, n⟩)
  | page {e : StoreError} {n : Nat} (hn : n < f.pagesOn E.pool.disk)
      (h : E.pool.Withholds ⟨f.table, n⟩ e) : Refuses E c f e

theorem Refuses.isRefusal {E : Engine ρ} {c : CallNo} {f : TableFile} {e : StoreError}
    (h : E.Refuses c f e) : e.isRefusal = true := by
  cases h with
  | lock => rfl
  | page _ h => exact h.isRefusal

/-- What comes of a step of a call that moves a cursor: it answers, and there is a cause if it is
    refused a page; or it cannot go on; or it goes on, and has changed nothing of the tables. -/
inductive Brings (E : Engine ρ) (c : CallNo) (f : TableFile) (rows : List Row) (q : Request)
    (passed : Option Nat) (steps : Nat) : Prop
  | answers {cursor : Cursor} {reading : Except StoreError RowStore.Reading} {passed' : Option Nat}
      (ho : (E.step c).2 = some (.moved cursor reading)) (hfile : cursor.file = f)
      (hat : cursor.IsAt rows passed') (hlaw : Law rows q passed reading passed')
      (hwhy : ∀ e, reading = .error e → e.isRefusal = true → E.Refuses c f e)
  | stalls (hnone : (E.step c).2 = none) (hstalls : E.Stalls c)
      (hasked : (E.step c).1.Asked c f rows q passed steps)
  | goes (fewer : Nat) (hnone : (E.step c).2 = none) (hless : fewer < steps)
      (hasked : (E.step c).1.Asked c f rows q passed fewer)
      (hshown : (E.step c).1.pool.shown = E.pool.shown)
      (hdisk : (E.step c).1.pool.disk = E.pool.disk)

section asked

variable {E : Engine ρ} {c : CallNo} {f : TableFile} {rows : List Row} {q : Request}
  {passed : Option Nat} {steps : Nat}

/-- An answer that is as it should be is none of the errors for which there has to be a cause. -/
theorem brings_right {cursor : Cursor} {reading : Except StoreError RowStore.Reading}
    (ho : (E.step c).2 = some (.moved cursor reading)) (hfile : cursor.file = f)
    (hreading : reading = (q.answer rows passed).1)
    (hat : cursor.IsAt rows (q.answer rows passed).2) : E.Brings c f rows q passed steps := by
  refine .answers ho hfile hat (hreading ▸ .answers) fun e he hrefusal => ?_
  rw [Request.not_isRefusal (hreading.symm.trans he)] at hrefusal
  cases hrefusal

/-- A call that is refused a page answers as it should, too: its cursor is open. -/
theorem brings_refused {cursor : Cursor} {e : StoreError} (he : E.Refuses c f e)
    (ho : (E.step c).2 = some (.moved (cursor.refuse q.goal) (.error e))) (hfile : cursor.file = f)
    (hat : cursor.IsAt rows (q.start passed)) (hrows : cursor.rows = some []) :
    E.Brings c f rows q passed steps := by
  have hopen : q.start passed ≠ none := by
    intro hnone
    rw [hnone] at hat
    cases hrows.symm.trans hat
  refine .answers ho ((cursor.refuse_file q.goal).trans hfile) (Cursor.isAt_refuse hat)
    (.refused hopen he.isRefusal) fun e' he' _ => ?_
  cases he'
  exact he

/-- A call that moves a cursor answers as it should, or goes on to the next page. -/
theorem goes_advance (hb : E.pool.Bounded) (hf : E.pool.tables.get? f.table = some f)
    (hstill : f.rowsOf E.pool.shown (f.pagesOn E.pool.disk) = rows) {t : TxnId} {cursor : Cursor}
    (hcall : E.calls.get? c = some ⟨t, .advance cursor q.goal⟩) (hfile : cursor.file = f)
    (hat : cursor.IsAt rows (q.start passed))
    (hsteps : 2 * (f.pagesOn E.pool.disk - cursor.nextPage) < steps) :
    E.Brings c f rows q passed steps := by
  have hstep : E.step c = E.work c ⟨t, .advance cursor q.goal⟩ := by
    simp only [step, hcall, Task.demand]
  have hcount : cursor.file.pageCount E.pool.disk = f.pagesOn E.pool.disk := by
    rw [hfile]
    exact hb.pageCount_eq hf
  cases hrows : cursor.rows with
  | none =>
      rcases Cursor.answerClosed_right hat hrows with ⟨hreading, hat'⟩
      refine brings_right ?_ ((cursor.answerClosed_file q.goal).trans hfile) hreading hat'
      rw [hstep]
      simp only [work, Task.run, hrows]
  | some left =>
      rcases Task.run_advance (P := E.pool) (t := t) hrows q.goal with
        ⟨taken, hdrain, _⟩ | ⟨rfl, hmore, heq⟩ | ⟨_, hpast, heq⟩
      · cases q <;> cases hdrain
      · have hmoved := hstep.trans (work_goes heq)
        rw [hcount] at hmore
        refine .goes _ (by rw [hmoved]) hsteps ?_ (by rw [hmoved]) (by rw [hmoved])
        rw [hmoved]
        exact .loads (Assoc.get?_insert_self _ _ _) hfile hat hrows hmore (Nat.le_refl _)
      · have hlast : ∀ k, left = [] → q.start passed = some k → k = rows.length := by
          rintro k rfl hstart
          rw [hstart, ← hstill] at hat
          rw [← hstill]
          exact hat.done hrows (hcount ▸ hpast rfl)
        rcases Cursor.answer_right hat hrows hlast with ⟨hreading, hat'⟩
        refine brings_right ?_ ((cursor.answer_file left q.goal).trans hfile) hreading hat'
        rw [hstep, work, heq]

/-- A call that waits for the page to read goes on waiting, or reads it, or is refused. -/
theorem goes_load (hs : E.Sited) (hb : E.pool.Bounded) (hf : E.pool.tables.get? f.table = some f)
    (hstill : f.rowsOf E.pool.shown (f.pagesOn E.pool.disk) = rows) {t : TxnId} {cursor : Cursor}
    (hcall : E.calls.get? c = some ⟨t, .load cursor q.goal⟩) (hfile : cursor.file = f)
    (hat : cursor.IsAt rows (q.start passed)) (hrows : cursor.rows = some [])
    (hmore : cursor.nextPage < f.pagesOn E.pool.disk)
    (hsteps : 2 * (f.pagesOn E.pool.disk - cursor.nextPage) ≤ steps) :
    E.Brings c f rows q passed steps := by
  have hpage : cursor.page = ⟨f.table, cursor.nextPage⟩ := by rw [Cursor.page, hfile]
  -- It sleeps; or it has its lock; or it has to wait for it; or to wait would be a deadlock.
  rcases E.step_cases c with ⟨hrule, heq⟩ | ⟨call, locks, hrule, heq⟩ | ⟨call, locks, hrule, heq⟩ |
    ⟨call, locks, page, mode, hrule, hdemand, heq⟩
  · refine .stalls (by rw [heq]) ⟨_, hcall, Or.inl hrule⟩ ?_
    rw [heq]
    exact .loads hcall hfile hat hrows hmore hsteps
  · cases hcall.symm.trans (get?_of_ruling hrule)
    have hhas : (E.setLocks locks).pool.Has cursor.page := by
      rw [hpage]
      exact ⟨f, hf, hmore⟩
    rcases Task.run_load_has (P := (E.setLocks locks).pool) (t := t)
      (hs.coherent.setLocks locks) hb (hfile ▸ hf) hhas q.goal with
      ⟨Q, hshown, hdisk, hrun⟩ | ⟨Q, e, he, hrun⟩
    · have hmoved := heq.trans (work_goes hrun)
      have hread : (cursor.load (pageRows cursor.file.layout cursor.page
          ((E.setLocks locks).pool.shown cursor.page))).IsAt rows (q.start passed) := by
        rw [← hstill] at hat ⊢
        rw [hpage, hfile]
        exact hat.load hrows hmore
      have hafter : (E.step c).1.pool.disk = E.pool.disk := by
        rw [hmoved]
        exact hdisk
      refine .goes (2 * (f.pagesOn E.pool.disk - (cursor.nextPage + 1)) + 1) (by rw [hmoved])
        (by omega) ?_ (by rw [hmoved]; exact hshown) hafter
      have hnext : (cursor.load (pageRows cursor.file.layout cursor.page
          ((E.setLocks locks).pool.shown cursor.page))).file = f := hfile
      refine .advances (t := t) ?_ hnext hread ?_
      · rw [hmoved]
        exact Assoc.get?_insert_self _ _ _
      · rw [hafter]
        exact Nat.lt_succ_self _
    · have hwhy : E.pool.Withholds ⟨f.table, cursor.nextPage⟩ e := by
        rw [← hpage]
        cases he with
        | device hfault => exact .device hfault
        | crowded hfull hstay => exact .crowded hfull hstay
      exact brings_refused (.page hmore hwhy) (by rw [heq, work, hrun]) hfile hat hrows
  · refine .stalls (by rw [heq]) ?_ ?_
    · cases hcall.symm.trans (get?_of_ruling hrule)
      exact ⟨_, hcall, Or.inr ⟨locks, hrule⟩⟩
    · rw [heq]
      exact .loads hcall hfile hat hrows hmore hsteps
  · cases hcall.symm.trans (get?_of_ruling hrule)
    cases hdemand
    exact brings_refused (.lock hmore hrule) (by rw [heq, ← hpage]; rfl) hfile hat hrows

/-- So a step of a call that moves a cursor is one of the three. -/
theorem goes_asked (hs : E.Sited) (hb : E.pool.Bounded)
    (hf : E.pool.tables.get? f.table = some f)
    (hstill : f.rowsOf E.pool.shown (f.pagesOn E.pool.disk) = rows)
    (ha : E.Asked c f rows q passed steps) : E.Brings c f rows q passed steps := by
  cases ha with
  | advances hcall hfile hat hsteps => exact goes_advance hb hf hstill hcall hfile hat hsteps
  | loads hcall hfile hat hrows hmore hsteps =>
      exact goes_load hs hb hf hstill hcall hfile hat hrows hmore hsteps

omit [EvictionOrder ρ] in
/-- It needs at most two steps for a page. -/
theorem Asked.within (ha : E.Asked c f rows q passed steps) :
    E.Asked c f rows q passed (2 * f.pagesOn E.pool.disk + 1) := by
  cases ha with
  | advances hcall hfile hat _ => exact .advances hcall hfile hat (by omega)
  | loads hcall hfile hat hrows hmore _ => exact .loads hcall hfile hat hrows hmore (by omega)

omit [EvictionOrder ρ] in
/-- It needs a step at least. -/
theorem Asked.pos (ha : E.Asked c f rows q passed steps) : 0 < steps := by
  cases ha with
  | advances _ _ _ hsteps => exact Nat.zero_lt_of_lt hsteps
  | loads _ _ _ _ hmore hsteps => omega

end asked

/-! ## What is said in a while -/

/-- What is asked of a move: files are changed only through the pool, and the rows of the table are
    these when it is made. -/
def Still (f : TableFile) (rows : List Row) (E : Engine ρ) (m : Move ρ) : Prop :=
  E.Placed m ∧ f.rowsOf E.pool.shown (f.pagesOn E.pool.disk) = rows

instance (f : TableFile) (rows : List Row) (E : Engine ρ) (m : Move ρ) :
    Decidable (E.Still f rows m) :=
  inferInstanceAs (Decidable (E.Placed m ∧ f.rowsOf E.pool.shown (f.pagesOn E.pool.disk) = rows))

/-- A user asked for something in one state, and in another one the call is to take a step and has
    not been answered. Others may have been at work meanwhile. -/
inductive Awaits (ok : Engine ρ → Move ρ → Prop) (E : Engine ρ) (cursor : Cursor) (q : Request) :
    Engine ρ → Prop
  | mk (ms : List (Move ρ))
      (hask : ok E (.event (.submit cursor.txn (.advance (q.cursor cursor) q.goal))))
      (hms : (E.submit cursor.txn (.advance (q.cursor cursor) q.goal)).2.Admits
        (fun E' m => ok E' m ∧ E'.goesOn ⟨E.nextCall⟩ m = true) ms)
      (hstep : ok ((E.submit cursor.txn (.advance (q.cursor cursor) q.goal)).2.moves ms)
        (.event (.step ⟨E.nextCall⟩))) :
      Awaits ok E cursor q ((E.submit cursor.txn (.advance (q.cursor cursor) q.goal)).2.moves ms)

/-- A user moves a cursor along a run of moves of which something is asked. Between its calls others
    are at work too. -/
inductive Talks (ok : Engine ρ → Move ρ → Prop) :
    Engine ρ → Cursor → List Turn → Engine ρ → Cursor → Prop
  | nil {E : Engine ρ} {cursor : Cursor} : Talks ok E cursor [] E cursor
  | rest {E F : Engine ρ} {cursor cursor' : Cursor} {m : Move ρ} {turns : List Turn} (hm : ok E m)
      (h : Talks ok (E.move m) cursor turns F cursor') : Talks ok E cursor turns F cursor'
  | close {E F : Engine ρ} {cursor cursor' : Cursor} {turns : List Turn}
      (h : Talks ok E cursor.close turns F cursor') : Talks ok E cursor (.close :: turns) F cursor'
  | call {E F G H : Engine ρ} {cursor mid cursor' : Cursor} {q : Request}
      {reading : Except StoreError RowStore.Reading} {turns : List Turn}
      (hawaits : E.Awaits ok cursor q G)
      (ha : G.step ⟨E.nextCall⟩ = (H, some (.moved mid reading)))
      (h : Talks ok H mid turns F cursor') : Talks ok E cursor (.call q reading :: turns) F cursor'

/-- Left alone, a call answers after at most two steps for a page of a table, unless it has to wait.
    There is a cause if it is refused a page. -/
def Concludes (E : Engine ρ) (c : CallNo) (f : TableFile) : Prop :=
  ∃ n ≤ 2 * f.pagesOn E.pool.disk,
    (E.moves (List.replicate n (.event (.step c)))).Stalls c ∨
      ∃ cursor reading, ((E.moves (List.replicate n (.event (.step c)))).step c).2 =
        some (.moved cursor reading) ∧ ∀ e, reading = .error e → e.isRefusal = true →
          (E.moves (List.replicate n (.event (.step c)))).Refuses c f e

section talks

variable {E : Engine ρ} {f : TableFile} {rows : List Row} {q : Request} {passed : Option Nat}

omit [EvictionOrder ρ] in
/-- A call that begins is moving its cursor. -/
theorem asked_submit {cursor : Cursor} (hfile : cursor.file = f) (hat : cursor.IsAt rows passed) :
    (E.submit cursor.txn (.advance (q.cursor cursor) q.goal)).2.Asked ⟨E.nextCall⟩ f rows q passed
      (2 * f.pagesOn E.pool.disk + 1) := by
  have hfile' : (q.cursor cursor).file = f := by cases q <;> exact hfile
  have hat' : (q.cursor cursor).IsAt rows (q.start passed) := by
    cases q with
    | rewind => exact cursor.isAt_start rows
    | hasNext | next | step => exact hat
  refine .advances (t := cursor.txn) (Assoc.get?_insert_self _ _ _) hfile' hat' ?_
  have hpages : f.pagesOn (E.submit cursor.txn (.advance (q.cursor cursor) q.goal)).2.pool.disk =
      f.pagesOn E.pool.disk := rfl
  omega

variable {c : CallNo} {steps : Nat} (h : E.Arises Placed)
  (hf : E.pool.tables.get? f.table = some f) (ha : E.Asked c f rows q passed steps)

include h hf ha

/-- It is so after every move by which it does not end. -/
theorem asked_move {m : Move ρ} (hm : E.Still f rows m) (hgoes : E.goesOn c m = true) :
    ∃ steps', (E.move m).Asked c f rows q passed steps' := by
  have hs := h.sited fun _ _ => id
  by_cases hstep : m = .event (.step c)
  · subst hstep
    have hnone : (E.step c).2 = none := by simpa [goesOn, Move.isStep] using hgoes
    cases goes_asked hs hm.1.1 hf hm.2 ha with
    | answers ho _ _ _ _ => cases hnone.symm.trans ho
    | stalls _ _ hasked => exact ⟨_, hasked⟩
    | goes _ _ _ hasked _ _ => exact ⟨_, hasked⟩
  · -- Another move leaves the call as it is, and the table has no fewer pages after it.
    have hlonger := longer_move hs hm.1 _ f hf
    cases ha with
    | advances hcall hfile hat _ =>
        exact ⟨_, .advances (get?_move_other h.listed hcall hstep) hfile hat (Nat.lt_succ_self _)⟩
    | loads hcall hfile hat hrows hmore _ =>
        exact ⟨_, .loads (get?_move_other h.listed hcall hstep) hfile hat hrows
          (Nat.lt_of_lt_of_le hmore hlonger) (Nat.le_refl _)⟩

/-- And after a run of them. -/
theorem asked_moves {ms : List (Move ρ)}
    (hms : E.Admits (fun E m => E.Still f rows m ∧ E.goesOn c m = true) ms) :
    (E.moves ms).Arises Placed ∧ (E.moves ms).pool.tables.get? f.table = some f ∧
      ∃ steps', (E.moves ms).Asked c f rows q passed steps' := by
  induction ms generalizing E steps with
  | nil => exact ⟨h, hf, steps, ha⟩
  | cons m rest ih =>
      rcases hms with ⟨⟨hm, hgoes⟩, hrest⟩
      rcases asked_move h hf ha hm hgoes with ⟨steps', ha'⟩
      exact ih (.move h hm.1) (known_move hm.1 hf) ha' hrest

/-- When nobody else moves, the call answers after so many steps, or it has to wait. There is a
    cause if it is refused a page. -/
theorem asked_ends (hm : E.Still f rows (.event (.step c))) :
    ∃ n < steps, (E.moves (List.replicate n (.event (.step c)))).Stalls c ∨
      ∃ cursor reading, ((E.moves (List.replicate n (.event (.step c)))).step c).2 =
        some (.moved cursor reading) ∧ ∀ e, reading = .error e → e.isRefusal = true →
          (E.moves (List.replicate n (.event (.step c)))).Refuses c f e := by
  induction steps using Nat.strongRecOn generalizing E with
  | ind steps ih =>
      cases goes_asked (h.sited fun _ _ => id) hm.1.1 hf hm.2 ha with
      | answers ho _ _ _ hwhy => exact ⟨0, ha.pos, Or.inr ⟨_, _, ho, hwhy⟩⟩
      | stalls _ hstalls _ => exact ⟨0, ha.pos, Or.inl hstalls⟩
      | goes fewer _ hless hasked hshown hdisk =>
          -- Nothing of the table has changed, so the next step finds the same rows.
          have htables : (E.step c).1.pool.tables = E.pool.tables := E.tables_exec (.step c)
          have hbounded : (E.step c).1.pool.Bounded := by
            intro u g hg
            rw [hdisk]
            exact hm.1.1 u g (htables ▸ hg)
          have hstill : f.rowsOf (E.step c).1.pool.shown (f.pagesOn (E.step c).1.pool.disk) =
              rows := by
            rw [hshown, hdisk]
            exact hm.2
          rcases ih fewer hless (.move h hm.1) (known_move hm.1 hf) hasked
            ⟨⟨hbounded, trivial⟩, hstill⟩ with ⟨n, hn, hends⟩
          exact ⟨n + 1, Nat.lt_of_le_of_lt hn hless, hends⟩

end talks

/-- A call that has not been answered is moving its cursor. -/
theorem asked_awaits {E G : Engine ρ} (h : E.Arises Placed) {f : TableFile}
    (hf : E.pool.tables.get? f.table = some f) {rows : List Row} {cursor : Cursor}
    (hfile : cursor.file = f) {passed : Option Nat} (hat : cursor.IsAt rows passed) {q : Request}
    (hawaits : E.Awaits (Still f rows) cursor q G) :
    G.Arises Placed ∧ G.pool.tables.get? f.table = some f ∧
      G.Still f rows (.event (.step ⟨E.nextCall⟩)) ∧
      ∃ steps, G.Asked ⟨E.nextCall⟩ f rows q passed steps := by
  cases hawaits with
  | mk ms hask hms hstep =>
      rcases asked_moves (.move h hask.1) (known_move hask.1 hf) (asked_submit hfile hat) hms with
        ⟨hG, hfG, hasked⟩
      exact ⟨hG, hfG, hstep, hasked⟩

/-- A user that moves a cursor along a run in which the rows of the table stay these is answered as
    it should be, request by request. -/
theorem obeys_talks {E F : Engine ρ} (h : E.Arises Placed) {f : TableFile}
    (hf : E.pool.tables.get? f.table = some f) {rows : List Row} {cursor cursor' : Cursor}
    (hfile : cursor.file = f) {passed : Option Nat} (hat : cursor.IsAt rows passed)
    {turns : List Turn} (ht : E.Talks (Still f rows) cursor turns F cursor') :
    F.Arises Placed ∧ F.pool.tables.get? f.table = some f ∧ cursor'.file = f ∧
      ∃ passed', Obeys rows passed turns passed' ∧ cursor'.IsAt rows passed' := by
  induction ht generalizing passed with
  | nil => exact ⟨h, hf, hfile, passed, .nil, hat⟩
  | rest hm _ ih => exact ih (.move h hm.1) (known_move hm.1 hf) hfile hat
  | @close E F cursor cursor' turns _ ih =>
      have hclosed : cursor.close.IsAt rows none := rfl
      rcases ih h hf hfile hclosed with ⟨h', hf', hfile', passed', hobeys, hat'⟩
      exact ⟨h', hf', hfile', passed', .close hobeys, hat'⟩
  | @call E F G H cursor mid cursor' q reading turns hawaits ha _ ih =>
      rcases asked_awaits h hf hfile hat hawaits with ⟨hG, hfG, hstep, steps, hasked⟩
      -- There was an answer, so the step did not go on, nor did it have to wait.
      cases goes_asked (hG.sited fun _ _ => id) hstep.1.1 hfG hstep.2 hasked with
      | stalls hnone _ _ => cases hnone.symm.trans (congrArg Prod.snd ha)
      | goes _ hnone _ _ _ _ => cases hnone.symm.trans (congrArg Prod.snd ha)
      | answers ho hfile' hat' hlaw _ =>
          cases ho.symm.trans (congrArg Prod.snd ha)
          have hH : H = G.move (.event (.step ⟨E.nextCall⟩)) := (congrArg Prod.fst ha).symm
          subst hH
          rcases ih (.move hG hstep.1) (known_move hstep.1 hfG) hfile' hat' with
            ⟨h', hf', hend, passed', hobeys, hat''⟩
          exact ⟨h', hf', hend, passed', .call hlaw hobeys, hat''⟩

/-- A cursor is closed, and a user moves it along a run in which the rows of its table stay these.
    It answers every request as it should. The rows that it has handed out since it was sent to the
    first row are the first ones, and if it is open they are those that it has passed. Another call
    would be answered as well, unless it had to wait. -/
theorem cursor_hands_out_rows_in_order {E F : Engine ρ} (h : E.Arises Placed) {f : TableFile}
    (hf : E.pool.tables.get? f.table = some f) {rows : List Row} {cursor cursor' : Cursor}
    (hfile : cursor.file = f) {turns : List Turn}
    (ht : E.Talks (Still f rows) cursor.close turns F cursor') :
    (∃ passed, Obeys rows none turns passed ∧ ∃ k ≤ rows.length,
      handedOut [] turns = rows.take k ∧ ∀ j, passed = some j → j = k) ∧
    ∀ q G, F.Awaits (Still f rows) cursor' q G → G.Concludes ⟨F.nextCall⟩ f := by
  have hsame : cursor.close.file = f := hfile
  have hclosed : cursor.close.IsAt rows none := rfl
  rcases obeys_talks h hf hsame hclosed ht with ⟨hF, hfF, hfile', passed, hobeys, hat⟩
  refine ⟨⟨passed, hobeys, ?_⟩, fun q G hawaits => ?_⟩
  · exact hobeys.handedOut (Nat.zero_le _) fun j hj => by cases hj
  · rcases asked_awaits hF hfF hfile' hat hawaits with ⟨hG, hfG, hstep, steps, hasked⟩
    rcases asked_ends hG hfG hasked.within hstep with ⟨n, hn, hends⟩
    exact ⟨n, Nat.le_of_lt_succ hn, hends⟩

/-- Two pages with a row each, of which one fits in memory. -/
def bothFilled : Engine Recency :=
  (tiny 1 {}).moves (filling 0 ⟨0⟩ ⟨0⟩ ++ (.event (.act (.drop ⟨0⟩)) ::
    filling 1 ⟨1⟩ ⟨1⟩ ++ [.event (.act (.drop ⟨1⟩))]))

/-- The device lets the second page be read, or not. -/
def reads (ok : Bool) : Move Recency :=
  .event (.act (.device
    ⟨fun p => if ok ∨ p.number = 0 then none else some .notFound, fun _ => none⟩))

/-- A user asks for something, and the call takes so many steps and then the last one. -/
def asks (E : Engine Recency) (cursor : Cursor) (q : Request) (n : Nat) : Engine Recency :=
  ((E.submit cursor.txn (.advance (q.cursor cursor) q.goal)).2.moves
    (stepping ⟨E.nextCall⟩ n)).move (.event (.step ⟨E.nextCall⟩))

theorem Talks.asks {ok : Engine Recency → Move Recency → Prop} {E F : Engine Recency}
    {cursor mid cursor' : Cursor} {q : Request} {reading : Except StoreError RowStore.Reading}
    {turns : List Turn} (n : Nat)
    (hcall : ok E (.event (.submit cursor.txn (.advance (q.cursor cursor) q.goal))) ∧
      (E.submit cursor.txn (.advance (q.cursor cursor) q.goal)).2.Admits
        (fun E' m => ok E' m ∧ E'.goesOn ⟨E.nextCall⟩ m = true) (stepping ⟨E.nextCall⟩ n) ∧
      ok ((E.submit cursor.txn (.advance (q.cursor cursor) q.goal)).2.moves
        (stepping ⟨E.nextCall⟩ n)) (.event (.step ⟨E.nextCall⟩)) ∧
      (((E.submit cursor.txn (.advance (q.cursor cursor) q.goal)).2.moves
        (stepping ⟨E.nextCall⟩ n)).step ⟨E.nextCall⟩).2 = some (.moved mid reading))
    (h : (E.asks cursor q n).Talks ok mid turns F cursor') :
    E.Talks ok cursor (.call q reading :: turns) F cursor' :=
  .call (.mk (stepping ⟨E.nextCall⟩ n) hcall.1 hcall.2.1 hcall.2.2.1) (Prod.ext rfl hcall.2.2.2) h

/-- What the user hears: the first row, then an error, then all the same the second row and no
    other. -/
def told : List Turn :=
  [.call .rewind (.ok .positioned), .call .next (.ok (.row (filled 0))),
    .call .next (.error (.io .notFound)), .call .step (.ok (.row (filled 1))),
    .call .hasNext (.ok (.hasNext false)), .close, .call .next (.error .noMoreRows)]

/-- The device fails at the second page once, and the cursor is asked again. -/
theorem cursor_hands_out_rows_in_order_refused :
    ∃ F cursor', bothFilled.Talks (Still .tiny [filled 0, filled 1]) unread.close told F cursor' ∧
      (∃ passed, Obeys [filled 0, filled 1] none told passed ∧ ∃ k ≤ 2,
        handedOut [] told = [filled 0, filled 1].take k ∧ ∀ j, passed = some j → j = k) ∧
      ∀ q G, F.Awaits (Still .tiny [filled 0, filled 1]) cursor' q G →
        G.Concludes ⟨F.nextCall⟩ .tiny := by
  have harises : bothFilled.Arises Placed :=
    (Arises.fresh (fresh_tiny 1 ({} : Recency))).moves (by decide +kernel)
  have hknown : bothFilled.pool.tables.get? TableFile.tiny.table = some .tiny := by decide +kernel
  let ok : Engine Recency → Move Recency → Prop := Still .tiny [filled 0, filled 1]
  let first : Cursor := { unread with nextPage := 1, rows := some [filled 0] }
  let E₁ := bothFilled.asks unread.close .rewind 2
  let E₂ := E₁.asks first .next 0
  let E₃ := (E₂.move (reads false)).asks (readUpTo 1) .next 1
  let E₄ := (E₃.move (reads true)).asks (readUpTo 1) .step 2
  let E₅ := E₄.asks (readUpTo 2) .hasNext 0
  let F := E₅.asks (readUpTo 2).close .next 0
  have h₅ : E₅.Talks ok (readUpTo 2) (told.drop 5) F (readUpTo 2).close :=
    .close (.asks 0 (by decide +kernel) .nil)
  have h₄ : E₄.Talks ok (readUpTo 2) (told.drop 4) F (readUpTo 2).close :=
    .asks 0 (by decide +kernel) h₅
  have h₃ : E₃.Talks ok (readUpTo 1) (told.drop 3) F (readUpTo 2).close :=
    .rest (m := reads true) (by decide +kernel) (.asks 2 (by decide +kernel) h₄)
  have h₂ : E₂.Talks ok (readUpTo 1) (told.drop 2) F (readUpTo 2).close :=
    .rest (m := reads false) (by decide +kernel) (.asks 1 (by decide +kernel) h₃)
  have h₁ : E₁.Talks ok first (told.drop 1) F (readUpTo 2).close :=
    .asks 0 (by decide +kernel) h₂
  have htalks : bothFilled.Talks ok unread.close told F (readUpTo 2).close :=
    .asks 2 (by decide +kernel) h₁
  have hfile : unread.file = .tiny := rfl
  exact ⟨F, _, htalks, cursor_hands_out_rows_in_order harises hknown hfile htalks⟩

end Engine

end RowStore
