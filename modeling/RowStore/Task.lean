import RowStore.Cursor
import RowStore.Pool
import RowStore.SlotPage

/-!
# Tasks

What a call does, from one request for a lock to the next.

A call that works on pages has to hold a lock on each, and may have to wait for
it. So the work of a call is cut at its requests: a task is a point of the work,
`demand` is the lock that has to be held before the work goes on from there, and
`run` is the work up to the next point or to the end. At a point without a demand
the work can go on at once.

An insertion counts the pages of its table and looks at them from the first one
on, each under a shared lock, for one that has a free slot. It then asks for the
exclusive lock on that page. The shared lock has kept others from writing the
page, so the slot is still free when the exclusive lock is granted. When all
pages it counted are full it has the table grow by a page, counts again, and goes
on where it was. The table may have grown in the meantime by what others
appended, so the next page to look at is not always the one it appended itself.

A call keeps the table file that it looked up when it started on a row. A copy
that is resident may have been loaded by another file of the table, with pages of
another size, and then it cannot be read by the layout of the file that the call
keeps. Such a copy is refused where its rows are to be looked at.

## Main definitions

* `Task`: The points of a call's work.
* `Task.demand`: The lock that a point waits for.
* `Task.run`: The work from a point to the next.
* `Task.fail`: The end of a call that was refused a lock.
* `Outcome`: How a call ends.
-/

namespace RowStore

/-- What is left of a call that inserts rows: the rows already in place, latest first, and the
    rows still to go. -/
structure Insertion where
  table : TableId
  placed : List RowId := []
  rows : List Bytes
  deriving DecidableEq

/-- Where a call stands in its work. -/
inductive Task
  /-- Take a lock and nothing else. -/
  | lock (page : PageId) (access : Access)
  /-- Fetch a page, and keep a handle on it or not. -/
  | fetch (page : PageId) (access : Access) (keep : Bool)
  /-- Take up the next row of an insertion. -/
  | insert (job : Insertion)
  /-- Count the pages of the table. -/
  | survey (job : Insertion) (file : TableFile) (row : Bytes) (page : Nat)
  /-- Go to a page below the count, or have the table grow. -/
  | seek (job : Insertion) (file : TableFile) (row : Bytes) (page count : Nat)
  /-- Look whether the page has a free slot. -/
  | inspect (job : Insertion) (file : TableFile) (row : Bytes) (page count : Nat)
  /-- Put the row on the page. -/
  | claim (job : Insertion) (file : TableFile) (row : Bytes) (page : Nat)
  /-- Look up the table of a row that is to be deleted. -/
  | delete (row : Option RowId)
  /-- Take the row off its page. -/
  | remove (file : TableFile) (row : RowId)
  /-- Move a cursor to its next row. -/
  | advance (cursor : Cursor) (goal : Cursor.Goal)
  /-- Have the cursor read its next page. -/
  | load (cursor : Cursor) (goal : Cursor.Goal)
  deriving DecidableEq

/-- What a cursor that was moved has to say. -/
inductive Reading
  | positioned
  | hasNext (answer : Bool)
  | row (row : Row)
  | exhausted
  | rows (rows : List Row)
  deriving DecidableEq, Repr

/-- How a call ends. Rows that were inserted before an error are in place. A cursor is handed
    back where it stands, also when it could not be moved. -/
inductive Outcome
  | locked
  | fetched (handle : Option HandleNo)
  | inserted (rows : List RowId) (failure : Option StoreError)
  | deleted
  | moved (cursor : Cursor) (reading : Except StoreError Reading)
  | failed (cause : StoreError)

/-- How an outcome went wrong, if it did. -/
def Outcome.failure? : Outcome → Option StoreError
  | .inserted _ failure => failure
  | .moved _ (.error cause) | .failed cause => some cause
  | .moved _ (.ok _) | .locked | .fetched _ | .deleted => none

namespace Insertion

/-- The insertion after its next row was put in place. -/
def place (job : Insertion) (row : RowId) : Insertion :=
  { job with placed := row :: job.placed, rows := job.rows.tail }

/-- The end of an insertion, after all its rows or for an error. -/
def outcome (job : Insertion) (failure : Option StoreError) : Outcome :=
  .inserted job.placed.reverse failure

end Insertion

namespace Cursor

/-- The answer of a cursor that needs no page: rows are left of the last one, or the table has no
    page to read next. A cursor that drains its table has taken the rows before it answers. -/
def answer (c : Cursor) (rows : List Row) : Goal → Cursor × Except StoreError Reading
  | .position => (c, .ok .positioned)
  | .hasNext => (c, .ok (.hasNext !rows.isEmpty))
  | .next =>
    match rows with
    | [] => (c, .error .noMoreRows)
    | r :: rest => ({ c with rows := some rest }, .ok (.row r))
  | .step =>
    match rows with
    | [] => (c, .ok .exhausted)
    | r :: rest => ({ c with rows := some rest }, .ok (.row r))
  | .drain taken => (c, .ok (.rows taken))

/-- The answer of a cursor that has no place. -/
def answerClosed (c : Cursor) : Goal → Cursor × Except StoreError Reading
  | .position => (c, .ok .positioned)
  | .hasNext => (c, .ok (.hasNext false))
  | .next => (c, .error .noMoreRows)
  | .step => (c, .ok .exhausted)
  | .drain taken => (c, .ok (.rows taken))

/-- What a cursor does for its goal when an error keeps it from moving: a step of a loop closes
    it. -/
def refuse (c : Cursor) : Goal → Cursor
  | .step => c.close
  | _ => c

end Cursor

namespace Task

/-- The lock that has to be held before the work goes on. -/
def demand : Task → Option (PageId × LockMode)
  | .lock page access | .fetch page access _ => some (page, access.mode)
  | .inspect _ file _ page _ => some (⟨file.table, page⟩, .shared)
  | .claim _ file _ page => some (⟨file.table, page⟩, .exclusive)
  | .remove _ row => some (row.page, .exclusive)
  | .load cursor _ => some (cursor.page, .shared)
  | .insert _ | .survey _ _ _ _ | .seek _ _ _ _ _ | .delete _ | .advance _ _ => none

/-- The end of a call for an error. -/
def fail (task : Task) (cause : StoreError) : Outcome :=
  match task with
  | .insert job | .survey job _ _ _ | .seek job _ _ _ _ | .inspect job _ _ _ _
  | .claim job _ _ _ => job.outcome (some cause)
  | .advance cursor goal | .load cursor goal => .moved (cursor.refuse goal) (.error cause)
  | .lock _ _ | .fetch _ _ _ | .delete _ | .remove _ _ => .failed cause

variable {ρ : Type} [EvictionOrder ρ]

/-- Fetch a page for a transaction. The handle is one that no one keeps. -/
def fetchHandle (P : Pool ρ) (t : TxnId) (p : PageId) (access : Access) :
    Pool ρ × Except StoreError Handle :=
  match P.fetch p with
  | (Q, .ok f) => (Q, .ok ⟨p, f, t, access⟩)
  | (Q, .error e) => (Q, .error e)

/-- Whether a page has a free slot. -/
def hasRoom (layout : Layout) (bytes : Bytes) : Except StoreError Bool := do
  SlotPage.checkBytes layout bytes
  .ok (SlotPage.firstFree layout bytes).isSome

/-- The rows on a page, each with its place. -/
def rowsOn (layout : Layout) (p : PageId) (bytes : Bytes) : Except StoreError (List Row) := do
  SlotPage.checkBytes layout bytes
  .ok ((SlotPage.rows layout bytes).map fun e => ⟨some ⟨p, e.1⟩, e.2⟩)

/-- Refuse a slot of a page that has no row in it. -/
def checkRowAt (layout : Layout) (bytes : Bytes) (slot : Nat) : Except StoreError Unit := do
  SlotPage.checkBytes layout bytes
  let _ ← SlotPage.row? layout bytes slot
  .ok ()

/-- Put a row on the page that a handle is on. The copy is dirty even if it cannot be read. -/
def putRow (P : Pool ρ) (h : Handle) (layout : Layout) (row : Bytes) :
    Pool ρ × Except StoreError Nat :=
  match P.openWrite h with
  | .error e => (P, .error e)
  | .ok Q =>
    match SlotPage.checkBytes layout (Q.bytesOf h) with
    | .error e => (Q, .error e)
    | .ok () =>
      match SlotPage.insert layout (Q.bytesOf h) row with
      | .error e => (Q, .error e)
      | .ok (slot, bytes) => (Q.setBytes h bytes, .ok slot)

/-- Take a row off the page that a handle is on. The copy is dirty even if it cannot be read. -/
def dropRow (P : Pool ρ) (h : Handle) (layout : Layout) (slot : Nat) :
    Pool ρ × Except StoreError Unit :=
  match P.openWrite h with
  | .error e => (P, .error e)
  | .ok Q =>
    match SlotPage.checkBytes layout (Q.bytesOf h) with
    | .error e => (Q, .error e)
    | .ok () =>
      match SlotPage.delete layout (Q.bytesOf h) slot with
      | .error e => (Q, .error e)
      | .ok bytes => (Q.setBytes h bytes, .ok ())

/-- The work of a transaction's call from a point to the next, or to its end. The lock that the
    point demands is held. -/
def run (P : Pool ρ) (t : TxnId) (task : Task) : Pool ρ × (Task ⊕ Outcome) :=
  match task with
  | .lock _ _ => (P, .inr .locked)
  | .fetch page access keep =>
    match fetchHandle P t page access with
    | (Q, .error e) => (Q, .inr (.failed e))
    | (Q, .ok h) =>
      if keep then
        let (n, cache) := Q.cache.pin h
        ({ Q with cache }, .inr (.fetched (some n)))
      else (Q, .inr (.fetched none))
  | .insert job =>
    match job.rows with
    | [] => (P, .inr (job.outcome none))
    | row :: _ =>
      match P.table job.table with
      | .error e => (P, .inr (job.outcome (some e)))
      | .ok file =>
        match file.checkRow row with
        | .error e => (P, .inr (job.outcome (some e)))
        | .ok () => (P, .inl (.survey job file row 0))
  | .survey job file row page => (P, .inl (.seek job file row page (file.pageCount P.disk)))
  | .seek job file row page count =>
    if page < count then (P, .inl (.inspect job file row page count))
    else
      -- All pages that were counted are full. Others may have appended some since.
      match file.append P.disk with
      | .error e => (P, .inr (job.outcome (some e)))
      | .ok (_, disk) => ({ P with disk }, .inl (.survey job file row page))
  | .inspect job file row page count =>
    match fetchHandle P t ⟨file.table, page⟩ .readOnly with
    | (Q, .error e) => (Q, .inr (job.outcome (some e)))
    | (Q, .ok h) =>
      match hasRoom file.layout (Q.bytesOf h) with
      | .error e => (Q, .inr (job.outcome (some e)))
      | .ok true => (Q, .inl (.claim job file row page))
      | .ok false => (Q, .inl (.seek job file row (page + 1) count))
  | .claim job file row page =>
    match fetchHandle P t ⟨file.table, page⟩ .readWrite with
    | (Q, .error e) => (Q, .inr (job.outcome (some e)))
    | (Q, .ok h) =>
      -- Others could read the page in the meantime but not write it.
      match putRow Q h file.layout row with
      | (R, .error e) => (R, .inr (job.outcome (some e)))
      | (R, .ok slot) => (R, .inl (.insert (job.place ⟨h.page, slot⟩)))
  | .delete none => (P, .inr (.failed (.invalidArgument .noPlace)))
  | .delete (some row) =>
    match P.table row.page.table with
    | .error e => (P, .inr (.failed e))
    | .ok file =>
      match file.checkPage row.page with
      | .error e => (P, .inr (.failed e))
      | .ok () => (P, .inl (.remove file row))
  | .remove file row =>
    match fetchHandle P t row.page .readWrite with
    | (Q, .error e) => (Q, .inr (.failed e))
    | (Q, .ok h) =>
      -- A slot without a row is refused before the copy becomes dirty.
      match checkRowAt file.layout (Q.bytesOf h) row.slot with
      | .error e => (Q, .inr (.failed e))
      | .ok () =>
        match dropRow Q h file.layout row.slot with
        | (R, .error e) => (R, .inr (.failed e))
        | (R, .ok ()) => (R, .inr .deleted)
  | .advance cursor goal =>
    match cursor.rows with
    | none =>
      let (c, reading) := cursor.answerClosed goal
      (P, .inr (.moved c reading))
    | some rows =>
      match goal, rows with
      | .drain taken, r :: rest =>
        (P, .inl (.advance { cursor with rows := some [] } (.drain (taken ++ r :: rest))))
      | _, _ =>
        if rows.isEmpty && cursor.nextPage < cursor.file.pageCount P.disk then
          (P, .inl (.load cursor goal))
        else
          let (c, reading) := cursor.answer rows goal
          (P, .inr (.moved c reading))
  | .load cursor goal =>
    match fetchHandle P t cursor.page .readOnly with
    | (Q, .error e) => (Q, .inr (.moved (cursor.refuse goal) (.error e)))
    | (Q, .ok h) =>
      match rowsOn cursor.file.layout cursor.page (Q.bytesOf h) with
      -- The cursor stays where it is and stays open, also for a step of a loop.
      | .error e => (Q, .inr (.moved cursor (.error e)))
      | .ok rows => (Q, .inl (.advance (cursor.load rows) goal))

end Task

end RowStore
