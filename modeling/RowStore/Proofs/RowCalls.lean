import RowStore.Proofs.RowMap

/-!
# What a Call Does to Rows

The operations on rows that a call does on its way, and what it has to say of them in
the end.

Two points of a call's work change rows. One puts a row in place, the other takes a
row off its page. At either the operation on rows tells the same as the accesses to
pages, and no other point writes a page at all. So what is done to rows can be read
off the calls, without looking at pages.

A call knows what it has done. An insertion keeps the places of its rows, and hands
them back when it ends, also when it ends for an error. A deletion says that it has
deleted its row only after it has. A call that has nothing of the kind to say has
changed no row.

## Main definitions

* `Task.changes`: The operations on rows at a point of a call's work.
* `Task.isEntry`: A point at which a call can begin.
* `Task.Since`: Where a call is that was asked for something and has done something.
* `Outcome.Reports`: An outcome says what was done.

## Theorems

* `Task.tells_changes`: The operations tell the same as the accesses.
* `Task.run_since`, `Task.reports_fail`: A call goes on or ends, and is refused a lock.
-/

namespace RowStore

namespace Task

section changes

variable {ρ : Type} [EvictionOrder ρ]

/-- The operations on rows that the work from a point to the next is. -/
def changes (P : Pool ρ) (t : TxnId) (task : Task) : List RowOp :=
  match task, (task.run P t).2 with
  | .claim _ _ row _, .inl (.insert job) => (job.placed.take 1).map fun r => .insert r row
  | .remove _ row, .inr .deleted => [.delete row]
  | _, _ => []

/-- A call that takes a row off a page keeps the file of the table that the row is of. -/
def Aimed : Task → Prop
  | .remove file row => row.page.table = file.table
  | _ => True

/-- The operations on rows tell the same as the accesses to pages. -/
theorem tells_changes {P : Pool ρ} (hc : P.Coherent) (t : TxnId) {task : Task}
    (hk : task.Fits P.tables) (haim : task.Aimed) :
    Tells P.tables (task.accesses P t) (task.changes P t) := by
  -- Looking is at most a read.
  have hlook : ∀ p, Tells P.tables (look P t p) [] := by
    intro p
    unfold look
    split
    · exact Tells.nil
    · exact Tells.read _ _
  cases task with
  | claim job file row page =>
      rcases fetchHandle_cases hc t ⟨file.table, page⟩ .readWrite with
        ⟨Q, hq, hcq, ⟨f, heq, hr⟩ | ⟨e, heq, _⟩⟩
      · have hg := Pool.grasps_of_resident hcq (h := ⟨⟨file.table, page⟩, f, t, .readWrite⟩) hr
        simp only [changes, accesses, run, heq, putRow_eq]
        rcases Pool.alter_cases hg (rowIn file.layout row) with
          ⟨e, _, hres⟩ | ⟨_, e, _, hres⟩ | ⟨_, slot, bytes, hwork, hres⟩
        · rw [hres]
          exact Tells.read _ _
        · rw [hres]
          exact Tells.read _ _
        · rw [hres]
          simp only [wrote, Pool.bytesOf_written hg]
          exact tells_insert (p := ⟨file.table, page⟩) (hk file rfl) hwork
      · simp only [changes, accesses, run, heq]
        exact Tells.nil
  | remove file row =>
      rcases fetchHandle_cases hc t row.page .readWrite with
        ⟨Q, hq, hcq, ⟨f, heq, hr⟩ | ⟨e, heq, _⟩⟩
      · have hg := Pool.grasps_of_resident hcq (h := ⟨row.page, f, t, .readWrite⟩) hr
        simp only [changes, accesses, run, heq, dropRow_eq]
        cases checkRowAt file.layout (Q.bytesOf ⟨row.page, f, t, .readWrite⟩) row.slot with
        | error e => exact Tells.read _ _
        | ok _ =>
            simp only
            rcases Pool.alter_cases hg (rowOut file.layout row.slot) with
              ⟨e, _, hres⟩ | ⟨_, e, _, hres⟩ | ⟨_, _, bytes, hwork, hres⟩
            · rw [hres]
              exact Tells.read _ _
            · rw [hres]
              exact Tells.read _ _
            · rw [hres]
              simp only [wrote, Pool.bytesOf_written hg]
              have hfile : P.tables.get? row.page.table = some file := by
                rw [show row.page.table = file.table from haim]
                exact hk file rfl
              exact tells_delete hfile hwork
      · simp only [changes, accesses, run, heq]
        exact Tells.nil
  | inspect job file row page count => exact hlook _
  | load cursor goal => exact hlook _
  | _ => exact Tells.nil

end changes

end Task

/-! ## What a call has to say -/

/-- An insertion has put the first of the rows in place that it was asked for, and the others are
    still to go. -/
def Insertion.Since (job : Insertion) (asked : Task) (ops : List RowOp) : Prop :=
  ∃ rows, asked = .insert ⟨job.table, [], rows ++ job.rows⟩ ∧ rows.length = job.placed.length ∧
    ops = List.zipWith RowOp.insert job.placed.reverse rows

/-- What is said of what was done: the places of the rows that were put in place, in their order,
    and all of them if nothing failed; or that the row was deleted; or else nothing was done. -/
def Outcome.Reports (outcome : Outcome) (asked : Task) (ops : List RowOp) : Prop :=
  match outcome with
  | .inserted places failure => ∃ job, asked = .insert job ∧ places.length ≤ job.rows.length ∧
      (failure = none → places.length = job.rows.length) ∧
      ops = List.zipWith RowOp.insert places job.rows
  | .deleted => ∃ row, asked = .delete (some row) ∧ ops = [.delete row]
  | .locked | .fetched _ | .moved _ _ | .failed _ => ops = []

namespace Insertion

variable {asked : Task} {ops : List RowOp} {job : Insertion} (h : job.Since asked ops)

include h

/-- The end of an insertion says what it has done. -/
theorem Since.reports {failure : Option StoreError} (hall : failure = none → job.rows = []) :
    (job.outcome failure).Reports asked ops := by
  rcases h with ⟨rows, rfl, hlen, rfl⟩
  have hlen' : job.placed.reverse.length = rows.length := by rw [List.length_reverse, hlen]
  refine ⟨_, rfl, ?_, fun hf => ?_, ?_⟩
  · rw [List.length_append]
    omega
  · rw [hall hf, List.append_nil]
    exact hlen'
  · -- The rows that are still to go have no places.
    have hzip := @List.zipWith_append _ _ _ RowOp.insert job.placed.reverse [] rows job.rows hlen'
    rw [List.append_nil] at hzip
    rw [hzip, List.zipWith_nil_left, List.append_nil]

/-- The next row is put in place. -/
theorem Since.place {row : Bytes} (hrow : job.rows.head? = some row) (r : RowId) :
    (job.place r).Since asked (ops ++ [.insert r row]) := by
  rcases h with ⟨rows, rfl, hlen, rfl⟩
  have hrows : job.rows = row :: job.rows.tail := (List.cons_head?_tail hrow).symm
  have hlen' : job.placed.reverse.length = rows.length := by rw [List.length_reverse, hlen]
  refine ⟨rows ++ [row], ?_, ?_, ?_⟩
  · rw [List.append_assoc, List.singleton_append]
    exact congrArg (fun l => Task.insert ⟨job.table, [], rows ++ l⟩) hrows
  · rw [List.length_append, hlen]
    rfl
  · simp only [Insertion.place, List.reverse_cons]
    rw [List.zipWith_append hlen']
    rfl

end Insertion

namespace Task

/-- A point at which a call can begin. -/
def isEntry : Task → Bool
  | .insert job => job.placed.isEmpty
  | .lock _ _ | .fetch _ _ _ | .delete _ | .advance _ _ => true
  | .survey _ _ _ _ | .seek _ _ _ _ _ | .inspect _ _ _ _ _ | .claim _ _ _ _ | .remove _ _
  | .load _ _ => false

/-- Where a call is that was asked for something and has done something. A call that neither inserts
    nor deletes may be anywhere, and has done nothing. -/
def Since (task asked : Task) (ops : List RowOp) : Prop :=
  match task with
  | .insert job => job.Since asked ops
  | .survey job _ row _ | .seek job _ row _ _ | .inspect job _ row _ _ | .claim job _ row _ =>
    job.Since asked ops ∧ job.rows.head? = some row
  | .delete row => asked = .delete row ∧ ops = []
  | .remove file row =>
    asked = .delete (some row) ∧ ops = [] ∧ row.page.table = file.table
  | .lock _ _ | .fetch _ _ _ | .advance _ _ | .load _ _ => ops = []

/-- Where a call is, or what it says, once it has done something more. -/
def Progress (asked : Task) (ops : List RowOp) : Task ⊕ Outcome → Prop
  | .inl task => task.Since asked ops
  | .inr outcome => outcome.Reports asked ops

/-- A call that begins has done nothing. -/
theorem since_entry {task : Task} (h : task.isEntry = true) : task.Since task [] := by
  cases task with
  | insert job =>
      have hp : job.placed = [] := List.isEmpty_iff.1 h
      rcases job with ⟨table, placed, rows⟩
      cases hp
      exact ⟨[], rfl, rfl, rfl⟩
  | delete row => exact ⟨rfl, rfl⟩
  | lock page access => rfl
  | fetch page access keep => rfl
  | advance cursor goal => rfl
  | _ => cases h

section Since

variable {asked : Task} {ops : List RowOp} {task : Task} (hs : task.Since asked ops)

include hs

theorem Since.aimed : task.Aimed := by
  cases task with
  | remove file row => exact hs.2.2
  | _ => trivial

/-- A call that is refused a lock says what it has done before. -/
theorem reports_fail (cause : StoreError) : (task.fail cause).Reports asked ops := by
  cases task with
  | insert job => exact Insertion.Since.reports hs fun h => by cases h
  | survey job file row page => exact hs.1.reports fun h => by cases h
  | seek job file row page count => exact hs.1.reports fun h => by cases h
  | inspect job file row page count => exact hs.1.reports fun h => by cases h
  | claim job file row page => exact hs.1.reports fun h => by cases h
  | delete row => exact hs.2
  | remove file row => exact hs.2.1
  | _ => exact hs

/-- A call that goes on has done what it did before, and what it does at this point. A call that
    ends says so. -/
theorem run_since {ρ : Type} [EvictionOrder ρ] (P : Pool ρ) (t : TxnId) :
    Progress asked (ops ++ task.changes P t) (task.run P t).2 := by
  -- An insertion that ends for an error says what it has done, at whichever point.
  have hstop : ∀ {job : Insertion} (e : StoreError), job.Since asked ops →
      (job.outcome (some e)).Reports asked ops := fun e hj => hj.reports fun hf => by cases hf
  cases task with
  | lock page access =>
      simp only [changes, List.append_nil]
      exact hs
  | fetch page access keep =>
      simp only [changes, List.append_nil, run]
      split
      · exact hs
      · split <;> exact hs
  | insert job =>
      simp only [changes, List.append_nil, run]
      split
      · rename_i hrows
        exact Insertion.Since.reports hs fun _ => hrows
      · rename_i row rest hrows
        split
        · exact hstop _ hs
        · split
          · exact hstop _ hs
          · exact ⟨hs, by rw [hrows]; rfl⟩
  | survey job file row page =>
      simp only [changes, List.append_nil]
      exact hs
  | seek job file row page count =>
      simp only [changes, List.append_nil, run]
      split
      · exact hs
      · split
        · exact hstop _ hs.1
        · exact hs
  | inspect job file row page count =>
      simp only [changes, List.append_nil, run]
      split
      · exact hstop _ hs.1
      · split
        · exact hstop _ hs.1
        · exact hs
        · exact hs
  | claim job file row page =>
      cases hfetch : fetchHandle P t ⟨file.table, page⟩ .readWrite with
      | mk Q r =>
          cases r with
          | error e =>
              simp only [changes, run, hfetch, List.append_nil]
              exact hstop e hs.1
          | ok h =>
              cases hput : putRow Q h file.layout row with
              | mk R r =>
                  cases r with
                  | error e =>
                      simp only [changes, run, hfetch, hput, List.append_nil]
                      exact hstop e hs.1
                  | ok slot =>
                      simp only [changes, run, hfetch, hput]
                      exact hs.1.place hs.2 _
  | delete row =>
      simp only [changes, List.append_nil]
      rcases hs with ⟨rfl, rfl⟩
      cases row with
      | none => rfl
      | some row =>
          simp only [run]
          split
          · rfl
          · split
            · rfl
            · rename_i file _ _ hpage
              exact ⟨rfl, rfl, file.checkPage_eq_ok hpage⟩
  | remove file row =>
      rcases hs with ⟨rfl, rfl, _⟩
      cases hfetch : fetchHandle P t row.page .readWrite with
      | mk Q r =>
          cases r with
          | error e =>
              simp only [changes, run, hfetch]
              rfl
          | ok h =>
              cases hcheck : checkRowAt file.layout (Q.bytesOf h) row.slot with
              | error e =>
                  simp only [changes, run, hfetch, hcheck]
                  rfl
              | ok _ =>
                  cases hdrop : dropRow Q h file.layout row.slot with
                  | mk R r =>
                      cases r with
                      | error e =>
                          simp only [changes, run, hfetch, hcheck, hdrop]
                          rfl
                      | ok _ =>
                          simp only [changes, run, hfetch, hcheck, hdrop]
                          exact ⟨row, rfl, rfl⟩
  | advance cursor goal =>
      simp only [changes, List.append_nil, run]
      split
      · exact hs
      · split
        · exact hs
        · split <;> exact hs
  | load cursor goal =>
      simp only [changes, List.append_nil, run]
      split
      · exact hs
      · split <;> exact hs

end Since

end Task

end RowStore
