import RowStore.Proofs.Holding
import RowStore.Proofs.Scan

/-!
# A Scan in Use

What a scan has handed out, whoever else is at work between its calls and during them.

Between two calls a scan is a cursor that its user has. A call takes the cursor, moves it,
and hands it back with an answer. It may have to wait for a page, and it may fail. What
matters of a scan is the cursor, and the rows that were handed out. Rows that a loop has
taken are handed out when the loop is at the end; if it fails before, they are lost.

A step of the scan's call does one of two things. It may move rows from where they are left
to where they are handed out, or nothing, and then all rows together are what they were. Or
it reads the next page, and then the rows of the page are added, as they are shown. The call
holds the page when it reads it.

## Main definitions

* `Scan`: Where the cursor of a scan is, and the rows that were handed out.
* `Engine.Reads`: What a move makes of a scan.
* `Engine.Follows`: A scan is in use along a run.
* `Engine.Stands`: The cursor of a scan, and all its rows: those handed out, taken and left.
* `Engine.Turns`: Nothing becomes of the rows of a scan, or those of a page are added.
* `Cursor.Done`: No row is left, and no page.

## Theorems

* `Engine.done_of_told`: Who is told that there are no more rows has a cursor that is done.
* `Engine.stands_move`: A move leaves the rows of a scan as they are, or adds those of a page.
-/

namespace RowStore

/-- A scan in use: the cursor or the call that has it, and the rows that were handed out. -/
structure Scan where
  place : Cursor ⊕ CallNo
  out : List Row

/-- The rows that an answer hands out. -/
def Reading.given : Reading → List Row
  | .row r => [r]
  | .rows all => all
  | .positioned | .hasNext _ | .exhausted => []

/-- Whether a reading says that there are no more rows. -/
def Reading.isLast : Except StoreError Reading → Bool
  | .ok .exhausted | .ok (.hasNext false) | .ok (.rows _) | .error .noMoreRows => true
  | .ok _ | .error _ => false

namespace Cursor

/-- The rows that a loop has taken already. -/
def Goal.taken : Goal → List Row
  | .drain taken => taken
  | .position | .hasNext | .next | .step => []

/-- No row is left of the page read last, and there is no next page. -/
def Done {ρ : Type} (c : Cursor) (P : Pool ρ) : Prop :=
  c.rows = some [] ∧ c.file.pageCount P.disk ≤ c.nextPage

instance {ρ : Type} (c : Cursor) (P : Pool ρ) : Decidable (c.Done P) :=
  inferInstanceAs (Decidable (c.rows = some [] ∧ c.file.pageCount P.disk ≤ c.nextPage))

theorem with_rows {c : Cursor} {left : Option (List Row)} (h : c.rows = left) :
    { c with rows := left } = c := by
  subst h
  rfl

/-- An answer moves rows from those that are left to those that are handed out. Only who asks for
    the next row where there is none is told of an error. -/
theorem answer_cases {c : Cursor} {left : List Row} (hrows : c.rows = some left) {goal : Goal}
    (hdrain : ∀ taken, goal = .drain taken → left = []) :
    (∃ reading left', c.answer left goal = ({ c with rows := some left' }, .ok reading) ∧
      goal.taken ++ left = reading.given ++ left' ∧
      (Reading.isLast (.ok reading) = true → left = [] ∧ left' = [])) ∨
    goal = .next ∧ left = [] ∧ c.answer left goal = (c, .error .noMoreRows) := by
  have hsame := with_rows hrows
  cases goal with
  | position => exact Or.inl ⟨.positioned, left, by rw [hsame]; rfl, rfl, fun h => by cases h⟩
  | hasNext =>
      refine Or.inl ⟨.hasNext !left.isEmpty, left, by rw [hsame]; rfl, rfl, fun h => ?_⟩
      cases left with
      | nil => exact ⟨rfl, rfl⟩
      | cons r rest => cases h
  | next =>
      cases left with
      | nil => exact Or.inr ⟨rfl, rfl, rfl⟩
      | cons r rest => exact Or.inl ⟨.row r, rest, rfl, rfl, fun h => by cases h⟩
  | step =>
      cases left with
      | nil => exact Or.inl ⟨.exhausted, [], by rw [hsame]; rfl, rfl, fun _ => ⟨rfl, rfl⟩⟩
      | cons r rest => exact Or.inl ⟨.row r, rest, rfl, rfl, fun h => by cases h⟩
  | drain taken =>
      cases hdrain taken rfl
      exact Or.inl ⟨.rows taken, [], by rw [hsame]; rfl, rfl, fun _ => ⟨rfl, rfl⟩⟩

/-- A cursor that is refused and still open is where it was. -/
theorem refuse_of_open {c : Cursor} {goal : Goal} (h : (c.refuse goal).isOpen = true) :
    c.refuse goal = c := by
  cases goal with
  | step => cases h
  | _ => rfl

end Cursor

namespace Task

/-- The rows that the loop of a call has taken already. -/
def taken : Task → List Row
  | .advance _ goal | .load _ goal => goal.taken
  | _ => []

variable {ρ : Type} [EvictionOrder ρ] {P : Pool ρ} {t : TxnId} {cursor : Cursor}

/-- Where an open cursor is moved to: past the rows it has, if they are to be drained; to the next
    page, if it has none and there is one; or nowhere, and then it answers. -/
theorem run_advance {left : List Row} (hrows : cursor.rows = some left) (goal : Cursor.Goal) :
    (∃ taken, goal = .drain taken ∧ run P t (.advance cursor goal) =
      (P, .inl (.advance { cursor with rows := some [] } (.drain (taken ++ left))))) ∨
    (left = [] ∧ cursor.nextPage < cursor.file.pageCount P.disk ∧
      run P t (.advance cursor goal) = (P, .inl (.load cursor goal))) ∨
    (∀ taken, goal = .drain taken → left = []) ∧
      (left = [] → cursor.file.pageCount P.disk ≤ cursor.nextPage) ∧
      run P t (.advance cursor goal) =
        (P, .inr (.moved (cursor.answer left goal).1 (cursor.answer left goal).2)) := by
  -- Either the rows are drained, or the cursor goes on by the pages that there are.
  have hother : (∀ taken, goal = .drain taken → left = []) → run P t (.advance cursor goal) =
      if left.isEmpty && cursor.nextPage < cursor.file.pageCount P.disk then
        (P, .inl (.load cursor goal))
      else (P, .inr (.moved (cursor.answer left goal).1 (cursor.answer left goal).2)) := by
    intro hdrain
    simp only [run, hrows]
    split
    · cases hdrain _ rfl
    · rfl
  by_cases hdrain : ∀ taken, goal = .drain taken → left = []
  · rw [hother hdrain]
    by_cases hmore : (left.isEmpty && cursor.nextPage < cursor.file.pageCount P.disk) = true
    · rw [if_pos hmore]
      rcases Bool.and_eq_true_iff.1 hmore with ⟨hnil, hlt⟩
      exact Or.inr (Or.inl ⟨List.isEmpty_iff.1 hnil, of_decide_eq_true hlt, rfl⟩)
    · rw [if_neg hmore]
      refine Or.inr (Or.inr ⟨hdrain, fun hnil => Nat.le_of_not_lt fun hlt => hmore ?_, rfl⟩)
      simp [hnil, hlt]
  · push Not at hdrain
    rcases hdrain with ⟨taken, rfl, hne⟩
    rcases List.exists_cons_of_ne_nil hne with ⟨r, rest, rfl⟩
    refine Or.inl ⟨taken, rfl, ?_⟩
    simp only [run, hrows]

theorem pool_advance (P : Pool ρ) (t : TxnId) (cursor : Cursor) (goal : Cursor.Goal) :
    (run P t (.advance cursor goal)).1 = P := by
  simp only [run]
  split
  · rfl
  · split
    · rfl
    · split <;> rfl

/-- Who is told that there are no more rows has a cursor that is done, if it was open. -/
theorem done_of_last {left : List Row} (hrows : cursor.rows = some left) {goal : Cursor.Goal}
    {c : Cursor} {reading : Except StoreError Reading} (hlast : Reading.isLast reading = true)
    (h : (run P t (.advance cursor goal)).2 = .inr (.moved c reading)) : c.Done P := by
  rcases run_advance (P := P) (t := t) hrows goal with
    ⟨taken, _, heq⟩ | ⟨_, _, heq⟩ | ⟨hdrain, hcount, heq⟩
  · rw [heq] at h
    cases h
  · rw [heq] at h
    cases h
  · rw [heq] at h
    rcases Cursor.answer_cases hrows hdrain with ⟨reading', left', ha, _, hnil⟩ | ⟨_, rfl, ha⟩
    · rw [ha] at h
      cases h
      rcases hnil hlast with ⟨rfl, rfl⟩
      exact ⟨rfl, hcount rfl⟩
    · rw [ha] at h
      cases h
      exact ⟨hrows, hcount rfl⟩

/-- The next page is read, and then the rows are there that it shows; or the cursor is refused. -/
theorem run_load (hc : P.Coherent)
    (hf : P.tables.get? cursor.file.table = some cursor.file) (goal : Cursor.Goal) :
    (∃ Q, P.Has cursor.page ∧ Q.shown = P.shown ∧ run P t (.load cursor goal) =
      (Q, .inl (.advance (cursor.load
        (pageRows cursor.file.layout cursor.page (P.shown cursor.page))) goal))) ∨
    ∃ Q e, run P t (.load cursor goal) =
      (Q, .inr (.moved (cursor.refuse goal) (.error e))) := by
  simp only [run]
  cases hfetch : fetchHandle P t cursor.page .readOnly with
  | mk Q r =>
      cases r with
      | error e => exact Or.inr ⟨Q, e, rfl⟩
      | ok h =>
          rcases fetched_shown hc hfetch with ⟨f, rfl, hquiet, _, _, hb, hhas⟩
          have hsize := hc.size_shown (p := cursor.page) hf
          refine Or.inl ⟨Q, hhas, hquiet.shown, ?_⟩
          simp only [hb, rowsOn_eq _ hsize]

end Task

namespace Engine

variable {ρ : Type} [EvictionOrder ρ]

/-- What a move makes of a scan. Its user may let the cursor rest, or begin a call with it; a call
    may go on, or answer. A scan that is refused goes on if the cursor is still open and the call
    has not taken rows, which are lost. -/
inductive Reads (E : Engine ρ) : Scan → Move ρ → Scan → Prop
  | rest {cursor : Cursor} {out : List Row} {m : Move ρ} :
      Reads E ⟨.inl cursor, out⟩ m ⟨.inl cursor, out⟩
  | ask {cursor : Cursor} {goal : Cursor.Goal} {out : List Row} (hgoal : goal.taken = []) :
      Reads E ⟨.inl cursor, out⟩ (.event (.submit cursor.txn (.advance cursor goal)))
        ⟨.inr ⟨E.nextCall⟩, out⟩
  | wait {c : CallNo} {out : List Row} {m : Move ρ} (hm : E.goesOn c m = true) :
      Reads E ⟨.inr c, out⟩ m ⟨.inr c, out⟩
  | answer {c : CallNo} {out : List Row} {cursor : Cursor} {reading : Reading}
      (ha : (E.step c).2 = some (.moved cursor (.ok reading))) :
      Reads E ⟨.inr c, out⟩ (.event (.step c)) ⟨.inl cursor, out ++ reading.given⟩
  | refused {c : CallNo} {out : List Row} {cursor : Cursor} {e : StoreError}
      (ha : (E.step c).2 = some (.moved cursor (.error e))) (hopen : cursor.isOpen = true)
      (hkept : ∀ call ∈ E.calls.get? c, call.task.taken = []) :
      Reads E ⟨.inr c, out⟩ (.event (.step c)) ⟨.inl cursor, out⟩

/-- A scan is in use along a run of moves of which something is asked. -/
inductive Follows (ok : Engine ρ → Scan → Move ρ → Prop) :
    Engine ρ → Scan → List (Move ρ) → Scan → Prop
  | nil {E : Engine ρ} {s : Scan} : Follows ok E s [] s
  | cons {E : Engine ρ} {s s' s'' : Scan} {m : Move ρ} {ms : List (Move ρ)} (hm : ok E s m)
      (hr : E.Reads s m s') (h : Follows ok (E.move m) s' ms s'') : Follows ok E s (m :: ms) s''

namespace Follows

variable {ok : Engine ρ → Scan → Move ρ → Prop} {E : Engine ρ} {s s' s'' : Scan}
  {ms ms' : List (Move ρ)}

/-- What is asked of every move of a scan is so of the run. -/
theorem admits {ok' : Engine ρ → Move ρ → Prop} (h : E.Follows ok s ms s')
    (himp : ∀ E s m, ok E s m → ok' E m) : E.Admits ok' ms := by
  induction h with
  | nil => trivial
  | cons hm _ _ ih => exact ⟨himp _ _ _ hm, ih⟩

theorem append (h : E.Follows ok s ms s') (h' : (E.moves ms).Follows ok s' ms' s'') :
    E.Follows ok s (ms ++ ms') s'' := by
  induction h with
  | nil => exact h'
  | cons hm hr _ ih => exact .cons hm hr (ih h')

/-- A cursor may rest along any run. -/
theorem of_rest {cursor : Cursor} {out : List Row}
    (hms : E.Admits (fun E m => ok E ⟨.inl cursor, out⟩ m) ms) :
    E.Follows ok ⟨.inl cursor, out⟩ ms ⟨.inl cursor, out⟩ := by
  induction ms generalizing E with
  | nil => exact .nil
  | cons m rest ih => exact .cons hms.1 .rest (ih hms.2)

/-- A call has a cursor along any run in which it does not end. -/
theorem of_wait {c : CallNo} {out : List Row}
    (hms : E.Admits (fun E m => ok E ⟨.inr c, out⟩ m ∧ E.goesOn c m = true) ms) :
    E.Follows ok ⟨.inr c, out⟩ ms ⟨.inr c, out⟩ := by
  induction ms generalizing E with
  | nil => exact .nil
  | cons m rest ih => exact .cons hms.1.1 (.wait hms.1.2) (ih hms.2)

/-- A scan is asked, its call goes on for a while, and answers. -/
theorem of_call {c : CallNo} {cursor cursor' : Cursor} {goal : Cursor.Goal} {out : List Row}
    {reading : Reading} (hc : ⟨E.nextCall⟩ = c) (hgoal : goal.taken = [])
    (hask : ok E ⟨.inl cursor, out⟩ (.event (.submit cursor.txn (.advance cursor goal))))
    (hwait : (E.submit cursor.txn (.advance cursor goal)).2.Admits
      (fun E' m => ok E' ⟨.inr c, out⟩ m ∧ E'.goesOn c m = true) ms)
    (hlast : ok ((E.submit cursor.txn (.advance cursor goal)).2.moves ms) ⟨.inr c, out⟩
      (.event (.step c)))
    (ha : (((E.submit cursor.txn (.advance cursor goal)).2.moves ms).step c).2 =
      some (.moved cursor' (.ok reading))) :
    E.Follows ok ⟨.inl cursor, out⟩ (.event (.submit cursor.txn (.advance cursor goal)) ::
      (ms ++ [.event (.step c)])) ⟨.inl cursor', out ++ reading.given⟩ := by
  subst hc
  exact .cons hask (.ask hgoal) ((of_wait hwait).append (.cons hlast (.answer ha) .nil))

end Follows

/-- The cursor of a scan, and all its rows: those that were handed out, those that a loop has taken,
    and those that are left of the page read last. -/
inductive Stands (E : Engine ρ) : Scan → Cursor → List Row → Prop
  | resting {cursor : Cursor} {left out : List Row} (hrows : cursor.rows = some left) :
      Stands E ⟨.inl cursor, out⟩ cursor (out ++ left)
  | moving {c : CallNo} {cursor : Cursor} {goal : Cursor.Goal} {left out : List Row}
      (hcall : E.calls.get? c = some ⟨cursor.txn, .advance cursor goal⟩)
      (hrows : cursor.rows = some left) :
      Stands E ⟨.inr c, out⟩ cursor (out ++ goal.taken ++ left)
  | loading {c : CallNo} {cursor : Cursor} {goal : Cursor.Goal} {out : List Row}
      (hcall : E.calls.get? c = some ⟨cursor.txn, .load cursor goal⟩)
      (hrows : cursor.rows = some []) : Stands E ⟨.inr c, out⟩ cursor (out ++ goal.taken)

/-- What becomes of a cursor and of all its rows by a move: rows may be elsewhere, or those of the
    next page are added, which is held and stays as it is. -/
inductive Turns (E : Engine ρ) (m : Move ρ) (cursor : Cursor) (rows : List Row) :
    Cursor → List Row → Prop
  | same (left : Option (List Row)) :
      Turns E m cursor rows { cursor with rows := left } rows
  | read (hhas : E.pool.Has cursor.page)
      (hheld : (E.locksDuring m).mode? cursor.txn cursor.page ≠ none)
      (hshown : (E.move m).pool.shown = E.pool.shown) :
      Turns E m cursor rows
        (cursor.load (pageRows cursor.file.layout cursor.page (E.pool.shown cursor.page)))
        (rows ++ pageRows cursor.file.layout cursor.page (E.pool.shown cursor.page))

theorem Turns.id {E : Engine ρ} (m : Move ρ) (cursor : Cursor) (rows : List Row) :
    E.Turns m cursor rows cursor rows := .same cursor.rows

/-- What comes of a scan when its call has taken a step: the call goes on, or it answers, or the
    cursor is refused. -/
inductive Steps (E : Engine ρ) (c : CallNo) (out : List Row) (cursor : Cursor) (rows : List Row) :
    Prop
  | goes (cursor' : Cursor) (rows' : List Row) (hnone : (E.step c).2 = none)
      (hstands : (E.step c).1.Stands ⟨.inr c, out⟩ cursor' rows')
      (hturns : E.Turns (.event (.step c)) cursor rows cursor' rows')
  | answers (reading : Reading) (left : List Row)
      (ha : (E.step c).2 = some (.moved { cursor with rows := some left } (.ok reading)))
      (hsame : rows = out ++ reading.given ++ left)
  | refused (goal : Cursor.Goal) (e : StoreError)
      (ha : (E.step c).2 = some (.moved (cursor.refuse goal) (.error e)))
      (hcall : ∃ call, E.calls.get? c = some call ∧ call.task.taken = goal.taken)
      (hsame : ∃ left, cursor.rows = some left ∧ rows = out ++ goal.taken ++ left)

section stands

variable {E : Engine ρ} {cursor : Cursor} {goal : Cursor.Goal} {c : CallNo} {out : List Row}

/-- A call that is at work and goes on is at its next point. -/
theorem work_goes {call : Call} {Q : Pool ρ} {task : Task}
    (h : call.task.run E.pool call.txn = (Q, .inl task)) :
    E.work c call = ({ E with pool := Q, calls := E.calls.insert c { call with task } }, none) := by
  simp only [work, h]

/-- A call that moves a cursor goes on with its rows, or answers. -/
theorem steps_advance {left : List Row}
    (hcall : E.calls.get? c = some ⟨cursor.txn, .advance cursor goal⟩)
    (hrows : cursor.rows = some left) : E.Steps c out cursor (out ++ goal.taken ++ left) := by
  have hstep : E.step c = E.work c ⟨cursor.txn, .advance cursor goal⟩ := by
    simp only [step, hcall, Task.demand]
  rcases Task.run_advance (P := E.pool) (t := cursor.txn) hrows goal with
    ⟨taken, rfl, heq⟩ | ⟨rfl, _, heq⟩ | ⟨hdrain, _, heq⟩
  · -- The loop takes the rows that are left.
    have hmoved := hstep.trans (work_goes heq)
    refine .goes { cursor with rows := some [] } _ (by rw [hmoved]) ?_ (.same _)
    have hstands : (E.step c).1.Stands ⟨.inr c, out⟩ { cursor with rows := some [] }
        (out ++ (Cursor.Goal.drain (taken ++ left)).taken ++ []) := by
      rw [hmoved]
      exact .moving (Assoc.get?_insert_self _ _ _) rfl
    rw [Cursor.Goal.taken, List.append_nil, ← List.append_assoc] at hstands
    exact hstands
  · have hmoved := hstep.trans (work_goes heq)
    refine .goes cursor _ (by rw [hmoved]) ?_ (.id _ _ _)
    rw [hmoved, List.append_nil]
    exact .loading (Assoc.get?_insert_self _ _ _) hrows
  · have hmoved : (E.step c).2 =
        some (.moved (cursor.answer left goal).1 (cursor.answer left goal).2) := by
      rw [hstep, work, heq]
    rcases Cursor.answer_cases hrows hdrain with ⟨reading, left', ha, hsame, _⟩ | ⟨rfl, rfl, ha⟩
    · refine .answers reading left' (by rw [hmoved, ha]) ?_
      rw [List.append_assoc, hsame, List.append_assoc]
    · exact .refused .next .noMoreRows (by rw [hmoved, ha]; rfl) ⟨_, hcall, rfl⟩ ⟨[], hrows, rfl⟩

/-- A call that waits for a page of its cursor, goes on waiting, or reads it, or is refused. -/
theorem steps_load (hs : E.Sited) (hl : E.Listed) (hb : E.pool.locks.Backed)
    (hf : E.pool.tables.get? cursor.file.table = some cursor.file)
    (hcall : E.calls.get? c = some ⟨cursor.txn, .load cursor goal⟩)
    (hrows : cursor.rows = some []) : E.Steps c out cursor (out ++ goal.taken) := by
  have hrefused : ∀ e, (E.step c).2 = some (.moved (cursor.refuse goal) (.error e)) →
      E.Steps c out cursor (out ++ goal.taken) := fun e h =>
    .refused goal e h ⟨_, hcall, rfl⟩ ⟨[], hrows, (List.append_nil _).symm⟩
  rcases E.step_cases c with ⟨_, heq⟩ | ⟨call, locks, hrule, heq⟩ | ⟨call, locks, _, heq⟩ |
    ⟨call, locks, page, mode, hrule, _, heq⟩
  · refine .goes cursor _ (by rw [heq]) ?_ (.id _ _ _)
    rw [heq]
    exact .loading hcall hrows
  · cases hcall.symm.trans (get?_of_ruling hrule)
    have hheld := held_demand hl hrule rfl hb
    rcases Task.run_load (P := (E.setLocks locks).pool) (t := cursor.txn)
      (hs.coherent.setLocks locks) hf goal with ⟨Q, hhas, hshown, hrun⟩ | ⟨Q, e, hrun⟩
    · have hmoved := heq.trans (work_goes hrun)
      refine .goes _ _ (by rw [hmoved]) ?_ (.read hhas ?_ ?_)
      · rw [hmoved]
        exact .moving (Assoc.get?_insert_self _ _ _) rfl
      · rw [locksDuring_step hrule]
        exact hheld
      · simp only [move, exec, hmoved]
        exact hshown
    · exact hrefused e (by rw [heq, work, hrun])
  · refine .goes cursor _ (by rw [heq]) ?_ (.id _ _ _)
    rw [heq]
    exact .loading hcall hrows
  · cases hcall.symm.trans (get?_of_ruling hrule)
    exact hrefused _ (by rw [heq]; rfl)

end stands

/-- Who is told that there are no more rows has a cursor that is done. -/
theorem done_of_told {E : Engine ρ} {c : CallNo} {t : TxnId} {cursor cursor' : Cursor}
    {goal : Cursor.Goal} {left : List Row}
    (hcall : E.calls.get? c = some ⟨t, .advance cursor goal⟩) (hrows : cursor.rows = some left)
    {reading : Except StoreError Reading} (ha : (E.step c).2 = some (.moved cursor' reading))
    (hlast : Reading.isLast reading = true) : cursor'.Done (E.step c).1.pool := by
  have hstep : E.step c = E.work c ⟨t, .advance cursor goal⟩ := by
    simp only [step, hcall, Task.demand]
  rw [hstep] at ha ⊢
  rw [pool_work, Task.pool_advance]
  rcases E.calls_work c ⟨t, .advance cursor goal⟩ with ⟨_, _, hnone, _⟩ | ⟨outcome, hrun, hout, _⟩
  · cases hnone.symm.trans ha
  · cases hout.symm.trans ha
    exact Task.done_of_last hrows hlast hrun

/-- A move leaves all rows of a scan what they are, or adds those of the next page. -/
theorem stands_move {E : Engine ρ} (hs : E.Sited) (hl : E.Listed) (hb : E.pool.locks.Backed)
    {s s' : Scan} {cursor : Cursor} {rows : List Row} (h : E.Stands s cursor rows)
    (hf : E.pool.tables.get? cursor.file.table = some cursor.file) {m : Move ρ}
    (hr : E.Reads s m s') :
    ∃ cursor' rows', (E.move m).Stands s' cursor' rows' ∧ E.Turns m cursor rows cursor' rows' := by
  have hsteps : ∀ c out, s = ⟨.inr c, out⟩ → E.Steps c out cursor rows := by
    rintro c out rfl
    cases h with
    | moving hcall hrows => exact steps_advance hcall hrows
    | loading hcall hrows => exact steps_load hs hl hb hf hcall hrows
  cases hr with
  | rest =>
      cases h with
      | resting hrows => exact ⟨_, _, .resting hrows, .id _ _ _⟩
  | @ask _ goal out hgoal =>
      cases h with
      | @resting _ left _ hrows =>
          have hstands : (E.move (.event (.submit cursor.txn (.advance cursor goal)))).Stands
              ⟨.inr ⟨E.nextCall⟩, out⟩ cursor (out ++ goal.taken ++ left) :=
            .moving (Assoc.get?_insert_self _ _ _) hrows
          rw [hgoal, List.append_nil] at hstands
          exact ⟨cursor, _, hstands, .id _ _ _⟩
  | @wait c out m hm =>
      by_cases hstep : m = .event (.step c)
      · cases hstep
        have hnone : (E.step c).2 = none := by simpa [goesOn, Move.isStep] using hm
        cases hsteps c out rfl with
        | goes cursor' rows' _ hstands hturns => exact ⟨cursor', rows', hstands, hturns⟩
        | answers _ _ ha _ => cases hnone.symm.trans ha
        | refused _ _ ha _ _ => cases hnone.symm.trans ha
      · refine ⟨cursor, rows, ?_, .id _ _ _⟩
        cases h with
        | moving hcall hrows =>
            exact .moving (get?_move_other hl hcall hstep) hrows
        | loading hcall hrows =>
            exact .loading (get?_move_other hl hcall hstep) hrows
  | @answer c out cursor' reading ha =>
      cases hsteps c out rfl with
      | goes _ _ hnone _ _ => cases hnone.symm.trans ha
      | answers _ left ha' hsame =>
          cases ha.symm.trans ha'
          exact ⟨_, _, .resting rfl, hsame ▸ .same (some left)⟩
      | refused _ _ ha' _ _ => cases ha.symm.trans ha'
  | @refused c out cursor' e ha hopen hkept =>
      cases hsteps c out rfl with
      | goes _ _ hnone _ _ => cases hnone.symm.trans ha
      | answers _ _ ha' _ => cases ha.symm.trans ha'
      | refused goal _ ha' hcall hsame =>
          cases ha.symm.trans ha'
          rcases hcall with ⟨call, hcall, htaken⟩
          rcases hsame with ⟨left, hrows, rfl⟩
          -- The cursor is still open, and the call has not taken rows.
          rw [← htaken, hkept call hcall, List.append_nil, Cursor.refuse_of_open hopen]
          exact ⟨cursor, _, .resting hrows, .id _ _ _⟩

end Engine

end RowStore
