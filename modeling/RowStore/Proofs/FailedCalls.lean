import Mathlib.Data.List.Induction
import RowStore.Proofs.Capacity
import RowStore.Proofs.FirstFit
import RowStore.Proofs.Footprints
import RowStore.Proofs.Upgrades

/-!
# Calls That Fail

What is left of a call that was to put a row into a table, or take one off it, and has
failed.

Such a call can fail at any of its points, and an insertion may have been at many pages
by then. It has asked for locks, and these it keeps. It has fetched pages, and others may
have left for them. And if it has found every page full that it had counted, the table
has grown. But a page is marked as changed only at the point that writes it, after all
that can fail was looked at. The row is known to be of the right width since the call
began, and a slot without a row is refused before the page is marked.

One thing is not looked at before the mark: whether the page still has room when the call
comes to write. It has, unless its own transaction gets in the way of the call, or the page
is discarded with what its transaction has changed there. Then the call ends with a page
that is marked though nothing on it was changed. That is `Engine.full_page_is_marked`, and
nothing else goes wrong, whatever calls a transaction makes at a time.

That a call found every page full is said of the steps that it took. There is a moment
of the call since which it has not had the table grow, and at all the pages that the
table had at this moment the call has looked, and has seen no free slot.

## Main definitions

* `Task.Spends`: What a point may do to a pool of which nothing looks different afterwards.
* `Engine.Looked`, `Engine.Counted`, `Engine.Sought`: A call has found every page full.
* `Engine.MarksFull`: A step has come to a full page and marked it.
* `Engine.Harmless`: A step has changed no data.
* `Engine.Underway`: A call for one row has not put it in place yet.

## Theorems

* `Task.spends_search`, `Task.spends_remove`: Neither a search nor a failure changes data.
* `Engine.underway_moves`: A call is underway until its row is in place, and then it cannot fail.
* `Engine.harmless_step`: The steps of a call that is underway are harmless.
* `Engine.failed_row_call_changes_no_data`: So are all those of a call that fails.
* `Engine.full_page_is_marked`: But a page may be marked that turns out to be full.
-/

namespace RowStore

/-- A list that ends with an element is cut before an element: before its end, or earlier. -/
theorem cut_before_end {α : Type} {l mid rest : List α} {a b : α}
    (h : l ++ [a] = mid ++ b :: rest) :
    (mid = l ∧ b = a ∧ rest = []) ∨ ∃ rest', rest = rest' ++ [a] ∧ l = mid ++ b :: rest' := by
  rcases List.eq_nil_or_concat rest with rfl | ⟨rest', x, rfl⟩
  · rcases List.append_inj' h rfl with ⟨rfl, hb⟩
    cases hb
    exact Or.inl ⟨rfl, rfl, rfl⟩
  · have h' : l ++ [a] = (mid ++ b :: rest') ++ [x] := by
      rw [h, List.append_assoc, List.cons_append, List.concat_eq_append]
    rcases List.append_inj' h' rfl with ⟨rfl, hx⟩
    cases hx
    exact Or.inr ⟨rest', List.concat_eq_append, rfl⟩

/-- What is shown of the pages is as it was, and so are their images and the handles. -/
structure Pool.Unharmed {ρ : Type} (P Q : Pool ρ) : Prop where
  shown : Q.shown = P.shown
  stored : Q.stored = P.stored
  handles : Q.cache.handles = P.cache.handles

namespace Task

/-! ## Points that change no data -/

/-- The number of pages that an insertion has counted. -/
def count? : Task → Option Nat
  | .seek _ _ _ _ count | .inspect _ _ _ _ count => some count
  | _ => none

/-- Whether a call is to put one row into a table, or to take one off it, and has just begun. -/
def isRowCall : Task → Bool
  | .insert job => job.placed.isEmpty && job.rows.length == 1
  | .delete _ => true
  | _ => false

/-- What a point may do to a pool of which nothing looks different afterwards: nothing that can be
    seen, or have a table grow of which all counted pages were passed, or mark the page that it came
    to write, and that turns out to be full. -/
inductive Spends {ρ : Type} (P Q : Pool ρ) (t : TxnId) (task : Task) (r : Task ⊕ Outcome) : Prop
  | quiet (h : P.Quiet Q)
  | grown {job : Insertion} {file : TableFile} {row : Bytes} {page count : Nat}
      (htask : task = .seek job file row page count) (hall : count ≤ page)
      (hQ : Q = { P with disk := file.grown P.disk })
  | marked {s : Search} {R : Pool ρ} {f : FrameNo} {o : Outcome} {n : Nat}
      (hs : task.claim? = some s) (hx : P.locks.mode? t s.pageId = some .exclusive)
      (hfull : SlotPage.firstFree s.file.layout (P.shown s.pageId) = none) (hq : P.Quiet R)
      (hc : R.Coherent) (hres : R.cache.resident.get? s.pageId = some f)
      (hQ : Q = R.marked ⟨s.pageId, f, t, .readWrite⟩) (hr : r = .inr o)
      (hfail : o.failure? = some (.pageFull n))

section Spends

variable {ρ : Type} {P Q : Pool ρ} {t : TxnId} {task : Task} {r : Task ⊕ Outcome}
  (h : Spends P Q t task r)

include h

theorem Spends.unharmed (hc : P.Coherent) (hk : ∀ f ∈ task.file?, P.tables.get? f.table = some f) :
    P.Unharmed Q := by
  cases h with
  | quiet h => exact ⟨h.shown, h.stored, h.handles⟩
  | @grown job file row page count htask _ hQ =>
      subst htask
      subst hQ
      have hp := Pool.performs_grown hc (hk file rfl) ⟨0⟩
      exact ⟨hp.shown, hp.stored, rfl⟩
  | marked _ _ _ hq hc hres hQ _ _ =>
      subst hQ
      exact ⟨(Pool.shown_marked (Pool.grasps_of_resident hc hres) hc.tidy).trans hq.shown,
        (Pool.stored_congr rfl rfl).trans hq.stored, hq.handles⟩

/-- Only the page that it came to write is marked, if that turns out to be full. -/
theorem Spends.owner :
    Q.owner? = P.owner? ∨ ∃ s o n, task.claim? = some s ∧ r = .inr o ∧
      o.failure? = some (.pageFull n) ∧ P.locks.mode? t s.pageId = some .exclusive ∧
      SlotPage.firstFree s.file.layout (P.shown s.pageId) = none ∧
      ∀ p, Q.owner? p = if p = s.pageId then some t else P.owner? p := by
  cases h with
  | quiet h => exact Or.inl h.owner
  | grown _ _ hQ =>
      subst hQ
      exact Or.inl rfl
  | marked hs hx hfull hq hc hres hQ hr hfail =>
      refine Or.inr ⟨_, _, _, hs, hr, hfail, hx, hfull, fun p => ?_⟩
      rw [hQ, Pool.owner?_marked (Pool.grasps_of_resident hc hres) hc.tidy, hq.owner]
      simp only [hres, and_true]

theorem Spends.disk : Q.disk = P.disk ∨ ∃ job file row page count,
    task = .seek job file row page count ∧ count ≤ page ∧ Q.disk = file.grown P.disk := by
  cases h with
  | quiet h => exact Or.inl h.disk
  | grown htask hall hQ =>
      subst hQ
      exact Or.inr ⟨_, _, _, _, _, htask, hall, rfl⟩
  | marked _ _ _ hq _ _ hQ _ _ =>
      subst hQ
      exact Or.inl hq.disk

end Spends

variable {ρ : Type} [EvictionOrder ρ] {P Q : Pool ρ} {t : TxnId}

/-- To take up a row is to look at no page. -/
theorem pool_insert (P : Pool ρ) (t : TxnId) (job : Insertion) : (run P t (.insert job)).1 = P := by
  simp only [run]
  split
  · rfl
  split
  · rfl
  split <;> rfl

theorem pool_delete (P : Pool ρ) (t : TxnId) (row : Option RowId) :
    (run P t (.delete row)).1 = P := by
  cases row with
  | none => rfl
  | some r =>
      simp only [run]
      split
      · rfl
      split <;> rfl

section spends

variable (hc : P.Coherent)

include hc

/-- A point of a search does nothing to the data, unless it puts the row on the page. -/
theorem spends_search (hb : P.Bounded) {s : Search}
    (hf : P.tables.get? s.file.table = some s.file) (hwidth : s.row.size = s.file.layout.rowWidth)
    {task : Task} (hs : task.search? = some s) {r : Task ⊕ Outcome}
    (hrun : run P t task = (Q, r))
    (hr : ∀ slot, r ≠ .inl (.insert (s.job.place ⟨s.pageId, slot⟩))) :
    Spends P Q t task r := by
  cases task with
  | survey job file row page =>
      cases hrun
      exact .quiet (.refl P)
  | seek job file row page count =>
      cases hs
      simp only [run] at hrun
      split at hrun
      · cases hrun
        exact .quiet (.refl P)
      · rename_i hpast
        split at hrun
        · cases hrun
          exact .quiet (.refl P)
        · rename_i happend
          cases hrun
          have hlt : file.pagesOn P.disk < UInt32.size :=
            Nat.lt_of_lt_of_le (hb _ file hf) (Nat.sub_le _ _)
          exact .grown rfl (Nat.le_of_not_lt hpast) (by rw [(file.append_eq_ok hlt happend).2])
  | inspect job file row page count =>
      cases hs
      simp only [run] at hrun
      rcases fetchHandle_cases hc t ⟨file.table, page⟩ .readOnly with
        ⟨R, hq, _, ⟨f, heq, _⟩ | ⟨e, heq, _⟩⟩
      · rw [heq] at hrun
        simp only at hrun
        split at hrun <;> cases hrun <;> exact .quiet hq
      · rw [heq] at hrun
        cases hrun
        exact .quiet hq
  | claim job file row page =>
      cases hs
      simp only [run] at hrun
      rcases fetchHandle_cases hc t ⟨file.table, page⟩ .readWrite with
        ⟨R, hq, hcr, ⟨f, heq, hres⟩ | ⟨e, heq, _⟩⟩
      · have hg := Pool.grasps_of_resident hcr (h := ⟨⟨file.table, page⟩, f, t, .readWrite⟩) hres
        have hbytes : R.bytesOf ⟨⟨file.table, page⟩, f, t, .readWrite⟩ =
            P.shown ⟨file.table, page⟩ := (hcr.bytesOf_eq hres).trans (congrFun hq.shown _)
        have hsize : (P.shown ⟨file.table, page⟩).size = file.layout.pageSize := hc.size_shown hf
        rw [heq] at hrun
        simp only [putRow_eq] at hrun
        rcases Pool.alter_cases hg (rowIn file.layout row) with
          ⟨e, _, heq'⟩ | ⟨hw, e, hwork, heq'⟩ | ⟨_, slot, b, _, heq'⟩
        · rw [heq'] at hrun
          cases hrun
          exact .quiet hq
        · rw [heq'] at hrun
          cases hrun
          have hx := Pool.mode?_of_checkWrite hw
          rw [hq.locks] at hx
          -- The row is of the right width, so the page must be full.
          rw [hbytes, rowIn_eq hsize, SlotPage.insert, if_neg (not_not_intro hwidth)] at hwork
          split at hwork
          · rename_i hfull
            cases hwork
            exact .marked (s := ⟨job, file, row, page⟩) rfl hx hfull hq hcr hres rfl rfl rfl
          · cases hwork
        · rw [heq'] at hrun
          cases hrun
          exact absurd rfl (hr slot)
      · rw [heq] at hrun
        cases hrun
        exact .quiet hq
  | _ => cases hs

/-- Nor does the point at which a row is taken off its page, if it fails. -/
theorem spends_remove {file : TableFile} {row : RowId} (htable : row.page.table = file.table)
    (hf : P.tables.get? file.table = some file) {r : Task ⊕ Outcome}
    (hrun : run P t (.remove file row) = (Q, r)) (hr : r ≠ .inr .deleted) :
    Spends P Q t (.remove file row) r := by
  simp only [run] at hrun
  rcases fetchHandle_cases hc t row.page .readWrite with
    ⟨R, hq, hcr, ⟨f, heq, hres⟩ | ⟨e, heq, _⟩⟩
  · have hg := Pool.grasps_of_resident hcr (h := ⟨row.page, f, t, .readWrite⟩) hres
    have hsize : (R.bytesOf ⟨row.page, f, t, .readWrite⟩).size = file.layout.pageSize := by
      rw [hcr.bytesOf_eq hres]
      exact hcr.size_shown (by rw [hq.tables, htable, hf])
    rw [heq] at hrun
    simp only [dropRow_eq] at hrun
    rcases SlotPage.checkRowAt_cases hsize row.slot with
      ⟨_, hcheck⟩ | ⟨_, _, hcheck⟩ | ⟨_, hcheck, b, hout, _⟩
    · rw [hcheck] at hrun
      cases hrun
      exact .quiet hq
    · rw [hcheck] at hrun
      cases hrun
      exact .quiet hq
    · -- There is a row in the slot, so it is only the lock that can be missing.
      rw [hcheck] at hrun
      rcases Pool.alter_cases hg (rowOut file.layout row.slot) with
        ⟨e, _, heq'⟩ | ⟨_, e, hwork, _⟩ | ⟨_, _, _, _, heq'⟩
      · rw [heq'] at hrun
        cases hrun
        exact .quiet hq
      · cases hwork.symm.trans hout
      · rw [heq'] at hrun
        cases hrun
        exact absurd rfl hr
  · rw [heq] at hrun
    cases hrun
    exact .quiet hq

end spends

end Task

namespace Engine

variable {ρ : Type} [EvictionOrder ρ]

/-! ## What a call has found -/

/-- The call goes to work and looks at a page that has no free slot. -/
def FindsFull (E : Engine ρ) (c : CallNo) (f : TableFile) (k : Nat) : Prop :=
  ∃ call locks, E.ruling c = some (call, locks, .granted) ∧
    call.task.demand = some (⟨f.table, k⟩, .shared) ∧
    SlotPage.firstFree f.layout (E.pool.shown ⟨f.table, k⟩) = none

/-- At one of the moves of a run the call has found a page full. -/
def Looked (E : Engine ρ) (c : CallNo) (f : TableFile) (ms : List (Move ρ)) (k : Nat) : Prop :=
  ∃ before after, ms = before ++ .event (.step c) :: after ∧ (E.moves before).FindsFull c f k

/-- At some moment of a run the table had so many pages, and by none of its steps since then has the
    call changed the disk. -/
def Counted (E : Engine ρ) (c : CallNo) (f : TableFile) (ms : List (Move ρ)) (n : Nat) : Prop :=
  ∃ before after, ms = before ++ after ∧ f.pagesOn (E.moves before).pool.disk = n ∧
    ∀ mid rest, after = mid ++ .event (.step c) :: rest →
      ((E.moves (before ++ mid)).step c).1.pool.disk = (E.moves (before ++ mid)).pool.disk

/-- The call has found every page full that it has counted. -/
def Sought (E : Engine ρ) (c : CallNo) (f : TableFile) (ms : List (Move ρ)) : Prop :=
  ∃ n, E.Counted c f ms n ∧ ∀ k < n, E.Looked c f ms k

/-- What was found is found as well if the run goes on. -/
theorem Looked.append {E : Engine ρ} {c : CallNo} {f : TableFile}
    {ms : List (Move ρ)} {k : Nat} (h : E.Looked c f ms k) (m : Move ρ) :
    E.Looked c f (ms ++ [m]) k := by
  rcases h with ⟨before, after, rfl, hfull⟩
  exact ⟨before, after ++ [m], by rw [List.append_assoc, List.cons_append], hfull⟩

theorem Counted.append {E : Engine ρ} {c : CallNo} {f : TableFile} {ms : List (Move ρ)} {n : Nat}
    (h : E.Counted c f ms n) {m : Move ρ} (hm : m = .event (.step c) →
      ((E.moves ms).step c).1.pool.disk = (E.moves ms).pool.disk) :
    E.Counted c f (ms ++ [m]) n := by
  rcases h with ⟨before, after, rfl, hn, hsince⟩
  refine ⟨before, after ++ [m], List.append_assoc _ _ _, hn, fun mid rest hcut => ?_⟩
  rcases cut_before_end hcut with ⟨rfl, heq, _⟩ | ⟨rest', _, heq⟩
  · exact hm heq.symm
  · exact hsince mid rest' heq

/-! ## Calls that are underway -/

/-- A call that is to put one row into a table, or take one off it, and has not done so: it begins,
    or searches for a page and has found full those that it has passed, or is about to take the row
    off its page. -/
inductive Underway (E : Engine ρ) (c : CallNo) (ms : List (Move ρ)) : Task → Prop
  | begins {job : Insertion} {row : Bytes} (hrows : job.rows = [row]) :
      Underway E c ms (.insert job)
  | searches {task : Task} {s : Search} (hs : task.search? = some s) (hrows : s.job.rows = [s.row])
      (hwidth : s.row.size = s.file.layout.rowWidth)
      (hlooked : ∀ k < s.page, E.Looked c s.file ms k)
      (hcounted : ∀ n, task.count? = some n → E.Counted c s.file ms n) : Underway E c ms task
  | deletes (row : Option RowId) : Underway E c ms (.delete row)
  | removes {file : TableFile} {row : RowId} (htable : row.page.table = file.table) :
      Underway E c ms (.remove file row)

/-- The call has put its rows in place, and has only to say so. -/
def Done (E : Engine ρ) (c : CallNo) (t : TxnId) : Prop :=
  ∃ job, E.calls.get? c = some ⟨t, .insert job⟩ ∧ job.rows = []

theorem underway_entry {task : Task} (h : task.isRowCall = true) (E : Engine ρ) (c : CallNo) :
    E.Underway c [] task := by
  cases task with
  | insert job =>
      have hone : job.rows.length = 1 := by
        simp only [Task.isRowCall, Bool.and_eq_true, beq_iff_eq] at h
        exact h.2
      rcases List.length_eq_one_iff.1 hone with ⟨row, hrows⟩
      exact .begins hrows
  | delete row => exact .deletes row
  | _ => cases h

/-- A call that is underway is one of those that can be read off its point. -/
theorem Underway.kind {E : Engine ρ} {c : CallNo} {ms : List (Move ρ)} {task : Task}
    (h : E.Underway c ms task) : task.isInsertion = true ∨ task.isDeletion = true := by
  cases h with
  | begins _ => exact Or.inl rfl
  | deletes _ | removes _ => exact Or.inr rfl
  | searches hs _ _ _ _ =>
      cases task with
      | survey _ _ _ _ | seek _ _ _ _ _ | inspect _ _ _ _ _ | claim _ _ _ _ => exact Or.inl rfl
      | _ => cases hs

theorem Underway.isScan {E : Engine ρ} {c : CallNo} {ms : List (Move ρ)} {task : Task}
    (h : E.Underway c ms task) : task.isScan = false := by
  rcases h.kind with hins | hdel
  · exact Task.isScan_of_isInsertion hins
  · cases task with
    | advance _ _ | load _ _ => cases hdel
    | _ => rfl

/-- An insertion that has passed all pages that it has counted has found every one of them full. -/
theorem Underway.sought {E : Engine ρ} {c : CallNo} {ms : List (Move ρ)} {job : Insertion}
    {file : TableFile} {row : Bytes} {page count : Nat}
    (h : E.Underway c ms (.seek job file row page count)) (hall : count ≤ page) :
    E.Sought c file ms := by
  cases h with
  | searches hs _ _ hlooked hcounted =>
      cases hs
      exact ⟨count, hcounted count rfl, fun k hk => hlooked k (Nat.lt_of_lt_of_le hk hall)⟩

/-- Whatever happens while the call takes no step by which the disk changes, it is where it was. -/
theorem Underway.append {E : Engine ρ} {c : CallNo} {ms : List (Move ρ)} {task : Task}
    (h : E.Underway c ms task) {m : Move ρ} (hm : m = .event (.step c) →
      ((E.moves ms).step c).1.pool.disk = (E.moves ms).pool.disk) :
    E.Underway c (ms ++ [m]) task := by
  cases h with
  | begins hrows => exact .begins hrows
  | searches hs hrows hwidth hlooked hcounted =>
      exact .searches hs hrows hwidth (fun k hk => (hlooked k hk).append m) fun n hn =>
        (hcounted n hn).append hm
  | deletes row => exact .deletes row
  | removes htable => exact .removes htable

omit [EvictionOrder ρ] in
/-- A search keeps to a file by which its table is known. -/
theorem known_of_search {E : Engine ρ} (hs : E.Sited) {c : CallNo} {t : TxnId} {task : Task}
    (hcall : E.calls.get? c = some ⟨t, task⟩) {s : Search} (h : task.search? = some s) :
    E.pool.tables.get? s.file.table = some s.file := by
  cases task with
  | survey _ _ _ _ | seek _ _ _ _ _ | inspect _ _ _ _ _ | claim _ _ _ _ =>
      cases h
      exact hs.fits c _ hcall rfl _ rfl
  | _ => cases h

/-- A call that does not go to work leaves the disk alone. -/
theorem disk_idle {E : Engine ρ} {c : CallNo} {call : Call} (hcall : E.calls.get? c = some call)
    (hidle : ∀ locks, E.ruling c ≠ some (call, locks, .granted)) :
    (E.step c).1.pool.disk = E.pool.disk := by
  rcases E.step_cases c with ⟨_, heq⟩ | ⟨call', locks, hrule, _⟩ | ⟨_, _, _, heq⟩ |
    ⟨_, _, _, _, _, _, heq⟩
  · rw [heq]
  · cases hcall.symm.trans (get?_of_ruling hrule)
    exact absurd hrule (hidle locks)
  · rw [heq]
    rfl
  · rw [heq]
    rfl

section step

variable {E F : Engine ρ} {ms : List (Move ρ)} (hF : E.moves ms = F) (hsited : F.Sited)
  (hb : F.pool.Bounded) {c : CallNo} {t : TxnId} {task : Task}
  (hcall : F.calls.get? c = some ⟨t, task⟩)

include hF hsited hb hcall

/-- A search goes on and has found full what it passes, or it has put the row in place. -/
theorem searches_run {s : Search} (hs : task.search? = some s) (hrows : s.job.rows = [s.row])
    (hwidth : s.row.size = s.file.layout.rowWidth) (hlooked : ∀ k < s.page, E.Looked c s.file ms k)
    (hcounted : ∀ n, task.count? = some n → E.Counted c s.file ms n) {locks : LockTable}
    (hrule : F.ruling c = some (⟨t, task⟩, locks, .granted)) {Q : Pool ρ} {task' : Task}
    (hrun : task.run (F.pool.setLocks locks) t = (Q, .inl task'))
    (hstep : (F.step c).1.pool = Q) :
    E.Underway c (ms ++ [.event (.step c)]) task' ∨ ∃ job, task' = .insert job ∧ job.rows = [] := by
  have hc := hsited.coherent.setLocks locks
  have hf := known_of_search hsited hcall hs
  have hkeep : ∀ k < s.page, E.Looked c s.file (ms ++ [.event (.step c)]) k :=
    fun k hk => (hlooked k hk).append _
  -- The count stands as long as the table does not grow.
  have hcount : Q.disk = F.pool.disk → ∀ n, task.count? = some n →
      E.Counted c s.file (ms ++ [.event (.step c)]) n := fun hd n hn =>
    (hcounted n hn).append fun _ => by rw [hF, hstep, hd]
  cases task with
  | survey job file row page =>
      cases hs
      cases hrun
      refine Or.inl (.searches (s := ⟨job, file, row, page⟩) rfl hrows hwidth hkeep ?_)
      -- The pages are counted now, and the call has done nothing since.
      rintro n ⟨⟩
      refine ⟨ms, [.event (.step c)], rfl, ?_, fun mid rest hcut => ?_⟩
      · rw [hF]
        exact (hb.pageCount_eq hf).symm
      · rcases cut_before_end (l := []) hcut with ⟨rfl, _, _⟩ | ⟨_, _, hnil⟩
        · rw [List.append_nil, hF, hstep]
          rfl
        · cases (List.append_eq_nil_iff.1 hnil.symm).2
  | seek job file row page count =>
      cases hs
      simp only [Task.run] at hrun
      split at hrun
      · cases hrun
        exact Or.inl (.searches (s := ⟨job, file, row, page⟩) rfl hrows hwidth hkeep (hcount rfl))
      · split at hrun
        · cases hrun
        · cases hrun
          exact Or.inl (.searches (s := ⟨job, file, row, page⟩) rfl hrows hwidth hkeep
            fun n hn => by cases hn)
  | inspect job file row page count =>
      cases hs
      have hquiet : Q.disk = F.pool.disk := by
        rcases Task.disk_run (F.pool.setLocks locks) t (.inspect job file row page count) with
          hd | ⟨_, _, _, _, _, _, htask, _⟩
        · rw [hrun] at hd
          exact hd
        · cases htask
      rcases Task.run_inspect (t := t) hc hf job row page count with
        ⟨R, _, heq⟩ | ⟨R, e, _, heq⟩
      · cases hfree : SlotPage.firstFree file.layout
            ((F.pool.setLocks locks).shown ⟨file.table, page⟩) with
        | none =>
            rw [hfree] at heq
            cases hrun.symm.trans heq
            have hfull : E.Looked c file (ms ++ [.event (.step c)]) page :=
              ⟨ms, [], rfl, hF ▸ ⟨_, locks, hrule, rfl, hfree⟩⟩
            refine Or.inl (.searches (s := ⟨job, file, row, page + 1⟩) rfl hrows hwidth ?_
              (hcount hquiet))
            exact fun k hk => (Nat.lt_succ_iff_lt_or_eq.1 hk).elim (hkeep k) fun heq => heq ▸ hfull
        | some slot =>
            rw [hfree] at heq
            cases hrun.symm.trans heq
            exact Or.inl (.searches (s := ⟨job, file, row, page⟩) rfl hrows hwidth hkeep
              fun n hn => by cases hn)
      · cases hrun.symm.trans heq
  | claim job file row page =>
      cases hs
      rcases Task.run_claim (t := t) hc hf job row page with
        ⟨R, slot, b, _, _, _, _, heq⟩ | ⟨R, e, heq, _⟩
      · cases hrun.symm.trans heq
        exact Or.inr ⟨_, rfl, by rw [Insertion.place, hrows]; rfl⟩
      · cases hrun.symm.trans heq
  | _ => cases hs

variable (hu : E.Underway c ms task)

include hu

omit hF in
/-- A point of a call that is underway changes no data, unless the row is put in place there or the
    call ends well. -/
theorem spends_underway {locks : LockTable} {Q : Pool ρ} {r : Task ⊕ Outcome}
    (hrun : task.run (F.pool.setLocks locks) t = (Q, r))
    (hgoes : ∀ job, r = .inl (.insert job) → job.rows ≠ [])
    (hends : ∀ o, r = .inr o → o.failure? ≠ none) :
    Task.Spends (F.pool.setLocks locks) Q t task r := by
  have hc := hsited.coherent.setLocks locks
  -- Before it has found its table and row a call only looks things up.
  cases hu with
  | @begins job row hrows =>
      have hpool := Task.pool_insert (F.pool.setLocks locks) t job
      rw [hrun] at hpool
      exact .quiet (hpool ▸ .refl _)
  | deletes row =>
      have hpool := Task.pool_delete (F.pool.setLocks locks) t row
      rw [hrun] at hpool
      exact .quiet (hpool ▸ .refl _)
  | removes htable =>
      refine Task.spends_remove hc htable (hsited.fits c _ hcall rfl _ rfl) hrun ?_
      rintro rfl
      exact hends _ rfl rfl
  | @searches _ s hs hrows hwidth _ _ =>
      refine Task.spends_search hc hb (known_of_search hsited hcall hs) hwidth hs hrun ?_
      rintro slot rfl
      exact hgoes _ rfl (by rw [Insertion.place, hrows]; rfl)

/-- A call that goes to work and goes on is underway at its next point, or has put its row in
    place. -/
theorem underway_run {locks : LockTable} (hrule : F.ruling c = some (⟨t, task⟩, locks, .granted))
    {Q : Pool ρ} {task' : Task} (hrun : task.run (F.pool.setLocks locks) t = (Q, .inl task'))
    (hstep : (F.step c).1.pool = Q) :
    E.Underway c (ms ++ [.event (.step c)]) task' ∨ ∃ job, task' = .insert job ∧ job.rows = [] := by
  cases hu with
  | searches hs hrows hwidth hlooked hcounted =>
      exact searches_run hF hsited hb hcall hs hrows hwidth hlooked hcounted hrule hrun hstep
  | @begins job row hrows =>
      simp only [Task.run, hrows] at hrun
      split at hrun
      · cases hrun
      · split at hrun
        · cases hrun
        · rename_i file _ _ hrow
          cases hrun
          -- The search begins with no page looked at and none counted.
          exact Or.inl (.searches (s := ⟨job, file, row, 0⟩) rfl hrows (file.checkRow_eq_ok hrow)
            (fun k hk => absurd hk (Nat.not_lt_zero k)) fun n hn => by cases hn)
  | deletes row =>
      cases row with
      | none => cases hrun
      | some r =>
          simp only [Task.run] at hrun
          split at hrun
          · cases hrun
          · split at hrun
            · cases hrun
            · rename_i file _ _ hpage
              cases hrun
              exact Or.inl (.removes (file.checkPage_eq_ok hpage))
  | @removes file row htable =>
      -- Its last point: the call ends there, well or not.
      simp only [Task.run] at hrun
      split at hrun
      · cases hrun
      · split at hrun
        · cases hrun
        · split at hrun <;> cases hrun

end step

/-- What a run of a call has to be: files are changed only through the pool, and the call does not
    end by a move. -/
def GoesOn (c : CallNo) (E : Engine ρ) (m : Move ρ) : Prop := E.Placed m ∧ E.goesOn c m = true

instance (c : CallNo) (E : Engine ρ) (m : Move ρ) : Decidable (E.GoesOn c m) :=
  inferInstanceAs (Decidable (E.Placed m ∧ E.goesOn c m = true))

/-- A call whose rows are in place has not ended until it has said so. -/
theorem done_moves {E : Engine ρ} (h : E.Arises Placed) {c : CallNo} {t : TxnId}
    (hd : E.Done c t) {ms : List (Move ρ)} (hms : E.Admits (GoesOn c) ms) :
    (E.moves ms).Done c t := by
  induction ms generalizing E with
  | nil => exact hd
  | cons m rest ih =>
      rcases hms with ⟨hm, hrest⟩
      rcases hd with ⟨job, hcall, hrows⟩
      refine ih (.move h hm.1) ⟨job, ?_, hrows⟩ hrest
      rcases goes_cases h.listed hcall hm.2 with
        ⟨hsame, _⟩ | ⟨locks, Q, task, rfl, _, hrun, _⟩
      · exact hsame
      · simp only [Task.run, hrows] at hrun
        cases hrun

/-- And it cannot fail any more. -/
theorem Done.sound {E : Engine ρ} {c : CallNo} {t : TxnId} (hd : E.Done c t) {outcome : Outcome}
    (ho : (E.step c).2 = some outcome) : outcome.failure? = none := by
  rcases hd with ⟨job, hcall, hrows⟩
  rw [step_placed hcall hrows] at ho
  cases ho
  rfl

/-- A call for one row is underway as long as it has not put its row in place. -/
theorem underway_moves {E : Engine ρ} (h : E.Arises Placed) {c : CallNo} {t : TxnId} {task : Task}
    (hcall : E.calls.get? c = some ⟨t, task⟩) (hrow : task.isRowCall = true) {ms : List (Move ρ)}
    (hms : E.Admits (GoesOn c) ms) :
    (∃ task', (E.moves ms).calls.get? c = some ⟨t, task'⟩ ∧ E.Underway c ms task') ∨
      (E.moves ms).Done c t := by
  -- What has been found is said of the whole run, so the induction is on its end.
  induction ms using List.reverseRecOn with
  | nil => exact Or.inl ⟨task, hcall, underway_entry hrow E c⟩
  | append_singleton l m ih =>
      rcases hms.split with ⟨hl, hm, _⟩
      have harises : (E.moves l).Arises Placed :=
        (Admits.along (fun _ _ h hm => .move h hm.1) (fun _ _ _ => And.left) h hl).1
      rw [moves_append]
      rcases ih hl with ⟨task', hcall', hu⟩ | hd
      · rcases goes_cases harises.listed hcall' hm.2 with
          ⟨hsame, hidle⟩ | ⟨locks, Q, next, rfl, hrule, hrun, heq⟩
        · exact Or.inl ⟨task', hsame, hu.append fun hstep => disk_idle hcall' (hidle hstep)⟩
        · have hat : ((E.moves l).move (.event (.step c))).calls.get? c = some ⟨t, next⟩ := by
            rw [heq]
            exact Assoc.get?_insert_self _ _ _
          have hpool : ((E.moves l).step c).1.pool = Q := congrArg Engine.pool heq
          rcases underway_run rfl (harises.sited fun _ _ => id) hm.1.1 hcall' hu hrule hrun
            hpool with hu' | ⟨job, rfl, hrows⟩
          · exact Or.inl ⟨next, hat, hu'⟩
          · exact Or.inr ⟨job, hat, hrows⟩
      · have hone : (E.moves l).Admits (GoesOn c) [m] := ⟨hm, trivial⟩
        exact Or.inr (done_moves harises hd hone)

/-! ## Steps that change no data -/

/-- The step has ended the call because the page that it came to write is full. The page is marked
    as changed by the transaction, which holds it to write. -/
def MarksFull (E : Engine ρ) (c : CallNo) (t : TxnId) (cause : StoreError) : Prop :=
  ∃ n task s, cause = .pageFull n ∧ E.calls.get? c = some ⟨t, task⟩ ∧ task.claim? = some s ∧
    (E.step c).1.pool.locks.mode? t s.pageId = some .exclusive ∧
    SlotPage.firstFree s.file.layout (E.pool.shown s.pageId) = none ∧
    ∀ p, (E.step c).1.pool.owner? p = if p = s.pageId then some t else E.pool.owner? p

/-- A step of a call of the transaction has changed no data: what is shown of the pages is as it
    was, and so are their images, and whose changes are not written out; unless the step has ended
    the call because its page was full, and then this page is marked. The others hold what they
    held, and the transaction holds what it held or more, but for what it held to write and an
    overtaken call of it is resumed for. One page may have been taken in, for which a clean one may
    have left, and one table may have grown by a page, if it is one of which this is said. -/
structure Harmless (E : Engine ρ) (c : CallNo) (t : TxnId) (cause : StoreError)
    (sought : TableFile → Prop) : Prop where
  unharmed : E.pool.Unharmed (E.step c).1.pool
  owner : (E.step c).1.pool.owner? = E.pool.owner? ∨ E.MarksFull c t cause
  disk : (E.step c).1.pool.disk = E.pool.disk ∨ ∃ f, E.pool.tables.get? f.table = some f ∧
    sought f ∧ (E.step c).1.pool.disk = f.grown E.pool.disk
  others : ∀ u, u ≠ t → ∀ p, (E.step c).1.pool.locks.mode? u p = E.pool.locks.mode? u p
  held : ∀ p, E.pool.locks.mode? t p ≠ none → (E.step c).1.pool.locks.mode? t p ≠ none
  exclusive : ∀ p, E.pool.locks.mode? t p = some .exclusive → ¬ E.Weakens t p (.step c) →
    (E.step c).1.pool.locks.mode? t p = some .exclusive
  residents : ∃ p, E.pool.cache.Turnover p (E.step c).1.pool.cache
  apart : ∃ cache disk locks, (E.step c).1.pool = { E.pool with cache, disk, locks }

section harmless

variable {E F : Engine ρ} {ms : List (Move ρ)} (h : F.Arises Placed) {c : CallNo}
  (hm : F.Placed (.event (.step c))) {t : TxnId} {task : Task}
  (hcall : F.calls.get? c = some ⟨t, task⟩) (hu : E.Underway c ms task)

include h hm hcall hu

/-- A step of a call that is underway changes the locks at most, or the call goes to work, and
    nothing looks different afterwards; if the row is not in place then, and the call, if it ends by
    the step, fails. -/
theorem spends_step {cause : StoreError} (hgoes : (F.step c).2 = none → ¬ (F.step c).1.Done c t)
    (hends : ∀ o, (F.step c).2 = some o → o.failure? = some cause) :
    (∃ locks, (F.step c).1.pool = F.pool.setLocks locks) ∨
    ∃ r, (∀ o, r = .inr o → o.failure? = some cause) ∧
      Task.Spends (F.pool.setLocks (F.step c).1.pool.locks) (F.step c).1.pool t task r := by
  have hsited := h.sited fun _ _ => id
  rcases F.step_cases c with ⟨_, heq⟩ | ⟨call, locks, hrule, heq⟩ | ⟨_, locks, _, heq⟩ |
    ⟨_, locks, _, _, _, _, heq⟩
  · exact Or.inl ⟨F.pool.locks, by rw [heq]; rfl⟩
  · cases hcall.symm.trans (get?_of_ruling hrule)
    have hpool : (F.step c).1.pool = (task.run (F.pool.setLocks locks) t).1 := by
      rw [heq]
      exact pool_work (F.setLocks locks) c ⟨t, task⟩
    -- What the work leads on to is what is said of the step.
    have hends' : ∀ o, (task.run (F.pool.setLocks locks) t).2 = .inr o →
        o.failure? = some cause := by
      intro o ho
      rcases (F.setLocks locks).calls_work c ⟨t, task⟩ with ⟨_, hrun, _, _⟩ | ⟨_, hrun, hsome, _⟩
      · cases hrun.symm.trans ho
      · cases hrun.symm.trans ho
        exact hends o (by rw [heq]; exact hsome)
    refine Or.inr ⟨(task.run (F.pool.setLocks locks) t).2, hends', ?_⟩
    rw [(step_ruled hrule).1]
    refine spends_underway hsited hm.1 hcall hu (Prod.ext hpool.symm rfl) ?_ ?_
    · intro job hjob hrows
      rcases (F.setLocks locks).calls_work c ⟨t, task⟩ with
        ⟨_, hrun, hnone, hcalls⟩ | ⟨_, hrun, _, _⟩
      · cases hrun.symm.trans hjob
        refine hgoes (by rw [heq]; exact hnone) ⟨job, ?_, hrows⟩
        rw [heq, hcalls]
        exact Assoc.get?_insert_self _ _ _
      · cases hrun.symm.trans hjob
    · intro o ho hsound
      cases hsound.symm.trans (hends' o ho)
  · exact Or.inl ⟨locks, by rw [heq]; rfl⟩
  · exact Or.inl ⟨locks, by rw [heq]; rfl⟩

/-- So the data is the same after it. -/
theorem data_step {cause : StoreError} (hgoes : (F.step c).2 = none → ¬ (F.step c).1.Done c t)
    (hends : ∀ o, (F.step c).2 = some o → o.failure? = some cause) :
    F.pool.Unharmed (F.step c).1.pool ∧
      ((F.step c).1.pool.owner? = F.pool.owner? ∨ F.MarksFull c t cause) ∧
      ((F.step c).1.pool.disk = F.pool.disk ∨ ∃ f, F.pool.tables.get? f.table = some f ∧
        E.Sought c f ms ∧ (F.step c).1.pool.disk = f.grown F.pool.disk) := by
  have hsited := h.sited fun _ _ => id
  rcases spends_step h hm hcall hu hgoes hends with ⟨locks, heq⟩ | ⟨r, hends', hspends⟩
  · rw [heq]
    exact ⟨⟨rfl, Pool.stored_congr rfl rfl, rfl⟩, Or.inl rfl, Or.inl rfl⟩
  rcases hspends.unharmed (hsited.coherent.setLocks _)
    (hsited.fits c ⟨t, task⟩ hcall hu.isScan) with ⟨hshown, hstored, hhandles⟩
  refine ⟨⟨hshown, hstored.trans (Pool.stored_congr rfl rfl), hhandles⟩, ?_, ?_⟩
  · rcases hspends.owner with ho | ⟨s, o, n, hs, hr, hfail, hx, hfull, howner⟩
    · exact Or.inl ho
    · cases (hends' o hr).symm.trans hfail
      exact Or.inr ⟨n, task, s, rfl, hcall, hs, hx, hfull, howner⟩
  · rcases hspends.disk with hd | ⟨job, file, row, page, count, rfl, hall, hd⟩
    · exact Or.inl hd
    · exact Or.inr ⟨file, hsited.fits c _ hcall rfl file rfl, hu.sought hall, hd⟩

/-- The locks are as any request leaves them, so the step is harmless. -/
theorem harmless_step {cause : StoreError} (hgoes : (F.step c).2 = none → ¬ (F.step c).1.Done c t)
    (hends : ∀ o, (F.step c).2 = some o → o.failure? = some cause) :
    F.Harmless c t cause fun f => E.Sought c f ms := by
  rcases data_step h hm hcall hu hgoes hends with ⟨hunharmed, howner, hdisk⟩
  refine ⟨hunharmed, howner, hdisk, ?_, ?_, ?_, (F.turnover_step c).2, F.apart_step c⟩
  · intro u hu p
    rw [locks_step]
    rcases F.locksDuring_cases (.event (.step c)) with hsame | ⟨_, _, _, heq, hrule⟩
    · rw [hsame]
    · cases heq
      cases hcall.symm.trans (get?_of_ruling hrule)
      exact others_ruling hrule h.listed hu p
  · intro p hp
    rw [locks_step]
    exact held_during _ hp
  · intro p hx hfirm
    rw [locks_step]
    exact exclusive_during h.listed h.guarded.toBacked hfirm hx

end harmless

/-- A call that is to put a row into a table, or take one off it, and fails. Whoever else is at work
    meanwhile, whatever other calls its transaction makes, and at whichever of its points the call
    fails: each of its steps has changed no data. What is shown of the pages is as it was before the
    step, and so are their images and the handles. Whose changes are not written out is the same,
    unless the call ends because the page that it came to write is full; then this page, and no
    other, is marked as changed by the transaction. What the step may have done besides is to get
    the transaction a lock, take in a page for which a clean one may have left, and append a page of
    zeros to the table, and this only after the call has found every page full that it had counted.
    And if no transaction gets in the way of a call of its own and no overtaken call is resumed, the
    error is not that of a full page. -/
theorem failed_row_call_changes_no_data {E : Engine ρ} (h : E.Arises Placed) {c : CallNo}
    {t : TxnId} {task : Task} (hcall : E.calls.get? c = some ⟨t, task⟩)
    (hrow : task.isRowCall = true) {ms : List (Move ρ)} (hms : E.Admits (GoesOn c) ms)
    (hlast : (E.moves ms).Placed (.event (.step c))) {F : Engine ρ} {outcome : Outcome}
    {cause : StoreError} (hend : (E.moves ms).step c = (F, some outcome))
    (hfail : outcome.failure? = some cause) :
    (∀ earlier later, ms ++ [.event (.step c)] = earlier ++ .event (.step c) :: later →
      (E.moves earlier).Harmless c t cause fun f => E.Sought c f earlier) ∧
    (E.Arises Minds → E.Admits Minds ms → ∀ n, cause ≠ .pageFull n) := by
  have hsome : ((E.moves ms).step c).2 = some outcome := congrArg Prod.snd hend
  have hnot : ¬ (E.moves ms).Done c t := by
    intro hd
    cases (hd.sound hsome).symm.trans hfail
  refine ⟨fun earlier later hcut => ?_, fun hminds hmsm n heq => ?_⟩
  · rcases cut_before_end hcut with ⟨rfl, _, _⟩ | ⟨rest, _, rfl⟩
    · -- The last step.
      have harises : (E.moves earlier).Arises Placed :=
        (Admits.along (fun _ _ h hm => .move h hm.1) (fun _ _ _ => And.left) h hms).1
      rcases underway_moves h hcall hrow hms with ⟨task', hcall', hu⟩ | hd
      · refine harmless_step harises hlast hcall' hu (fun hnone => ?_) fun o ho => ?_
        · cases hnone.symm.trans hsome
        · cases ho.symm.trans hsome
          exact hfail
      · exact absurd hd hnot
    · -- An earlier one. If the row were in place after it, the call would not fail.
      rcases hms.split with ⟨hfirst, hstep, hrest⟩
      have harises : (E.moves earlier).Arises Placed :=
        (Admits.along (fun _ _ h hm => .move h hm.1) (fun _ _ _ => And.left) h hfirst).1
      have hgoes : ((E.moves earlier).step c).2 = none := by
        simpa [goesOn, Move.isStep] using hstep.2
      have hone : (E.moves earlier).Admits (GoesOn c) [.event (.step c)] := ⟨hstep, trivial⟩
      have hnot' : ¬ ((E.moves earlier).move (.event (.step c))).Done c t := by
        intro hd
        rw [moves_append] at hnot
        exact hnot (done_moves (.move harises hstep.1) hd hrest)
      rcases underway_moves h hcall hrow hfirst with ⟨task', hcall', hu⟩ | hd
      · refine harmless_step harises hstep.1 hcall' hu (fun _ => hnot') fun o ho => ?_
        cases hgoes.symm.trans ho
      · exact absurd (done_moves harises hd hone) hnot'
  · subst heq
    rcases underway_moves h hcall hrow hms with ⟨task', hcall', hu⟩ | hd
    · rcases fails_minding (hminds.moves hmsm) hcall' hsome hfail with ⟨hins, hdel⟩
      rcases hu.kind with hk | hk
      · cases hins hk
      · cases hdel hk
    · exact hnot hd

/-- A transaction has filled both pages and committed. The device comes to refuse to read the page
    that would be appended next, and another transaction begins to insert a row. -/
def brimful : List (Move Recency) :=
  [.event (.submit ⟨2⟩ (.fetch ⟨⟨1⟩, 0⟩ .readWrite true)), .event (.step ⟨0⟩),
    .event (.submit ⟨2⟩ (.fetch ⟨⟨1⟩, 1⟩ .readWrite true)), .event (.step ⟨1⟩),
    .event (.act (.write ⟨0⟩ (.fill 1))), .event (.act (.write ⟨1⟩ (.fill 1))),
    .event (.act (.finish ⟨2⟩ .commit)), .event (.act (.drop ⟨0⟩)),
    .event (.act (.device ⟨fun p => if p.number = 2 then some .notFound else none, fun _ => none⟩)),
    .event (.submit ⟨1⟩ (.insert { table := ⟨1⟩, rows := [#[2]] }))]

/-- The insertion finds both pages full and has the table grow, and then it cannot read the new page
    and fails. The step by which the table grows changes no data, and neither does any other. -/
theorem failed_row_call_changes_no_data_grown :
    ((((tiny 2 ({} : Recency)).moves brimful).moves
        (List.replicate 9 (.event (.step ⟨2⟩)))).step ⟨2⟩).2 =
      some (.inserted [] (some (.io .notFound))) ∧
    TableFile.tiny.pagesOn ((((tiny 2 ({} : Recency)).moves brimful).moves
        (List.replicate 6 (.event (.step ⟨2⟩)))).step ⟨2⟩).1.pool.disk = 3 ∧
    (((tiny 2 ({} : Recency)).moves brimful).moves
        (List.replicate 6 (.event (.step ⟨2⟩)))).Harmless ⟨2⟩ ⟨1⟩ (.io .notFound) fun f =>
      ((tiny 2 ({} : Recency)).moves brimful).Sought ⟨2⟩ f
        (List.replicate 6 (.event (.step ⟨2⟩))) := by
  have harises : ((tiny 2 ({} : Recency)).moves brimful).Arises Placed :=
    (Arises.fresh (fresh_tiny 2 ({} : Recency))).moves (by decide +kernel)
  have hcall : ((tiny 2 ({} : Recency)).moves brimful).calls.get? ⟨2⟩ =
      some ⟨⟨1⟩, .insert { table := ⟨1⟩, rows := [#[2]] }⟩ := by decide +kernel
  have hmoves : ((tiny 2 ({} : Recency)).moves brimful).Admits (GoesOn ⟨2⟩)
      (List.replicate 9 (.event (.step ⟨2⟩))) := by decide +kernel
  have hlast : (((tiny 2 ({} : Recency)).moves brimful).moves
      (List.replicate 9 (.event (.step ⟨2⟩)))).Placed (.event (.step ⟨2⟩)) := by decide +kernel
  have hanswer : ((((tiny 2 ({} : Recency)).moves brimful).moves
      (List.replicate 9 (.event (.step ⟨2⟩)))).step ⟨2⟩).2 =
        some (.inserted [] (some (.io .notFound))) := by decide +kernel
  refine ⟨hanswer, by decide +kernel, ?_⟩
  exact (failed_row_call_changes_no_data harises hcall rfl hmoves hlast (Prod.ext rfl hanswer)
    rfl).1 (List.replicate 6 (.event (.step ⟨2⟩))) (List.replicate 3 (.event (.step ⟨2⟩))) rfl

/-- A row is on the first page, and a transaction takes it off and begins to insert another one.
    When the insertion has seen the free slot, the page is discarded. -/
def discardedMeanwhile : List (Move Recency) :=
  [.event (.submit ⟨2⟩ (.fetch ⟨⟨1⟩, 0⟩ .readWrite true)), .event (.step ⟨0⟩),
    .event (.act (.write ⟨0⟩ (.fill 1))), .event (.act (.finish ⟨2⟩ .commit)),
    .event (.submit ⟨1⟩ (.delete (some ⟨⟨⟨1⟩, 0⟩, 0⟩))), .event (.step ⟨1⟩), .event (.step ⟨1⟩),
    .event (.submit ⟨1⟩ (.insert { table := ⟨1⟩, rows := [#[2]] }))] ++
  List.replicate 4 (.event (.step ⟨2⟩)) ++ [.event (.act (.discard ⟨⟨1⟩, 0⟩))]

/-- The insertion fails because the page is full, as it is on disk. Yet the page is marked as
    changed by the transaction, and before the step it was not. Transactions have made one call at a
    time, and no lock was given back early. -/
theorem full_page_is_marked :
    ((tiny 4 ({} : Recency)).moves discardedMeanwhile).Arises Strict ∧
    ((tiny 4 ({} : Recency)).moves discardedMeanwhile).pool.owner? ⟨⟨1⟩, 0⟩ = none ∧
    (((tiny 4 ({} : Recency)).moves discardedMeanwhile).step ⟨2⟩).2 =
      some (.inserted [] (some (.pageFull 1))) ∧
    (((tiny 4 ({} : Recency)).moves discardedMeanwhile).step ⟨2⟩).1.pool.owner? ⟨⟨1⟩, 0⟩ =
      some ⟨1⟩ ∧
    (((tiny 4 ({} : Recency)).moves discardedMeanwhile).step ⟨2⟩).1.pool.shown ⟨⟨1⟩, 0⟩ =
      ((tiny 4 ({} : Recency)).moves discardedMeanwhile).pool.stored ⟨⟨1⟩, 0⟩ :=
  ⟨(Arises.fresh (fresh_tiny 4 ({} : Recency))).moves (by decide +kernel), by decide +kernel,
    by decide +kernel, by decide +kernel, by decide +kernel⟩

end Engine

end RowStore
