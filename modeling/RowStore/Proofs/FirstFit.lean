import RowStore.Proofs.Insertions
import RowStore.Recency

/-!
# The First Page with Room

Where an insertion puts its row, whoever else is at work while it looks and waits.

The search of an insertion goes from page to page, and may have to wait for each of them.
Meanwhile the table can grow, other rows can be inserted, and transactions can commit or
be rolled back. The search counts the pages before it looks at them, so the count may be
out of date, and a page that it has appended itself may be filled by another insertion.

Still the row is put on the first page that has room. The pages that the search has passed
were full when it looked at them, and its transaction holds them all to read. So nobody
else can write them, and they are full when the row is put, and when the call ends. It is
the invariant of the search, at every point of it and while it waits, that the pages before
the one it has come to are held and full.

Only the transaction itself can undo that, if it writes such a page by a handle or another
call while the insertion is on its way. With no such write what is found is what remains.
Other calls of the transaction may wait or go on meanwhile, be they for these pages or for
others. If one of them is overtaken by the insertion on the row's page, and is resumed when
the row is in place and the insertion has yet to say so, then the page is held to read when
the call ends. Nothing else depends on that, for the others are kept off the page also then.

## Main definitions

* `Task.passed?`: The first pages of its table that an insertion has done with.
* `Engine.Heeds`: A move by which a call does not end, nor its transaction write what it has passed.
* `Engine.Passed`: The first pages of a table are held, and are full.
* `Engine.FirstFit`: A row is in the lowest free slot of the first page with room.
* `Engine.Looks`: An insertion is on its way to a page for its row.

## Theorems

* `Engine.passed_move`: Pages that were passed stay held and full.
* `Engine.search_move`: A search goes on past full pages, or the row is where it belongs.
* `Engine.lands`: If the call ends well then there is a step by which the row was put.
* `Engine.insert_is_first_fit`: An insertion puts its row on the first page with room.
* `Engine.own_write_undermines_first_fit`: But its transaction must not write what it has passed.
-/

namespace RowStore

namespace Task

/-- The first pages of a table that an insertion has done with: those it has found full, and the one
    that its last row was put on. -/
def passed? : Task → Option (TableId × Nat)
  | .survey _ file _ page | .seek _ file _ page _ | .inspect _ file _ page _
  | .claim _ file _ page => some (file.table, page)
  | .insert job => job.placed.head?.map fun r => (r.page.table, r.page.number + 1)
  | _ => none

theorem passed_of_search {task : Task} {s : Search} (h : task.search? = some s) :
    task.passed? = some (s.file.table, s.page) := by
  cases task with
  | survey _ _ _ _ | seek _ _ _ _ _ | inspect _ _ _ _ _ | claim _ _ _ _ =>
      cases h
      rfl
  | _ => cases h

end Task

namespace Engine

variable {ρ : Type} [EvictionOrder ρ]

/-- What is asked of a move while a call is in progress: files are changed only through the pool and
    no lock is given back early, and by it the call does not end. If it is no step of the call, then
    the call's transaction does not leave by it, nor write a page that the call has done with, and
    no such page is discarded. -/
structure Heeds (c : CallNo) (E : Engine ρ) (m : Move ρ) : Prop where
  strict : E.Strict m
  goes : E.goesOn c m = true
  spares : ∀ call ∈ E.calls.get? c, m.isStep c = false → m.leaver? ≠ some call.txn ∧
    ∀ d ∈ call.task.passed?, E.Spares call.txn d.1 d.2 m

instance (c : CallNo) (E : Engine ρ) (m : Move ρ) : Decidable (E.Heeds c m) :=
  decidable_of_iff (E.Strict m ∧ E.goesOn c m = true ∧ ∀ call ∈ E.calls.get? c,
      m.isStep c = false → m.leaver? ≠ some call.txn ∧
        ∀ d ∈ call.task.passed?, E.Spares call.txn d.1 d.2 m)
    ⟨fun h => ⟨h.1, h.2.1, h.2.2⟩, fun h => ⟨h.1, h.2, h.3⟩⟩

/-- A transaction holds the first pages of a table, and they are full. -/
structure Passed (E : Engine ρ) (t : TxnId) (f : TableFile) (n : Nat) : Prop where
  held : E.Holds t f.table n
  full : ∀ k < n, SlotPage.firstFree f.layout (E.pool.shown ⟨f.table, k⟩) = none

omit [EvictionOrder ρ] in
theorem Passed.zero (E : Engine ρ) (t : TxnId) (f : TableFile) : E.Passed t f 0 where
  held k hk := absurd hk (Nat.not_lt_zero k)
  full k hk := absurd hk (Nat.not_lt_zero k)

omit [EvictionOrder ρ] in
theorem Passed.succ {E : Engine ρ} {t : TxnId} {f : TableFile} {n : Nat} (h : E.Passed t f n)
    (hheld : E.pool.locks.mode? t ⟨f.table, n⟩ ≠ none)
    (hfull : SlotPage.firstFree f.layout (E.pool.shown ⟨f.table, n⟩) = none) :
    E.Passed t f (n + 1) where
  held k hk := (Nat.lt_succ_iff_lt_or_eq.1 hk).elim (h.held k) fun heq => heq ▸ hheld
  full k hk := (Nat.lt_succ_iff_lt_or_eq.1 hk).elim (h.full k) fun heq => heq ▸ hfull

/-- A row is where it belongs: no page before its own has room, its slot was the lowest free one of
    a page with the bytes `before`, its page is held and has the row, and the other slots are as
    they were. -/
structure FirstFit (E : Engine ρ) (t : TxnId) (f : TableFile) (r : RowId) (row before : Bytes) :
    Prop where
  table : r.page.table = f.table
  passed : E.Passed t f r.page.number
  lowest : SlotPage.firstFree f.layout before = some r.slot
  held : E.pool.locks.mode? t r.page ≠ none
  placed : SlotPage.get? f.layout (E.pool.shown r.page) r.slot = some row
  others : ∀ s, s ≠ r.slot →
    SlotPage.get? f.layout (E.pool.shown r.page) s = SlotPage.get? f.layout before s

section move

variable {E : Engine ρ} (h : E.Arises Strict) {t : TxnId} {f : TableFile}
  (hf : E.pool.tables.get? f.table = some f) {m : Move ρ}

include h hf

theorem passed_move {n : Nat} (hm : E.Spares t f.table n m) (hp : E.Passed t f n) :
    (E.move m).Passed t f n where
  held := holds_move h hm hp.held
  full k hk := by
    rw [shown_spared h hm hp.held hf hk]
    exact hp.full k hk

theorem firstFit_move {r : RowId} {row before : Bytes}
    (hm : E.Spares t f.table (r.page.number + 1) m) (hr : E.FirstFit t f r row before) :
    (E.move m).FirstFit t f r row before := by
  have hpage : r.page = ⟨f.table, r.page.number⟩ := by rw [← hr.table]
  have hless : E.Spares t f.table r.page.number m :=
    ⟨hm.strict, hm.stays, fun k hk => hm.unwritten k (Nat.lt_succ_of_lt hk),
      fun k hk => hm.kept k (Nat.lt_succ_of_lt hk)⟩
  have hpasses : E.Passes t r.page m := hpage ▸ hm.passes (Nat.lt_succ_self _)
  have hshown : (E.move m).pool.shown r.page = E.pool.shown r.page :=
    shown_held (h.sited fun _ _ => And.left) h.guarded hpasses (held_during m hr.held)
      (hr.table ▸ hf)
  exact ⟨hr.table, passed_move h hf hless hr.passed, hr.lowest,
    held_move h.tidy hm.strict.2 hm.stays hr.held, hshown ▸ hr.placed, hshown ▸ hr.others⟩

end move

/-- A move that an insertion heeds spares the pages that its search has passed, also if it is a step
    of the insertion. -/
theorem Heeds.spares_passed {E : Engine ρ} (h : E.Arises Strict) {c : CallNo} {m : Move ρ}
    (hm : E.Heeds c m) {call : Call} (hcall : E.calls.get? c = some call) {s : Search}
    (hs : call.task.search? = some s) : E.Spares call.txn s.file.table s.page m := by
  cases hstep : m.isStep c with
  | false => exact (hm.spares call hcall hstep).2 _ (Task.passed_of_search hs)
  | true =>
      have hstrict := hm.strict
      cases Move.eq_step hstep
      refine ⟨hstrict, Option.some_ne_none _ |>.symm, fun k hk => ?_, fun _ _ => rfl⟩
      -- The call has access only to the page that it has come to.
      refine lastWrite?_step (h.sited fun _ _ => And.left) fun call' locks hrule mode hd => ?_
      cases hcall.symm.trans (get?_of_ruling hrule)
      have hpage := Task.demand_of_search hs hd
      exact Nat.ne_of_lt hk (congrArg PageId.number hpage)

/-- An insertion that has a row to put is about to look for a page, or has looked at some. -/
inductive Looks (E : Engine ρ) (t : TxnId) (job : Insertion) (row : Bytes) : Task → Prop
  | begins : Looks E t job row (.insert job)
  | looks {task : Task} {file : TableFile} {page : Nat}
      (hs : task.search? = some ⟨job, file, row, page⟩)
      (hf : E.pool.tables.get? file.table = some file) (htable : file.table = job.table)
      (hp : E.Passed t file page) : Looks E t job row task

section looks

variable {E : Engine ρ} (h : E.Arises Strict) {c : CallNo} {m : Move ρ} (hm : E.Heeds c m)
  {t : TxnId} {job : Insertion} {row : Bytes} {task : Task}
  (hcall : E.calls.get? c = some ⟨t, task⟩)

include h hm hcall

/-- A search goes on, or it ends with the row where it belongs, on a page that is held to write. -/
theorem search_move {file : TableFile} {page : Nat}
    (hs : task.search? = some ⟨job, file, row, page⟩)
    (hf : E.pool.tables.get? file.table = some file) (htable : file.table = job.table)
    (hp : E.Passed t file page) :
    (∃ task', (E.move m).calls.get? c = some ⟨t, task'⟩ ∧ (E.move m).Looks t job row task') ∨
    m = .event (.step c) ∧ ∃ r, (E.move m).calls.get? c = some ⟨t, .insert (job.place r)⟩ ∧
      (E.move m).pool.tables.get? file.table = some file ∧
      (E.move m).FirstFit t file r row (E.pool.shown r.page) ∧
      (E.move m).pool.locks.mode? t r.page = some .exclusive := by
  have hsited := h.sited fun _ _ => And.left
  have hf' := known_move hm.strict.1 hf
  have hp' := passed_move h hf (hm.spares_passed h hcall hs) hp
  rcases goes_cases h.listed hcall hm.goes with ⟨hsame, _⟩ |
    ⟨locks, Q, task', rfl, hrule, hrun, heq⟩
  · exact Or.inl ⟨task, hsame, .looks hs hf' htable hp'⟩
  · have hcall' : (E.move (.event (.step c))).calls.get? c = some ⟨t, task'⟩ := by
      rw [heq]
      exact Assoc.get?_insert_self _ _ _
    have hlocks : (E.move (.event (.step c))).pool.locks = locks := (step_ruled hrule).1
    have hpool : (E.move (.event (.step c))).pool = Q := by rw [heq]
    have hbounded : (E.pool.setLocks locks).Bounded := hm.strict.1.1
    have hnext := Task.run_search (s := ⟨job, file, row, page⟩) (hsited.coherent.setLocks locks)
      hbounded hf hs hrun
    cases hnext with
    | stays hs' _ => exact Or.inl ⟨task', hcall', .looks hs' hf' htable hp'⟩
    | passes hs' hd hshown hfull =>
        -- The page was looked at under its lock, which is kept.
        refine Or.inl ⟨task', hcall', .looks hs' hf' htable (hp'.succ ?_ ?_)⟩
        · rw [hlocks]
          exact held_demand h.listed hrule hd h.guarded.toBacked
        · rw [hpool, hshown]
          exact hfull
    | @places slot b _ hx hsize hin hshown =>
        refine Or.inr ⟨rfl, _, hcall', hf', ?_⟩
        have hafter : (E.move (.event (.step c))).pool.shown ⟨file.table, page⟩ = b := by
          rw [hpool, hshown]
          exact if_pos rfl
        have hmap := (SlotPage.get?_insert hsize hin).2
        rw [← hafter] at hmap
        have hheld : (E.move (.event (.step c))).pool.locks.mode? t ⟨file.table, page⟩ =
            some .exclusive := by
          rw [hlocks]
          exact hx
        exact ⟨⟨rfl, hp', SlotPage.firstFree_of_insert hin, Option.ne_none_iff_exists'.2 ⟨_, hheld⟩,
          (hmap slot).trans (if_pos rfl), fun s hne => (hmap s).trans (if_neg hne)⟩, hheld⟩

/-- An insertion that has a row to put goes on looking, or the row is where it belongs. -/
theorem looks_move {rest : List Bytes} (hrows : job.rows = row :: rest)
    (hl : E.Looks t job row task) :
    (∃ task', (E.move m).calls.get? c = some ⟨t, task'⟩ ∧ (E.move m).Looks t job row task') ∨
    m = .event (.step c) ∧ ∃ f r, (E.move m).calls.get? c = some ⟨t, .insert (job.place r)⟩ ∧
      f.table = job.table ∧ (E.move m).pool.tables.get? f.table = some f ∧
      (E.move m).FirstFit t f r row (E.pool.shown r.page) ∧
      (E.move m).pool.locks.mode? t r.page = some .exclusive := by
  cases hl with
  | looks hs hf htable hp =>
      rcases search_move h hm hcall hs hf htable hp with hgoes | ⟨hstep, r, hr⟩
      · exact Or.inl hgoes
      · exact Or.inr ⟨hstep, _, r, hr.1, htable, hr.2⟩
  | begins =>
      have hcoherent := (h.sited fun _ _ => And.left).coherent
      rcases goes_cases h.listed hcall hm.goes with ⟨hsame, _⟩ |
        ⟨locks, Q, task', rfl, _, hrun, heq⟩
      · exact Or.inl ⟨_, hsame, .begins⟩
      · rcases Task.run_insert (hcoherent.setLocks locks) hrows hrun with
          ⟨file, hf, htable, rfl, hs⟩
        rw [heq]
        exact Or.inl ⟨task', Assoc.get?_insert_self _ _ _, .looks hs hf htable (.zero _ t file)⟩

end looks

/-- An insertion that ends before its row is put has failed. -/
theorem looks_fails {E : Engine ρ} (hs : E.Sited) {c : CallNo} {t : TxnId} {job : Insertion}
    {row : Bytes} {rest : List Bytes} {task : Task} (hcall : E.calls.get? c = some ⟨t, task⟩)
    (hrows : job.rows = row :: rest) (hl : E.Looks t job row task) {outcome : Outcome}
    (ho : (E.step c).2 = some outcome) : ∃ e, outcome = job.outcome (some e) := by
  rcases ends_cases hcall ho with ⟨locks, Q, _, hrun⟩ | ⟨page, rfl⟩
  · cases hl with
    | begins =>
        rcases Task.run_insert_fails hrows hrun with ⟨e, he, _⟩
        exact ⟨e, he⟩
    | @looks _ file page hsearch hf _ _ =>
        rcases Task.run_search_fails (s := ⟨job, file, row, page⟩) (hs.coherent.setLocks locks) hf
          hsearch hrun with ⟨e, he, _⟩
        exact ⟨e, he⟩
  · cases hl with
    | begins => exact ⟨_, rfl⟩
    | looks hsearch _ _ _ => exact ⟨_, Task.fail_of_search hsearch _⟩

/-- An insertion whose row is where it belongs has no more to do. -/
theorem step_placed {E : Engine ρ} {c : CallNo} {t : TxnId} {job : Insertion}
    (hcall : E.calls.get? c = some ⟨t, .insert job⟩) (hrows : job.rows = []) :
    E.step c = ({ E with calls := E.calls.erase c }, some (job.outcome none)) := by
  simp only [step, hcall, Task.demand, work, Task.run, hrows]

/-- Until it says so, the row stays where it belongs. Its page goes on being held to write unless an
    overtaken call for it is resumed. -/
theorem firstFit_moves {E : Engine ρ} (h : E.Arises Strict) {c : CallNo} {t : TxnId}
    {job : Insertion} (hcall : E.calls.get? c = some ⟨t, .insert job⟩) (hrows : job.rows = [])
    {f : TableFile} {r : RowId} {row before : Bytes} (hplaced : job.placed.head? = some r)
    (hf : E.pool.tables.get? f.table = some f) (hr : E.FirstFit t f r row before)
    {ms : List (Move ρ)} (hms : E.Admits (Heeds c) ms) :
    (E.moves ms).calls.get? c = some ⟨t, .insert job⟩ ∧
      (E.moves ms).pool.tables.get? f.table = some f ∧ (E.moves ms).FirstFit t f r row before ∧
      (E.pool.locks.mode? t r.page = some .exclusive →
        E.Admits (fun E m => ¬ E.Relaxes t r.page m) ms →
          (E.moves ms).pool.locks.mode? t r.page = some .exclusive) := by
  induction ms generalizing E with
  | nil => exact ⟨hcall, hf, hr, fun hx _ => hx⟩
  | cons m rest ih =>
      rcases hms with ⟨hm, hrest⟩
      -- A step of the call would end it.
      have hother : m.isStep c = false := by
        have hgoes := hm.goes
        rw [goesOn, step_placed hcall hrows] at hgoes
        simpa using hgoes
      have hpassed : (Task.insert job).passed? = some (r.page.table, r.page.number + 1) := by
        simp only [Task.passed?, hplaced, Option.map_some]
      have hspares := (hm.spares _ hcall hother).2 _ hpassed
      rw [hr.table] at hspares
      have hcall' := get?_move_other h.listed hcall (m := m) (by
        rintro rfl
        cases hother.symm.trans (decide_eq_true rfl))
      rcases ih (.move h hm.strict) hcall' (known_move hm.strict.1 hf)
        (firstFit_move h hf hspares hr) hrest with ⟨hcall'', hf', hr', hlater⟩
      refine ⟨hcall'', hf', hr', fun hx hfirm => hlater ?_ hfirm.2⟩
      exact exclusive_move h.tidy hm.strict.2 hspares.stays
        (exclusive_during h.listed h.guarded.toBacked hfirm.1 hx)

/-- An insertion of one row that has not failed when it ends has put the row where it belongs. -/
theorem lands {E : Engine ρ} (h : E.Arises Strict) {c : CallNo} {t : TxnId} {job : Insertion}
    {row : Bytes} {task : Task} (hcall : E.calls.get? c = some ⟨t, task⟩) (hrows : job.rows = [row])
    (hl : E.Looks t job row task) {ms : List (Move ρ)} (hms : E.Admits (Heeds c) ms)
    {rows : List RowId} (ho : ((E.moves ms).step c).2 = some (.inserted rows none)) :
    ∃ f r earlier later, ms = earlier ++ .event (.step c) :: later ∧
      (E.moves ms).calls.get? c = some ⟨t, .insert (job.place r)⟩ ∧ f.table = job.table ∧
      (E.moves ms).pool.tables.get? f.table = some f ∧
      ((E.moves earlier).move (.event (.step c))).FirstFit t f r row
        ((E.moves earlier).pool.shown r.page) ∧
      ((E.moves earlier).move (.event (.step c))).pool.locks.mode? t r.page = some .exclusive ∧
      (E.moves ms).FirstFit t f r row ((E.moves earlier).pool.shown r.page) ∧
      (((E.moves earlier).move (.event (.step c))).Admits (fun E m => ¬ E.Relaxes t r.page m)
        later → (E.moves ms).pool.locks.mode? t r.page = some .exclusive) := by
  -- The run is followed to the step that puts the row in place. There must be one: a call that
  -- still looks for a place when it ends has failed.
  induction ms generalizing E task with
  | nil =>
      rcases looks_fails (h.sited fun _ _ => And.left) hcall hrows hl ho with ⟨e, he⟩
      cases he
  | cons m rest ih =>
      rcases hms with ⟨hm, hrest⟩
      rcases looks_move h hm hcall hrows hl with ⟨task', hcall', hl'⟩ |
        ⟨rfl, f, r, hcall', htable, hf, hr, hx⟩
      · rcases ih (.move h hm.strict) hcall' hl' hrest ho with
          ⟨f, r, earlier, later, rfl, hfit⟩
        exact ⟨f, r, m :: earlier, later, rfl, hfit⟩
      · have hdone : (job.place r).rows = [] := by rw [Insertion.place, hrows]; rfl
        rcases firstFit_moves (.move h hm.strict) hcall' hdone rfl hf hr hrest with
          ⟨hcall'', hf', hr', hlater⟩
        exact ⟨f, r, [], rest, rfl, hcall'', htable, hf', hr, hx, hr', hlater hx⟩

/-- A call that inserts a row, whoever else is at work meanwhile and however often the call has to
    wait. Its transaction does not leave before it ends, nor write, by another hand, a page that the
    call has found full or has put the row on. If the call ends well it names one place, and there is
    a step by which the row was put there. After this step, and when the call ends, the pages before
    are full and held, the row is in the slot that was the lowest free one of its page before the
    step, the page is held, and its other slots are as they were before the step. It is held to write
    after the step, and when the call ends too if no overtaken call of the transaction for the page
    is resumed in between. -/
theorem insert_is_first_fit {E : Engine ρ} (h : E.Arises Strict) {c : CallNo} {t : TxnId}
    {table : TableId} {row : Bytes}
    (hcall : E.calls.get? c = some ⟨t, .insert { table, rows := [row] }⟩) {ms : List (Move ρ)}
    (hms : E.Admits (Heeds c) ms) {F : Engine ρ} {rows : List RowId}
    (hend : (E.moves ms).step c = (F, some (.inserted rows none))) :
    ∃ f r earlier later, ms = earlier ++ .event (.step c) :: later ∧ rows = [r] ∧
      f.table = table ∧ F.pool.tables.get? f.table = some f ∧
      ((E.moves earlier).move (.event (.step c))).FirstFit t f r row
        ((E.moves earlier).pool.shown r.page) ∧
      ((E.moves earlier).move (.event (.step c))).pool.locks.mode? t r.page = some .exclusive ∧
      F.FirstFit t f r row ((E.moves earlier).pool.shown r.page) ∧
      (((E.moves earlier).move (.event (.step c))).Admits (fun E m => ¬ E.Relaxes t r.page m)
        later → F.pool.locks.mode? t r.page = some .exclusive) := by
  rcases lands h hcall rfl .begins hms (congrArg Prod.snd hend) with
    ⟨f, r, earlier, later, hms', hcall', htable, hf, hput, hx, hr, hlater⟩
  -- The last step only says so.
  have hlast := (step_placed hcall' rfl).symm.trans hend
  cases hlast
  exact ⟨f, r, earlier, later, hms', rfl, htable, hf, hput, hx, ⟨hr.table,
    ⟨hr.passed.held, hr.passed.full⟩, hr.lowest, hr.held, hr.placed, hr.others⟩, hlater⟩

/-- A transaction has put a row on one of the pages, and another one begins to insert a row. -/
def contended (n : Nat) : List (Move Recency) :=
  [.event (.submit ⟨2⟩ (.fetch ⟨⟨1⟩, n⟩ .readWrite true)), .event (.step ⟨0⟩),
    .event (.act (.write ⟨0⟩ (.fill 1))),
    .event (.submit ⟨1⟩ (.insert { table := ⟨1⟩, rows := [#[2]] }))]

/-- The insertion waits for the first page until the other transaction commits. The page is full,
    and the row is put on the next one. -/
def overtaken : List (Move Recency) :=
  List.replicate 4 (.event (.step ⟨1⟩)) ++
    .event (.act (.finish ⟨2⟩ .commit)) :: List.replicate 4 (.event (.step ⟨1⟩))

/-- The first page is full and held to read, and the row is on the second one, which is held to
    write. -/
theorem insert_is_first_fit_overtaken :
    ∃ earlier later, overtaken = earlier ++ .event (.step ⟨1⟩) :: later ∧
      ((((tiny 4 ({} : Recency)).moves (contended 0)).moves overtaken).step ⟨1⟩).1.FirstFit ⟨1⟩
        .tiny ⟨⟨⟨1⟩, 1⟩, 0⟩ #[2]
        ((((tiny 4 ({} : Recency)).moves (contended 0)).moves earlier).pool.shown ⟨⟨1⟩, 1⟩) ∧
      ((((tiny 4 ({} : Recency)).moves (contended 0)).moves overtaken).step
        ⟨1⟩).1.pool.locks.mode? ⟨1⟩ ⟨⟨1⟩, 1⟩ = some .exclusive := by
  have harises : ((tiny 4 ({} : Recency)).moves (contended 0)).Arises Strict :=
    (Arises.fresh (fresh_tiny 4 ({} : Recency))).moves (by decide +kernel)
  have hcall : ((tiny 4 ({} : Recency)).moves (contended 0)).calls.get? ⟨1⟩ =
      some ⟨⟨1⟩, .insert { table := ⟨1⟩, rows := [#[2]] }⟩ := by decide +kernel
  have hmoves : ((tiny 4 ({} : Recency)).moves (contended 0)).Admits (Heeds ⟨1⟩) overtaken := by
    decide +kernel
  have hanswer : ((((tiny 4 ({} : Recency)).moves (contended 0)).moves overtaken).step ⟨1⟩).2 =
      some (.inserted [⟨⟨⟨1⟩, 1⟩, 0⟩] none) := by decide +kernel
  rcases insert_is_first_fit harises hcall hmoves (Prod.ext rfl hanswer) with
    ⟨f, r, earlier, later, hms, hr, htable, hf, _, _, hfit, hheld⟩
  cases hr
  have hknown : ((((tiny 4 ({} : Recency)).moves (contended 0)).moves overtaken).step
      ⟨1⟩).1.pool.tables.get? ⟨1⟩ = some .tiny := by decide +kernel
  rw [htable] at hf
  cases hf.symm.trans hknown
  have hfirm : ((tiny 4 ({} : Recency)).moves (contended 0)).Admits
      (fun E m => ¬ E.Relaxes ⟨1⟩ ⟨⟨1⟩, 1⟩ m) overtaken := by decide +kernel
  rw [hms] at hfirm
  exact ⟨earlier, later, hms, hfit, hheld hfirm.split.2.2⟩

/-- A transaction has put a row on the first page itself, and begins to insert another one. A second
    transaction has the second page to write. -/
def undermined : List (Move Recency) :=
  [.event (.submit ⟨1⟩ (.fetch ⟨⟨1⟩, 0⟩ .readWrite true)), .event (.step ⟨0⟩),
    .event (.act (.write ⟨0⟩ (.fill 1))),
    .event (.submit ⟨2⟩ (.fetch ⟨⟨1⟩, 1⟩ .readWrite true)), .event (.step ⟨1⟩),
    .event (.submit ⟨1⟩ (.insert { table := ⟨1⟩, rows := [#[2]] }))]

/-- While the insertion waits for the second page, a handle takes the row off the first one. Then
    the second transaction commits. -/
def undermining : List (Move Recency) :=
  List.replicate 6 (.event (.step ⟨2⟩)) ++ .event (.act (.write ⟨0⟩ (.fill 0))) ::
    .event (.act (.finish ⟨2⟩ .commit)) :: List.replicate 2 (.event (.step ⟨2⟩))

/-- It is not enough that a transaction stays. If it takes a row off a page that its insertion has
    passed, then the row that is inserted is not on the first page with room. -/
theorem own_write_undermines_first_fit :
    ¬ ∀ (E : Engine Recency) (c : CallNo) (t : TxnId) (row : Bytes) (f : TableFile)
      (ms : List (Move Recency)) (r : RowId), E.Arises Steady →
      E.pool.tables.get? f.table = some f →
      E.calls.get? c = some ⟨t, .insert { table := f.table, rows := [row] }⟩ →
      E.Admits (fun E' m => E'.Steady m ∧ E'.goesOn c m = true ∧ m.leaver? ≠ some t ∧
        m.isDiscard = false) ms →
      ((E.moves ms).step c).2 = some (.inserted [r] none) →
      ∀ k < r.page.number,
        SlotPage.firstFree f.layout (((E.moves ms).step c).1.pool.shown ⟨f.table, k⟩) = none := by
  intro h
  have harises : ((tiny 4 ({} : Recency)).moves undermined).Arises Steady :=
    (Arises.fresh (fresh_tiny 4 ({} : Recency))).moves (by decide +kernel)
  have hfull := h _ ⟨2⟩ ⟨1⟩ #[2] .tiny undermining ⟨⟨⟨1⟩, 1⟩, 0⟩ harises (by decide +kernel)
    (by decide +kernel) (by decide +kernel) (by decide +kernel) 0 Nat.zero_lt_one
  exact absurd hfull (by decide +kernel)

end Engine

end RowStore
