import RowStore.Proofs.Holding
import RowStore.Proofs.SlotRows

/-!
# The Search of an Insertion

How an insertion comes to the page and the slot that it puts its row into.

It looks at the pages of its table one after the other, and asks for the lock to write on
the first one that it finds a free slot on. Until then it changes nothing that is shown:
the table may grow, but nothing is on the page that is appended. When the lock is granted
the row is put into the slot that is the lowest free one by then.

A search is the same at all its points but for the page that it has come to. So what a
point leads on to is one of three things: the search stays at its page, or goes on to the
next one, or ends with the row on the page.

## Main definitions

* `Search`: Where the search of an insertion stands.
* `Task.search?`: The search that a point of an insertion belongs to.
* `Task.Searches`: What a point of a search leads on to.
* `Task.Refuses`: Why a search fails.

## Theorems

* `Task.run_inspect`: What comes of a look at a page.
* `Task.run_claim`: A row goes to the lowest free slot, or it is known why not.
* `Task.run_search`: A search stays, or goes on past a full page, or puts its row.
* `Task.run_search_fails`: If it ends before, it has failed, and it is known why.
-/

namespace RowStore

/-- Where the search of an insertion stands: what is left of the insertion, the file of its table,
    the row, and the page it has come to. -/
structure Search where
  job : Insertion
  file : TableFile
  row : Bytes
  page : Nat

namespace Search

/-- The page that a search has come to. -/
def pageId (s : Search) : PageId := ⟨s.file.table, s.page⟩

/-- The search goes on to the next page. -/
def next (s : Search) : Search := { s with page := s.page + 1 }

end Search

/-- A row that was put on a page is in the slot that was the lowest free one. -/
theorem SlotPage.firstFree_of_insert {l : Layout} {b b' row : Bytes} {slot : Nat}
    (h : insert l b row = .ok (slot, b')) : firstFree l b = some slot := by
  unfold insert at h
  split at h
  · cases h
  · split at h
    · cases h
    · rename_i hfree
      cases h
      exact hfree

namespace Task

/-- The search that a point of an insertion belongs to. -/
def search? : Task → Option Search
  | .survey job file row page | .seek job file row page _ | .inspect job file row page _
  | .claim job file row page => some ⟨job, file, row, page⟩
  | _ => none

/-- What a point of a search leads on to. The search stays where it is; or it goes on to the next
    page, because it has found this one full; or it puts the row on the page, which is held to
    write. -/
inductive Searches {ρ : Type} (P Q : Pool ρ) (t : TxnId) (s : Search) (task : Task) : Task → Prop
  | stays {task' : Task} (hs : task'.search? = some s) (hshown : Q.shown = P.shown) :
      Searches P Q t s task task'
  | passes {task' : Task} (hs : task'.search? = some s.next)
      (hd : task.demand = some (s.pageId, .shared)) (hshown : Q.shown = P.shown)
      (hfull : SlotPage.firstFree s.file.layout (P.shown s.pageId) = none) :
      Searches P Q t s task task'
  | places {slot : Nat} {b : Bytes} (hd : task.demand = some (s.pageId, .exclusive))
      (hx : P.locks.mode? t s.pageId = some .exclusive)
      (hsize : (P.shown s.pageId).size = s.file.layout.pageSize)
      (hin : SlotPage.insert s.file.layout (P.shown s.pageId) s.row = .ok (slot, b))
      (hshown : Q.shown = PageOp.put P.shown s.pageId b) :
      Searches P Q t s task (.insert (s.job.place ⟨s.pageId, slot⟩))

variable {ρ : Type} [EvictionOrder ρ] {P Q : Pool ρ} {t : TxnId} {s : Search}

/-- Why a search fails with an error: the table cannot grow, or the page cannot be had; or the row
    is to be put on the page, and that is not held to write or the row cannot be put there. -/
inductive Refuses (P : Pool ρ) (t : TxnId) (s : Search) (task : Task) (e : StoreError) : Prop
  | growth (h : s.file.append P.disk = .error e)
  | fetch {Q : Pool ρ} {access : Access} (h : fetchHandle P t s.pageId access = (Q, .error e))
  | unheld (hd : task.demand = some (s.pageId, .exclusive))
      (hx : P.locks.mode? t s.pageId ≠ some .exclusive)
  | noRoom (hd : task.demand = some (s.pageId, .exclusive))
      (h : SlotPage.insert s.file.layout (P.shown s.pageId) s.row = .error e)

/-- The demand of a search is a lock on the page that it has come to. -/
theorem demand_of_search {task : Task} (h : task.search? = some s) {p : PageId} {mode : LockMode}
    (hd : task.demand = some (p, mode)) : p = s.pageId := by
  cases task with
  | inspect _ _ _ _ _ | claim _ _ _ _ =>
      cases h
      cases hd
      rfl
  | survey _ _ _ _ | seek _ _ _ _ _ => cases hd
  | _ => cases h

theorem fail_of_search {task : Task} (h : task.search? = some s) (e : StoreError) :
    task.fail e = s.job.outcome (some e) := by
  cases task with
  | survey _ _ _ _ | seek _ _ _ _ _ | inspect _ _ _ _ _ | claim _ _ _ _ =>
      cases h
      rfl
  | _ => cases h

/-- Whether a page of its layout has a free slot. -/
theorem hasRoom_eq {layout : Layout} {b : Bytes} (h : b.size = layout.pageSize) :
    hasRoom layout b = .ok (SlotPage.firstFree layout b).isSome := by
  unfold hasRoom SlotPage.checkBytes
  rw [if_pos h]
  rfl

theorem rowIn_eq {layout : Layout} {row b : Bytes} (h : b.size = layout.pageSize) :
    rowIn layout row b = SlotPage.insert layout b row := by
  unfold rowIn SlotPage.checkBytes
  rw [if_pos h]
  rfl

section run

variable (hc : P.Coherent)

include hc

section file

variable {file : TableFile} (hf : P.tables.get? file.table = some file) (job : Insertion)
  (row : Bytes) (page : Nat)

include hf

/-- A page that is looked at has room or not, and shows nothing of it. -/
theorem run_inspect (count : Nat) :
    (∃ Q, Q.shown = P.shown ∧ run P t (.inspect job file row page count) =
      (Q, .inl (if (SlotPage.firstFree file.layout (P.shown ⟨file.table, page⟩)).isSome then
        .claim job file row page else .seek job file row (page + 1) count))) ∨
    ∃ Q e, fetchHandle P t ⟨file.table, page⟩ .readOnly = (Q, .error e) ∧
      run P t (.inspect job file row page count) = (Q, .inr (job.outcome (some e))) := by
  simp only [run]
  cases hfetch : fetchHandle P t ⟨file.table, page⟩ .readOnly with
  | mk Q r =>
      cases r with
      | error e => exact Or.inr ⟨Q, e, rfl, rfl⟩
      | ok h =>
          rcases fetched_shown hc hfetch with ⟨f, rfl, hq, _, _, hbytes, _⟩
          have hsize : (P.shown ⟨file.table, page⟩).size = file.layout.pageSize := hc.size_shown hf
          refine Or.inl ⟨Q, hq.shown, ?_⟩
          simp only [hbytes, hasRoom_eq hsize]
          cases SlotPage.firstFree file.layout (P.shown ⟨file.table, page⟩) <;> rfl

/-- A row is put into the lowest free slot of its page, which is held to write. Or it is refused:
    the page cannot be had, or it is not held to write, or it has no room or the row not the right
    width. -/
theorem run_claim :
    (∃ Q slot b, P.locks.mode? t ⟨file.table, page⟩ = some .exclusive ∧
      (P.shown ⟨file.table, page⟩).size = file.layout.pageSize ∧
      SlotPage.insert file.layout (P.shown ⟨file.table, page⟩) row = .ok (slot, b) ∧
      Q.shown = PageOp.put P.shown ⟨file.table, page⟩ b ∧
      run P t (.claim job file row page) =
        (Q, .inl (.insert (job.place ⟨⟨file.table, page⟩, slot⟩)))) ∨
    ∃ Q e, run P t (.claim job file row page) = (Q, .inr (job.outcome (some e))) ∧
      (fetchHandle P t ⟨file.table, page⟩ .readWrite = (Q, .error e) ∨
        P.locks.mode? t ⟨file.table, page⟩ ≠ some .exclusive ∨
        SlotPage.insert file.layout (P.shown ⟨file.table, page⟩) row = .error e) := by
  simp only [run]
  cases hfetch : fetchHandle P t ⟨file.table, page⟩ .readWrite with
  | mk R r =>
      cases r with
      | error e => exact Or.inr ⟨R, e, rfl, Or.inl rfl⟩
      | ok h =>
          rcases fetched_shown hc hfetch with ⟨f, rfl, hq, hcr, hr, hbytes, _⟩
          have hsize : (P.shown ⟨file.table, page⟩).size = file.layout.pageSize := hc.size_shown hf
          have hg := Pool.grasps_of_resident hcr (h := ⟨⟨file.table, page⟩, f, t, .readWrite⟩) hr
          simp only [putRow_eq]
          rcases Pool.alter_cases hg (rowIn file.layout row) with
            ⟨e, hw, heq⟩ | ⟨_, e, hwork, heq⟩ | ⟨hw, slot, b, hwork, heq⟩
          · rw [heq]
            refine Or.inr ⟨R, e, rfl, Or.inr (Or.inl fun hx => ?_)⟩
            have hok : R.checkWrite ⟨⟨file.table, page⟩, f, t, .readWrite⟩ = .ok () := by
              simp only [Pool.checkWrite, hq.locks, hx, ne_eq, not_true_eq_false, if_false]
            cases hw.symm.trans hok
          · rw [heq]
            rw [hbytes, rowIn_eq hsize] at hwork
            exact Or.inr ⟨_, e, rfl, Or.inr (Or.inr hwork)⟩
          · rw [heq]
            have hkept := size_rowIn hwork
            rw [hbytes, rowIn_eq hsize] at hwork
            have hx := Pool.mode?_of_checkWrite hw
            rw [hq.locks] at hx
            refine Or.inl ⟨_, slot, b, hx, hsize, hwork, ?_, rfl⟩
            rw [(Pool.performs_written hcr hr hw hkept).shown, hq.shown]
            rfl

end file

/-- When an insertion takes up a row, the search for a page begins at the first one. -/
theorem run_insert {job : Insertion} {row : Bytes} {rest : List Bytes}
    (hrows : job.rows = row :: rest) {task' : Task}
    (hrun : run P t (.insert job) = (Q, .inl task')) :
    ∃ file, P.tables.get? file.table = some file ∧ file.table = job.table ∧ Q = P ∧
      task'.search? = some ⟨job, file, row, 0⟩ := by
  simp only [run, hrows] at hrun
  split at hrun
  · cases hrun
  · rename_i file htable
    have hf := get?_of_table hc htable
    have hkeyed : file.table = job.table := by
      unfold Pool.table at htable
      split at htable
      · rename_i g hg
        cases htable
        exact hc.laid.keyed _ _ hg
      · cases htable
    split at hrun
    · cases hrun
    · cases hrun
      exact ⟨file, hf, hkeyed, rfl, rfl⟩

/-- A point of a search that is not its end. -/
theorem run_search (hb : P.Bounded) (hf : P.tables.get? s.file.table = some s.file)
    {task task' : Task} (hs : task.search? = some s)
    (hrun : run P t task = (Q, .inl task')) : Searches P Q t s task task' := by
  cases task with
  | survey job file row page =>
      cases hs
      cases hrun
      exact .stays rfl rfl
  | seek job file row page count =>
      cases hs
      simp only [run] at hrun
      split at hrun
      · cases hrun
        exact .stays rfl rfl
      · split at hrun
        · cases hrun
        · rename_i happend
          cases hrun
          have hlt : file.pagesOn P.disk < UInt32.size :=
            Nat.lt_of_lt_of_le (hb _ file hf) (Nat.sub_le _ _)
          rw [(file.append_eq_ok hlt happend).2]
          exact .stays rfl (Pool.performs_grown hc hf t).shown
  | inspect job file row page count =>
      cases hs
      rcases run_inspect (t := t) hc hf job row page count with ⟨R, hshown, heq⟩ | ⟨R, e, _, heq⟩
      · cases hfree : SlotPage.firstFree file.layout (P.shown ⟨file.table, page⟩) with
        | none =>
            rw [hfree] at heq
            cases hrun.symm.trans heq
            exact .passes rfl rfl hshown hfree
        | some slot =>
            rw [hfree] at heq
            cases hrun.symm.trans heq
            exact .stays rfl hshown
      · cases hrun.symm.trans heq
  | claim job file row page =>
      cases hs
      rcases run_claim (t := t) hc hf job row page with
        ⟨R, slot, b, hx, hsize, hin, hshown, heq⟩ | ⟨R, e, heq, _⟩
      · cases hrun.symm.trans heq
        exact .places rfl hx hsize hin hshown
      · cases hrun.symm.trans heq
  | _ => cases hs

/-- A search that ends at one of its points has failed, and it is known why. -/
theorem run_search_fails (hf : P.tables.get? s.file.table = some s.file) {task : Task}
    (hs : task.search? = some s) {outcome : Outcome} (hrun : run P t task = (Q, .inr outcome)) :
    ∃ e, outcome = s.job.outcome (some e) ∧ Refuses P t s task e := by
  cases task with
  | survey job file row page => cases hrun
  | seek job file row page count =>
      cases hs
      simp only [run] at hrun
      split at hrun
      · cases hrun
      · split at hrun
        · rename_i e happend
          cases hrun
          exact ⟨e, rfl, .growth happend⟩
        · cases hrun
  | inspect job file row page count =>
      cases hs
      rcases run_inspect (t := t) hc hf job row page count with ⟨R, _, heq⟩ | ⟨R, e, hfetch, heq⟩
      · cases hrun.symm.trans heq
      · cases hrun.symm.trans heq
        exact ⟨e, rfl, .fetch hfetch⟩
  | claim job file row page =>
      cases hs
      rcases run_claim (t := t) hc hf job row page with
        ⟨R, slot, b, _, _, _, _, heq⟩ | ⟨R, e, heq, hwhy⟩
      · cases hrun.symm.trans heq
      · cases hrun.symm.trans heq
        refine ⟨e, rfl, ?_⟩
        rcases hwhy with hfetch | hx | hin
        · exact .fetch hfetch
        · exact .unheld rfl hx
        · exact .noRoom rfl hin
  | _ => cases hs

omit hc in
/-- So has an insertion that ends when it takes up a row. -/
theorem run_insert_fails {job : Insertion} {row : Bytes} {rest : List Bytes}
    (hrows : job.rows = row :: rest) {outcome : Outcome}
    (hrun : run P t (.insert job) = (Q, .inr outcome)) :
    ∃ e, outcome = job.outcome (some e) ∧
      (P.table job.table = .error e ∨ ∃ file : TableFile, file.checkRow row = .error e) := by
  simp only [run, hrows] at hrun
  split at hrun
  · rename_i e htable
    cases hrun
    exact ⟨e, rfl, Or.inl htable⟩
  · rename_i file _
    split at hrun
    · rename_i e hrow
      cases hrun
      exact ⟨e, rfl, Or.inr ⟨file, hrow⟩⟩
    · cases hrun

end run

end Task

end RowStore
