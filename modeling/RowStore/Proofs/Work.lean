import RowStore.Proofs.Accesses
import RowStore.Task

/-!
# The Work of a Call

What a point of a call's work has to do with pages.

A point fetches at most one page. It looks at it, or looks at it and then changes it,
and these are its accesses: the work does to what is shown just what they do. They
also settle what comes of it. Whatever else two pools differ in, a point that reads
the same bytes in both, and may write in both or in neither, goes on in the same way.

## Main definitions

* `Task.accesses`: The accesses of a point of a call's work.
* `Task.Fits`: A call keeps to a table file by which its table is known.
* `Task.Worked`: All that the work of a point can do to a pool.

## Theorems

* `Task.run_performs`: The work of a point performs its accesses.
* `Task.run_eq_of_accesses`: What comes of it is settled by what it reads.
* `Task.mem_accesses`: It has accesses only to the page whose lock it demands.
* `Task.run_fits`: A call goes on with the table file that it looked up.
* `Task.run_worked`: The work of a point does one of the things of `Task.Worked`.
-/

namespace RowStore

namespace Task

/-- The page that the work of a point begins with. -/
def fetches? : Task → Option (PageId × Access)
  | .fetch page access _ => some (page, access)
  | .inspect _ file _ page _ => some (⟨file.table, page⟩, .readOnly)
  | .claim _ file _ page => some (⟨file.table, page⟩, .readWrite)
  | .remove _ row => some (row.page, .readWrite)
  | .load cursor _ => some (cursor.page, .readOnly)
  | .lock _ _ | .insert _ | .survey _ _ _ _ | .seek _ _ _ _ _ | .delete _ | .advance _ _ => none

/-- A point demands the lock for the access that it fetches its page with. -/
theorem demand_of_fetches? {task : Task} {p : PageId} {access : Access}
    (h : task.fetches? = some (p, access)) : task.demand = some (p, access.mode) := by
  cases task with
  | fetch page a keep =>
      cases h
      rfl
  | _ => cases h <;> rfl

variable {ρ : Type} [EvictionOrder ρ]

/-- The read of a page that is fetched to be read, unless it cannot be fetched. -/
def look (P : Pool ρ) (t : TxnId) (p : PageId) : List PageOp :=
  match fetchHandle P t p .readOnly with
  | (_, .error _) => []
  | (Q, .ok h) => [.read h.page (Q.bytesOf h)]

/-- The write that a change by a handle is, unless it failed. -/
def wrote {ρ α : Type} (h : Handle) : Pool ρ × Except StoreError α → List PageOp
  | (_, .error _) => []
  | (Q, .ok _) => [.write h.page (Q.bytesOf h)]

/-- The accesses of the work from a point to the next. -/
def accesses (P : Pool ρ) (t : TxnId) : Task → List PageOp
  | .inspect _ file _ page _ => look P t ⟨file.table, page⟩
  | .load cursor _ => look P t cursor.page
  | .claim _ file row page =>
    match fetchHandle P t ⟨file.table, page⟩ .readWrite with
    | (_, .error _) => []
    | (Q, .ok h) => .read h.page (Q.bytesOf h) :: wrote h (putRow Q h file.layout row)
  | .remove file row =>
    match fetchHandle P t row.page .readWrite with
    | (_, .error _) => []
    | (Q, .ok h) =>
      .read h.page (Q.bytesOf h) ::
        match checkRowAt file.layout (Q.bytesOf h) row.slot with
        | .error _ => []
        | .ok () => wrote h (dropRow Q h file.layout row.slot)
  | .lock _ _ | .fetch _ _ _ | .insert _ | .survey _ _ _ _ | .seek _ _ _ _ _ | .delete _
  | .advance _ _ => []

/-- The table file that a call keeps. -/
def file? : Task → Option TableFile
  | .survey _ file _ _ | .seek _ file _ _ _ | .inspect _ file _ _ _ | .claim _ file _ _
  | .remove file _ => some file
  | .advance cursor _ | .load cursor _ => some cursor.file
  | .lock _ _ | .fetch _ _ _ | .insert _ | .delete _ => none

/-- The table file that a call keeps is the one that the table is known by. -/
def Fits (tables : Assoc TableId TableFile) (task : Task) : Prop :=
  ∀ f ∈ task.file?, tables.get? f.table = some f

instance (tables : Assoc TableId TableFile) (task : Task) : Decidable (task.Fits tables) :=
  inferInstanceAs (Decidable (∀ f ∈ task.file?, tables.get? f.table = some f))

/-- Whether a call does nothing but move a cursor. -/
def isScan : Task → Bool
  | .advance _ _ | .load _ _ => true
  | _ => false

/-! ## The parts of the work -/

/-- What an insertion does to the bytes of its page. -/
def rowIn (layout : Layout) (row : Bytes) (b : Bytes) : Except StoreError (Nat × Bytes) := do
  SlotPage.checkBytes layout b
  SlotPage.insert layout b row

/-- What a deletion does to the bytes of its page. -/
def rowOut (layout : Layout) (slot : Nat) (b : Bytes) : Except StoreError (Unit × Bytes) := do
  SlotPage.checkBytes layout b
  let b' ← SlotPage.delete layout b slot
  .ok ((), b')

omit [EvictionOrder ρ] in
theorem putRow_eq (P : Pool ρ) (h : Handle) (layout : Layout) (row : Bytes) :
    putRow P h layout row = P.alter h (rowIn layout row) := by
  unfold putRow Pool.alter rowIn
  -- Both open the page first, and then differ only in how the work is written down.
  cases P.openWrite h with
  | error e => rfl
  | ok Q =>
      simp only [bind, Except.bind]
      cases SlotPage.checkBytes layout (Q.bytesOf h) with
      | error e => rfl
      | ok u => cases SlotPage.insert layout (Q.bytesOf h) row <;> rfl

omit [EvictionOrder ρ] in
theorem dropRow_eq (P : Pool ρ) (h : Handle) (layout : Layout) (slot : Nat) :
    dropRow P h layout slot = P.alter h (rowOut layout slot) := by
  unfold dropRow Pool.alter rowOut
  cases P.openWrite h with
  | error e => rfl
  | ok Q =>
      simp only [bind, Except.bind]
      cases SlotPage.checkBytes layout (Q.bytesOf h) with
      | error e => rfl
      | ok u => cases SlotPage.delete layout (Q.bytesOf h) slot <;> rfl

/-- An insertion that succeeds has found a page of the layout, and a free slot. -/
theorem rowIn_eq_ok {layout : Layout} {row b b' : Bytes} {slot : Nat}
    (h : rowIn layout row b = .ok (slot, b')) :
    b.size = layout.pageSize ∧ SlotPage.insert layout b row = .ok (slot, b') := by
  unfold rowIn SlotPage.checkBytes at h
  by_cases hs : b.size = layout.pageSize
  · rw [if_pos hs] at h
    exact ⟨hs, h⟩
  · rw [if_neg hs] at h
    cases h

/-- A deletion that succeeds has found a page of the layout, and a row in the slot. -/
theorem rowOut_eq_ok {layout : Layout} {slot : Nat} {b b' : Bytes}
    (h : rowOut layout slot b = .ok ((), b')) :
    b.size = layout.pageSize ∧ SlotPage.delete layout b slot = .ok b' := by
  unfold rowOut SlotPage.checkBytes at h
  by_cases hs : b.size = layout.pageSize
  · rw [if_pos hs] at h
    simp only [bind, Except.bind] at h
    split at h
    · cases h
    · rename_i hd
      cases h
      exact ⟨hs, hd⟩
  · rw [if_neg hs] at h
    cases h

theorem size_rowIn {layout : Layout} {row b b' : Bytes} {slot : Nat}
    (h : rowIn layout row b = .ok (slot, b')) : b'.size = b.size := by
  unfold rowIn SlotPage.insert at h
  simp only [bind, Except.bind] at h
  split at h
  · cases h
  · split at h
    · cases h
    · split at h
      · cases h
      · cases h
        -- A free slot was found: a bit is set, and bytes are overwritten in place.
        rw [Bitmap.size_put, size_overwrite]

theorem size_rowOut {layout : Layout} {slot : Nat} {b b' : Bytes}
    (h : rowOut layout slot b = .ok ((), b')) : b'.size = b.size := by
  unfold rowOut SlotPage.delete at h
  simp only [bind, Except.bind] at h
  split at h
  · cases h
  · split at h
    · cases h
    · rename_i hd
      split at hd
      · cases hd
      · split at hd
        · cases hd
          cases h
          exact Bitmap.size_put _ _ _
        · cases hd

section Coherent

variable {P : Pool ρ} (hc : P.Coherent)

include hc

/-- Fetching a page for a transaction cannot be seen from outside. -/
theorem fetchHandle_cases (t : TxnId) (p : PageId) (access : Access) :
    ∃ Q, P.Quiet Q ∧ Q.Coherent ∧
      ((∃ f, fetchHandle P t p access = (Q, .ok ⟨p, f, t, access⟩) ∧
          Q.cache.resident.get? p = some f) ∨
        ∃ e, fetchHandle P t p access = (Q, .error e) ∧
          (e = .noEvictableFrame P.cache.capacity ∨
            P.cache.resident.get? p = none ∧ P.loadImage p = .error e)) := by
  unfold fetchHandle
  rcases P.fetch_cases hc p with ⟨Q, hq, hcq, ⟨f, heq, hr⟩ | heq | ⟨e, heq, hr, hl⟩⟩
  · exact ⟨Q, hq, hcq, Or.inl ⟨f, by rw [heq], hr⟩⟩
  · exact ⟨Q, hq, hcq, Or.inr ⟨_, by rw [heq], Or.inl rfl⟩⟩
  · exact ⟨Q, hq, hcq, Or.inr ⟨e, by rw [heq], Or.inr ⟨hr, hl⟩⟩⟩

/-- A page that could be fetched is there, and the handle on it reads what is shown of it. -/
theorem fetched_shown {t : TxnId} {p : PageId} {access : Access} {Q : Pool ρ} {h : Handle}
    (heq : fetchHandle P t p access = (Q, .ok h)) :
    ∃ f, h = ⟨p, f, t, access⟩ ∧ P.Quiet Q ∧ Q.Coherent ∧ Q.cache.resident.get? p = some f ∧
      Q.bytesOf h = P.shown p ∧ P.Has p := by
  rcases fetchHandle_cases hc t p access with ⟨R, hq, hcr, ⟨f, heq', hr⟩ | ⟨e, heq', _⟩⟩
  · cases heq.symm.trans heq'
    rcases hcr.tidy.exists_page hr with ⟨page, hpage, _⟩
    rcases hcr.mirrors hpage with ⟨rfl, hm⟩
    exact ⟨f, rfl, hq, hcr, hr, (hcr.bytesOf_eq hr).trans (congrFun hq.shown _),
      hm.here.congr hq.tables.symm hq.disk.symm⟩
  · cases heq.symm.trans heq'

omit [EvictionOrder ρ] in
/-- A handle that is kept. -/
theorem performs_pin {h : Handle} (hr : P.cache.resident.get? h.page = some h.frame)
    (t : TxnId) : P.Performs t [] { P with cache := (P.cache.pin h).2 } := by
  refine ⟨⟨rfl, rfl, rfl, rfl, ?_, rfl, fun _ _ hu => Or.inl hu, ?_, id⟩, trivial, rfl⟩
  · exact hc.of_cache (Cache.tidy_pin hc.tidy hr) hc.copies
  · intro hpin n h' hn
    unfold Cache.pin at hn
    simp only [Assoc.get?_insert] at hn
    split at hn
    · cases hn
      exact hr
    · exact hpin n h' hn

/-- Looking at a page is one read of it. -/
theorem performs_look (t : TxnId) (p : PageId) :
    P.Performs t (look P t p) (fetchHandle P t p .readOnly).1 := by
  unfold look
  rcases fetchHandle_cases hc t p .readOnly with ⟨Q, hq, hcq, ⟨f, heq, hr⟩ | ⟨e, heq, _⟩⟩
  · -- Fetching changes nothing that is shown, so the read sees what was shown before.
    have hb : Q.bytesOf ⟨p, f, t, .readOnly⟩ = Q.shown p := hcq.bytesOf_eq hr
    rw [heq]
    simp only [hb]
    exact (hq.performs hcq t).trans (Pool.performs_read hcq t p)
  · rw [heq]
    exact hq.performs hcq t

omit [EvictionOrder ρ] in
/-- Changing the bytes of a resident page is one write of it, or none if it fails. -/
theorem performs_alter {α : Type} {h : Handle}
    (hr : P.cache.resident.get? h.page = some h.frame)
    (work : Bytes → Except StoreError (α × Bytes))
    (hsize : ∀ b a b', work b = .ok (a, b') → b'.size = b.size) :
    P.Performs h.txn (wrote h (P.alter h work)) (P.alter h work).1 := by
  have hg := Pool.grasps_of_resident hc hr
  -- A refused write does nothing, and a mark alone does not show.
  rcases Pool.alter_cases hg work with
    ⟨e, _, heq⟩ | ⟨hw, e, _, heq⟩ | ⟨hw, a, bytes, hwork, heq⟩
  · rw [heq]
    exact Pool.Performs.nil hc _
  · rw [heq]
    exact Pool.performs_marked hc hr hw
  · rw [heq]
    simp only [wrote, Pool.bytesOf_written hg]
    exact Pool.performs_written hc hr hw (hsize _ _ _ hwork)

omit hc [EvictionOrder ρ] in
/-- A page that was fetched to be changed is read first. -/
theorem performs_read_alter {α : Type} {Q : Pool ρ} (hq : P.Quiet Q) (hcq : Q.Coherent)
    {h : Handle} (hr : Q.cache.resident.get? h.page = some h.frame)
    (work : Bytes → Except StoreError (α × Bytes))
    (hsize : ∀ b a b', work b = .ok (a, b') → b'.size = b.size) :
    P.Performs h.txn (.read h.page (Q.bytesOf h) :: wrote h (Q.alter h work))
      (Q.alter h work).1 := by
  have hread := Pool.performs_read hcq h.txn h.page
  rw [← hcq.bytesOf_eq hr] at hread
  exact ((hq.performs hcq h.txn).trans hread).trans (performs_alter hcq hr work hsize)

/-! ## The work -/

/-- The work of a point performs its accesses and changes nothing else that is shown. A cursor may
    be on any table file, because it only reads. -/
theorem run_performs (hb : P.Bounded) (t : TxnId) {task : Task}
    (hk : task.isScan = false → task.Fits P.tables) :
    P.Performs t (task.accesses P t) (task.run P t).1 := by
  have hnil := Pool.Performs.nil hc t
  -- Points without accesses leave the pool alone or only look something up. The others fetch
  -- a page, and are followed through the fetch and the change.
  cases task with
  | lock page access => exact hnil
  | fetch page access keep =>
      simp only [run, accesses]
      rcases fetchHandle_cases hc t page access with ⟨Q, hq, hcq, ⟨f, heq, hr⟩ | ⟨e, heq, _⟩⟩
      · rw [heq]
        cases keep with
        | false => exact hq.performs hcq t
        | true =>
            exact (hq.performs hcq t).trans (performs_pin hcq (h := ⟨page, f, t, access⟩) hr t)
      · rw [heq]
        exact hq.performs hcq t
  | insert job =>
      simp only [run, accesses]
      split
      · exact hnil
      · split
        · exact hnil
        · split <;> exact hnil
  | survey job file row page => exact hnil
  | seek job file row page count =>
      simp only [run, accesses]
      by_cases hn : page < count
      · rw [if_pos hn]
        exact hnil
      · rw [if_neg hn]
        have hf := hk rfl file rfl
        cases ha : file.append P.disk with
        | error e => exact hnil
        | ok r =>
            -- The table grows within what can be counted, so the page is a new one.
            have hlt : file.pagesOn P.disk < UInt32.size :=
              Nat.lt_of_lt_of_le (hb _ file hf) (Nat.sub_le _ _)
            rcases file.append_eq_ok hlt ha with ⟨_, hd⟩
            simp only [hd]
            exact Pool.performs_grown hc hf t
  | inspect job file row page count =>
      have hl := performs_look hc t ⟨file.table, page⟩
      simp only [run, accesses]
      cases heq : fetchHandle P t ⟨file.table, page⟩ .readOnly with
      | mk Q r =>
          rw [heq] at hl
          cases r with
          | error e => exact hl
          | ok h =>
              simp only
              split <;> exact hl
  | claim job file row page =>
      simp only [run, accesses]
      rcases fetchHandle_cases hc t ⟨file.table, page⟩ .readWrite with
        ⟨Q, hq, hcq, ⟨f, heq, hr⟩ | ⟨e, heq, _⟩⟩
      · rw [heq]
        have hall := performs_read_alter hq hcq
          (h := ⟨⟨file.table, page⟩, f, t, .readWrite⟩) hr (rowIn file.layout row)
          fun _ _ _ => size_rowIn
        simp only [putRow_eq]
        cases hres : Q.alter ⟨⟨file.table, page⟩, f, t, .readWrite⟩ (rowIn file.layout row) with
        | mk R r =>
            rw [hres] at hall
            cases r <;> exact hall
      · rw [heq]
        exact hq.performs hcq t
  | delete row =>
      cases row with
      | none => exact hnil
      | some row =>
          simp only [run, accesses]
          split
          · exact hnil
          · split <;> exact hnil
  | remove file row =>
      simp only [run, accesses]
      rcases fetchHandle_cases hc t row.page .readWrite with
        ⟨Q, hq, hcq, ⟨f, heq, hr⟩ | ⟨e, heq, _⟩⟩
      · rw [heq]
        have hb : Q.bytesOf ⟨row.page, f, t, .readWrite⟩ = Q.shown row.page := hcq.bytesOf_eq hr
        have hread := (hq.performs hcq t).trans (Pool.performs_read hcq t row.page)
        have hall := performs_read_alter hq hcq (h := ⟨row.page, f, t, .readWrite⟩) hr
          (rowOut file.layout row.slot) fun _ _ _ => size_rowOut
        simp only [dropRow_eq, hb] at hall ⊢
        cases checkRowAt file.layout (Q.shown row.page) row.slot with
        | error e => exact hread
        | ok _ =>
            cases hres : Q.alter ⟨row.page, f, t, .readWrite⟩ (rowOut file.layout row.slot) with
            | mk R r =>
                rw [hres] at hall
                cases r <;> exact hall
      · rw [heq]
        exact hq.performs hcq t
  | advance cursor goal =>
      simp only [run, accesses]
      split
      · exact hnil
      · split
        · exact hnil
        · split <;> exact hnil
  | load cursor goal =>
      have hl := performs_look hc t cursor.page
      simp only [run, accesses]
      cases heq : fetchHandle P t cursor.page .readOnly with
      | mk Q r =>
          rw [heq] at hl
          cases r with
          | error e => exact hl
          | ok h =>
              simp only
              split <;> exact hl

/-- A point has accesses to no page but the one whose lock it demands, and writes it only if its
    transaction may. -/
theorem mem_accesses {t : TxnId} {task : Task} {op : PageOp} (h : op ∈ task.accesses P t) :
    ∃ mode, task.demand = some (op.page, mode) ∧
      (op.mode = .exclusive → P.locks.mode? t op.page = some .exclusive) := by
  -- Looking is one read of the page.
  have hlook : ∀ p, op ∈ look P t p → op.page = p ∧ op.mode = .shared := by
    intro p hm
    unfold look at hm
    rcases fetchHandle_cases hc t p .readOnly with ⟨Q, _, _, ⟨f, heq, _⟩ | ⟨e, heq, _⟩⟩
    · rw [heq] at hm
      rcases List.mem_singleton.1 hm with rfl
      exact ⟨rfl, rfl⟩
    · rw [heq] at hm
      cases hm
  -- Only a change that succeeded is noted, and then the write was allowed.
  have halter : ∀ {α : Type} (Q : Pool ρ) (h : Handle)
      (work : Bytes → Except StoreError (α × Bytes)), Q.locks = P.locks →
      op ∈ wrote h (Q.alter h work) →
        op.page = h.page ∧ P.locks.mode? h.txn h.page = some .exclusive := by
    intro α Q h work hl hm
    cases hres : Q.alter h work with
    | mk R r =>
        rw [hres] at hm
        cases r with
        | error e => cases hm
        | ok a =>
            rcases List.mem_singleton.1 hm with rfl
            rw [← hl]
            exact ⟨rfl, Pool.mode?_of_checkWrite (Pool.checkWrite_of_alter hres)⟩
  cases task with
  | inspect job file row page count =>
      rcases hlook _ h with ⟨hp, hw⟩
      exact ⟨.shared, by rw [hp]; rfl, fun hw' => by rw [hw] at hw'; cases hw'⟩
  | load cursor goal =>
      rcases hlook _ h with ⟨hp, hw⟩
      exact ⟨.shared, by rw [hp]; rfl, fun hw' => by rw [hw] at hw'; cases hw'⟩
  | claim job file row page =>
      simp only [accesses, putRow_eq] at h
      rcases fetchHandle_cases hc t ⟨file.table, page⟩ .readWrite with
        ⟨Q, hq, _, ⟨f, heq, _⟩ | ⟨e, heq, _⟩⟩
      · rw [heq] at h
        rcases List.mem_cons.1 h with rfl | h
        · exact ⟨.exclusive, rfl, fun hw => by cases hw⟩
        · rcases halter Q _ _ hq.locks h with ⟨hp, hm⟩
          exact ⟨.exclusive, by rw [hp]; rfl, fun _ => by rw [hp]; exact hm⟩
      · rw [heq] at h
        cases h
  | remove file row =>
      simp only [accesses, dropRow_eq] at h
      rcases fetchHandle_cases hc t row.page .readWrite with
        ⟨Q, hq, _, ⟨f, heq, _⟩ | ⟨e, heq, _⟩⟩
      · rw [heq] at h
        rcases List.mem_cons.1 h with rfl | h
        · exact ⟨.exclusive, rfl, fun hw => by cases hw⟩
        · split at h
          · cases h
          · rcases halter Q _ _ hq.locks h with ⟨hp, hm⟩
            exact ⟨.exclusive, by rw [hp]; rfl, fun _ => by rw [hp]; exact hm⟩
      · rw [heq] at h
        cases h
  | _ => cases h

omit [EvictionOrder ρ] in
/-- A table file that is looked up is the one that the table is known by. -/
theorem get?_of_table {t : TableId} {f : TableFile} (h : P.table t = .ok f) :
    P.tables.get? f.table = some f := by
  unfold Pool.table at h
  cases hf : P.tables.get? t with
  | none =>
      rw [hf] at h
      cases h
  | some g =>
      rw [hf] at h
      cases h
      rw [hc.laid.keyed t f hf]
      exact hf

/-- A call goes on with the table file that it looked up. -/
theorem run_fits {t : TxnId} {task task' : Task} (hk : task.Fits P.tables)
    (h : (task.run P t).2 = .inl task') : task'.Fits P.tables := by
  -- Most points hand on the file they have. It is looked up at the first point of an insertion
  -- and of a deletion.
  have hsame : task'.file? = task.file? → task'.Fits P.tables := by
    intro hf
    unfold Fits
    rw [hf]
    exact hk
  cases task with
  | lock page access => cases h
  | fetch page access keep =>
      simp only [run] at h
      split at h
      · cases h
      · split at h <;> cases h
  | insert job =>
      simp only [run] at h
      split at h
      · cases h
      · split at h
        · cases h
        · rename_i file hf
          split at h
          · cases h
          · cases h
            rintro f ⟨⟩
            exact get?_of_table hc hf
  | survey job file row page =>
      cases h
      exact hsame rfl
  | seek job file row page count =>
      simp only [run] at h
      split at h
      · cases h
        exact hsame rfl
      · split at h
        · cases h
        · cases h
          exact hsame rfl
  | inspect job file row page count =>
      simp only [run] at h
      split at h
      · cases h
      · split at h
        · cases h
        · cases h
          exact hsame rfl
        · cases h
          exact hsame rfl
  | claim job file row page =>
      simp only [run] at h
      split at h
      · cases h
      · split at h
        · cases h
        · cases h
          rintro f ⟨⟩
  | delete row =>
      cases row with
      | none => cases h
      | some row =>
          simp only [run] at h
          split at h
          · cases h
          · rename_i file hf
            split at h
            · cases h
            · cases h
              rintro f ⟨⟩
              exact get?_of_table hc hf
  | remove file row =>
      simp only [run] at h
      split at h
      · cases h
      · split at h
        · cases h
        · split at h <;> cases h
  | advance cursor goal =>
      simp only [run] at h
      split at h
      · cases h
      · split at h
        · cases h
          exact hsame rfl
        · split at h
          · cases h
            exact hsame rfl
          · cases h
  | load cursor goal =>
      simp only [run] at h
      split at h
      · cases h
      · split at h
        · cases h
        · cases h
          exact hsame rfl

omit hc in
/-- A call that moves a cursor goes on moving it. -/
theorem run_scan {t : TxnId} {task task' : Task} (hk : task.isScan = true)
    (h : (task.run P t).2 = .inl task') : task'.isScan = true := by
  cases task with
  | advance cursor goal =>
      simp only [run] at h
      split at h
      · cases h
      · split at h
        · cases h
          rfl
        · split at h
          · cases h
            rfl
          · cases h
  | load cursor goal =>
      simp only [run] at h
      split at h
      · cases h
      · split at h
        · cases h
        · cases h
          rfl
  | _ => cases hk

end Coherent

/-! ## All that the work can do -/

omit [EvictionOrder ρ] in
/-- Writing by a handle changes copies, and nothing else. -/
theorem alter_apart {α : Type} (P : Pool ρ) (h : Handle)
    (work : Bytes → Except StoreError (α × Bytes)) :
    ∃ frames, (P.alter h work).1 = { P with cache := { P.cache with frames } } := by
  unfold Pool.alter
  rw [Pool.openWrite_eq]
  cases P.checkWrite h with
  | error e => exact ⟨P.cache.frames, rfl⟩
  | ok _ =>
      simp only [Except.map]
      split
      · exact ⟨_, rfl⟩
      · exact ⟨_, rfl⟩

theorem fetch_apart (P : Pool ρ) (p : PageId) : ∃ cache, (P.fetch p).1 = { P with cache } := by
  unfold Pool.fetch
  cases P.cache.resident.get? p with
  | some f => exact ⟨_, rfl⟩
  | none =>
      simp only
      cases P.loadImage p with
      | error e => exact ⟨P.cache, rfl⟩
      | ok image =>
          simp only
          cases P.cache.takeIn image with
          | mk c r => cases r <;> exact ⟨c, rfl⟩

/-- What the work of a point can do to a pool, whatever state the pool is in: nothing, or let a
    table grow, or fetch a page and then perhaps keep a handle on it or change it. -/
inductive Worked (t : TxnId) (P : Pool ρ) : Pool ρ → Prop
  | same : Worked t P P
  | grown {f : TableFile} {p : PageId} {disk : Disk} (h : f.append P.disk = .ok (p, disk)) :
      Worked t P { P with disk }
  | fetched (p : PageId) : Worked t P (P.fetch p).1
  | kept {p : PageId} {f : FrameNo} {Q : Pool ρ} (access : Access) (h : P.fetch p = (Q, .ok f)) :
      Worked t P { Q with cache := (Q.cache.pin ⟨p, f, t, access⟩).2 }
  | altered {p : PageId} {f : FrameNo} {Q : Pool ρ} {α : Type}
      (work : Bytes → Except StoreError (α × Bytes))
      (hsize : ∀ b a b', work b = .ok (a, b') → b'.size = b.size) (h : P.fetch p = (Q, .ok f)) :
      Worked t P (Q.alter ⟨p, f, t, .readWrite⟩ work).1

/-- A page that was fetched for a transaction was fetched. -/
theorem fetch_of_fetchHandle {P Q : Pool ρ} {t : TxnId} {p : PageId} {access : Access}
    {r : Except StoreError Handle} (h : fetchHandle P t p access = (Q, r)) :
    (P.fetch p).1 = Q ∧ ∀ hd, r = .ok hd →
      ∃ f, P.fetch p = (Q, .ok f) ∧ hd = ⟨p, f, t, access⟩ := by
  unfold fetchHandle at h
  cases hf : P.fetch p with
  | mk R r' =>
      rw [hf] at h
      cases r' with
      | error e =>
          cases h
          exact ⟨rfl, fun hd heq => by cases heq⟩
      | ok f =>
          cases h
          exact ⟨rfl, fun hd heq => by cases heq; exact ⟨f, rfl, rfl⟩⟩

/-- The work of a point does one of these things. -/
theorem run_worked (P : Pool ρ) (t : TxnId) (task : Task) : Worked t P (task.run P t).1 := by
  -- A page that was fetched, and no more.
  have hfetch : ∀ {p access Q r}, fetchHandle P t p access = (Q, r) → Worked t P Q := by
    intro p access Q r h
    rw [← (fetch_of_fetchHandle h).1]
    exact .fetched p
  -- A page that was fetched to be changed.
  have halter : ∀ {p Q h} {α : Type} {work : Bytes → Except StoreError (α × Bytes)} {R r},
      fetchHandle P t p .readWrite = (Q, .ok h) → Q.alter h work = (R, r) →
        (∀ b a b', work b = .ok (a, b') → b'.size = b.size) → Worked t P R := by
    intro p Q h α work R r hf hres hsize
    rcases (fetch_of_fetchHandle hf).2 h rfl with ⟨f, heq, rfl⟩
    have hw := Worked.altered (t := t) work hsize heq
    rw [hres] at hw
    exact hw
  cases task with
  | lock page access => exact .same
  | fetch page access keep =>
      simp only [run]
      split
      · rename_i heq
        exact hfetch heq
      · rename_i Q h heq
        split
        · rcases (fetch_of_fetchHandle heq).2 h rfl with ⟨f, hf, rfl⟩
          exact .kept access hf
        · exact hfetch heq
  | insert job =>
      simp only [run]
      split
      · exact .same
      · split
        · exact .same
        · split <;> exact .same
  | survey job file row page => exact .same
  | seek job file row page count =>
      simp only [run]
      split
      · exact .same
      · split
        · exact .same
        · rename_i heq
          exact .grown heq
  | inspect job file row page count =>
      simp only [run]
      split
      · rename_i heq
        exact hfetch heq
      · rename_i heq
        split <;> exact hfetch heq
  | claim job file row page =>
      simp only [run, putRow_eq]
      split
      · rename_i heq
        exact hfetch heq
      · rename_i Q h heq
        split
        · rename_i hres
          exact halter heq hres fun _ _ _ => size_rowIn
        · rename_i hres
          exact halter heq hres fun _ _ _ => size_rowIn
  | delete row =>
      cases row with
      | none => exact .same
      | some row =>
          simp only [run]
          split
          · exact .same
          · split <;> exact .same
  | remove file row =>
      simp only [run, dropRow_eq]
      split
      · rename_i heq
        exact hfetch heq
      · rename_i Q h heq
        split
        · exact hfetch heq
        · split
          · rename_i hres
            exact halter heq hres fun _ _ _ => size_rowOut
          · rename_i hres
            exact halter heq hres fun _ _ _ => size_rowOut
  | advance cursor goal =>
      simp only [run]
      split
      · exact .same
      · split
        · exact .same
        · split <;> exact .same
  | load cursor goal =>
      simp only [run]
      split
      · rename_i heq
        exact hfetch heq
      · rename_i heq
        split <;> exact hfetch heq

/-- The work of a point changes the cache and the disk, and nothing else. -/
theorem Worked.apart {P Q : Pool ρ} {t : TxnId} (h : Worked t P Q) :
    ∃ cache disk, Q = { P with cache, disk } := by
  cases h with
  | same => exact ⟨P.cache, P.disk, rfl⟩
  | grown h => exact ⟨P.cache, _, rfl⟩
  | fetched p =>
      rcases fetch_apart P p with ⟨c, hc⟩
      exact ⟨c, P.disk, hc⟩
  | @kept p f Q access h =>
      rcases fetch_apart P p with ⟨c, hc⟩
      rw [h] at hc
      cases hc
      exact ⟨_, P.disk, rfl⟩
  | @altered p f Q α work hsize h =>
      rcases fetch_apart P p with ⟨c, hc⟩
      rw [h] at hc
      cases hc
      rcases alter_apart { P with cache := c } ⟨p, f, t, .readWrite⟩ work with ⟨frames, hc'⟩
      exact ⟨_, P.disk, hc'⟩

theorem Worked.locks {P Q : Pool ρ} {t : TxnId} (h : Worked t P Q) : Q.locks = P.locks := by
  rcases h.apart with ⟨_, _, rfl⟩
  rfl

theorem Worked.faults {P Q : Pool ρ} {t : TxnId} (h : Worked t P Q) : Q.faults = P.faults := by
  rcases h.apart with ⟨_, _, rfl⟩
  rfl

/-! ## What comes of the work -/

/-- Accesses that there are only if a page was fetched, and that begin by reading it. -/
theorem fetched_of_ne_nil {P : Pool ρ} (hc : P.Coherent) {t : TxnId} {p : PageId}
    {access : Access} {ops : List PageOp} (hne : ops ≠ [])
    (herr : ∀ Q e, fetchHandle P t p access = (Q, .error e) → ops = [])
    (hok : ∀ Q h, fetchHandle P t p access = (Q, .ok h) →
      ops.head? = some (.read h.page (Q.bytesOf h))) :
    ∃ Q f, fetchHandle P t p access = (Q, .ok ⟨p, f, t, access⟩) ∧ Q.locks = P.locks ∧
      Q.Grasps ⟨p, f, t, access⟩ ∧ ops.head? = some (.read p (Q.bytesOf ⟨p, f, t, access⟩)) := by
  rcases fetchHandle_cases hc t p access with ⟨Q, hq, hcq, ⟨f, heq, hr⟩ | ⟨e, heq, _⟩⟩
  · exact ⟨Q, f, heq, hq.locks, Pool.grasps_of_resident hcq hr, hok Q _ heq⟩
  · exact absurd (herr Q e heq) hne

/-- A point that has accesses could fetch its page, and has read it first. -/
theorem fetched_of_accesses {P : Pool ρ} (hc : P.Coherent) {t : TxnId} {task : Task}
    (hne : task.accesses P t ≠ []) :
    ∃ p access, task.fetches? = some (p, access) ∧
      ∃ Q f, fetchHandle P t p access = (Q, .ok ⟨p, f, t, access⟩) ∧ Q.locks = P.locks ∧
        Q.Grasps ⟨p, f, t, access⟩ ∧
        (task.accesses P t).head? = some (.read p (Q.bytesOf ⟨p, f, t, access⟩)) := by
  cases task with
  | inspect job file row page count =>
      refine ⟨_, _, rfl, fetched_of_ne_nil hc hne (fun Q e heq => ?_) (fun Q h heq => ?_)⟩
      · simp only [accesses, look, heq]
      · simp only [accesses, look, heq, List.head?_cons]
  | load cursor goal =>
      refine ⟨_, _, rfl, fetched_of_ne_nil hc hne (fun Q e heq => ?_) (fun Q h heq => ?_)⟩
      · simp only [accesses, look, heq]
      · simp only [accesses, look, heq, List.head?_cons]
  | claim job file row page =>
      refine ⟨_, _, rfl, fetched_of_ne_nil hc hne (fun Q e heq => ?_) (fun Q h heq => ?_)⟩
      · simp only [accesses, heq]
      · simp only [accesses, heq, List.head?_cons]
  | remove file row =>
      refine ⟨_, _, rfl, fetched_of_ne_nil hc hne (fun Q e heq => ?_) (fun Q h heq => ?_)⟩
      · simp only [accesses, heq]
      · simp only [accesses, heq, List.head?_cons]
  | _ => exact absurd rfl hne

/-- What comes of the work is settled by what it reads: where the locks are the same, the same
    accesses lead to the same point or end. -/
theorem run_eq_of_accesses {σ : Type} [EvictionOrder σ] {P : Pool ρ} {Q : Pool σ}
    (hcP : P.Coherent) (hcQ : Q.Coherent) (hlocks : Q.locks = P.locks) {t : TxnId} {task : Task}
    (heq : task.accesses Q t = task.accesses P t) (hne : task.accesses P t ≠ []) :
    (task.run Q t).2 = (task.run P t).2 := by
  rcases fetched_of_accesses hcP hne with ⟨p, access, hfP, P', f, hP, hlP, hgP, hreadP⟩
  rcases fetched_of_accesses hcQ (heq ▸ hne) with ⟨q, access', hfQ, Q', g, hQ, hlQ, hgQ, hreadQ⟩
  cases hfP.symm.trans hfQ
  rw [heq, hreadP, Option.some.injEq, PageOp.read.injEq] at hreadQ
  have hb := hreadQ.2
  -- A change reads nothing more: it is allowed in both or in neither, and finds the same bytes.
  have halter : ∀ {α : Type} (work : Bytes → Except StoreError (α × Bytes)),
      (Q'.alter ⟨p, g, t, access⟩ work).2 = (P'.alter ⟨p, f, t, access⟩ work).2 := by
    intro α work
    have hcheck : Q'.checkWrite ⟨p, g, t, access⟩ = P'.checkWrite ⟨p, f, t, access⟩ := by
      unfold Pool.checkWrite
      rw [hlQ, hlP, hlocks]
    rw [Pool.result_alter hgQ, Pool.result_alter hgP, hcheck, hb]
  cases task with
  | inspect job file row page count =>
      cases hfP
      simp only [run, hP, hQ, hb]
      split <;> rfl
  | load cursor goal =>
      cases hfP
      simp only [run, hP, hQ, hb]
      split <;> rfl
  | claim job file row page =>
      cases hfP
      have hres := halter (rowIn file.layout row)
      simp only [run, hP, hQ, putRow_eq]
      cases hrP : P'.alter ⟨⟨file.table, page⟩, f, t, .readWrite⟩ (rowIn file.layout row) with
      | mk R r =>
          cases hrQ : Q'.alter ⟨⟨file.table, page⟩, g, t, .readWrite⟩ (rowIn file.layout row) with
          | mk R' r' =>
              rw [hrP, hrQ] at hres
              cases hres
              cases r <;> rfl
  | remove file row =>
      cases hfP
      have hres := halter (rowOut file.layout row.slot)
      simp only [run, hP, hQ, hb, dropRow_eq]
      split
      · rfl
      · cases hrP : P'.alter ⟨row.page, f, t, .readWrite⟩ (rowOut file.layout row.slot) with
        | mk R r =>
            cases hrQ : Q'.alter ⟨row.page, g, t, .readWrite⟩ (rowOut file.layout row.slot) with
            | mk R' r' =>
                rw [hrP, hrQ] at hres
                cases hres
                cases r <;> rfl
  | _ => exact absurd rfl hne

end Task

end RowStore
