import RowStore.Proofs.Insertions

/-!
# How Insertions and Deletions Fail

Why a call that puts rows into a table, or takes one off it, can end with an error.

Such a call may find its table unknown, or a page of it not to be had: the page cannot be
read, or is not one of the table, or no frame can be freed for it. The table may not be
able to grow. The row may not be of the right length, or have no place. None of this has
to do with what is on a page, or with the locks.

The other errors come of a write. An insertion gets them from a page that has no room any
more, or that its transaction does not hold to write; a deletion from a page that is not
held to write. For a call at the point where it writes, a page that is held and has room is
all that is needed to be spared them. A deletion can also find that there is no row in its
slot. It looks before it writes, and then it leaves the page as it is.

## Main definitions

* `StoreError.isFair`: The errors other than that a page is full, or not held to write.
* `StoreError.isPlain`: Those that are not of a slot without a row either.
* `Confined`: If something fails, it is with one of some errors.
* `Task.isInsertion`, `Task.isDeletion`: The points of such calls.

## Theorems

* `Pool.confined_loadImage`: A page that cannot be loaded is so for a plain reason.
* `Task.plain_of_insertion`: An insertion fails for a plain reason, if its page is as found.
* `Task.fair_of_deletion`: A deletion fails for a fair reason, if its page is held.
-/

namespace RowStore

/-- Whether an error is none of a page that has no room, or of a lock that is not the one needed. -/
def StoreError.isFair : StoreError → Bool
  | .pageFull _ | .lockNotHeld _ _ | .readOnlyPage _ => false
  | _ => true

/-- Whether an error is in addition none of a slot without a row. -/
def StoreError.isPlain : StoreError → Bool
  | .pageFull _ | .lockNotHeld _ _ | .readOnlyPage _ | .invalidSlot _ _ | .rowNotFound _ => false
  | _ => true

theorem StoreError.isFair_of_isPlain {e : StoreError} (h : e.isPlain = true) : e.isFair = true := by
  cases e with
  | pageFull _ | lockNotHeld _ _ | readOnlyPage _ => exact h
  | _ => rfl

/-! ## Errors -/

/-- If something fails, it is with one of these errors. -/
def Confined (ok : StoreError → Bool) {α : Type} (r : Except StoreError α) : Prop :=
  ∀ e, r = .error e → ok e = true

namespace Confined

variable {ok : StoreError → Bool} {α β : Type}

theorem of_ok (a : α) : Confined ok (.ok a : Except StoreError α) := fun _ h => by cases h

theorem of_error {e : StoreError} (h : ok e = true) :
    Confined ok (.error e : Except StoreError α) := fun _ he => by cases he; exact h

theorem bind {r : Except StoreError α} {f : α → Except StoreError β} (h : Confined ok r)
    (hf : ∀ a, Confined ok (f a)) : Confined ok (r >>= f) := by
  cases r with
  | error e => exact of_error (h e rfl)
  | ok a => exact hf a

theorem ite {p : Prop} [Decidable p] {r r' : Except StoreError α} (h : Confined ok r)
    (h' : Confined ok r') : Confined ok (if p then r else r') := by
  split
  · exact h
  · exact h'

/-- A check fails with the error that it names. -/
theorem check {p : Prop} [Decidable p] {a : α} {e : StoreError} (h : ok e = true) :
    Confined ok (if p then .ok a else .error e) :=
  .ite (.of_ok a) (.of_error h)

theorem fair {r : Except StoreError α} (h : Confined StoreError.isPlain r) :
    Confined StoreError.isFair r := fun e he => StoreError.isFair_of_isPlain (h e he)

end Confined

theorem Pool.confined_table {ρ : Type} (P : Pool ρ) (u : TableId) :
    Confined StoreError.isPlain (P.table u) := by
  unfold Pool.table
  split
  · exact .of_ok _
  · exact .of_error rfl

/-- A page cannot be loaded for a reason that has nothing to do with what is on it. -/
theorem Pool.confined_loadImage {ρ : Type} (P : Pool ρ) (p : PageId) :
    Confined StoreError.isPlain (P.loadImage p) := by
  refine .bind (P.confined_table p.table) fun f => ?_
  split
  · exact .of_error rfl
  · refine .bind (.check rfl) fun _ => .bind ?_ fun _ => .of_ok _
    refine .bind (.check rfl) fun _ => ?_
    exact .bind (.ite (.of_error rfl) (.of_ok _)) fun n => .check rfl

theorem TableFile.confined_append (f : TableFile) (d : Disk) :
    Confined StoreError.isPlain (f.append d) := by
  refine .bind (.bind (.ite (.of_error rfl) (.of_ok _)) fun n => .bind ?_ fun _ => .of_ok _)
    fun _ => .of_ok _
  unfold PageFile.setSize
  cases d.setSize f.pages.file ((n + 1) * f.pages.pageSize) with
  | error fault => exact .of_error rfl
  | ok d' => exact .of_ok _

namespace Task

/-- Whether a point is one of an insertion. -/
def isInsertion : Task → Bool
  | .insert _ | .survey _ _ _ _ | .seek _ _ _ _ _ | .inspect _ _ _ _ _ | .claim _ _ _ _ => true
  | _ => false

/-- Whether a point is one of a deletion. -/
def isDeletion : Task → Bool
  | .delete _ | .remove _ _ => true
  | _ => false

theorem isScan_of_isInsertion {task : Task} (h : task.isInsertion = true) :
    task.isScan = false := by
  cases task with
  | advance _ _ | load _ _ => cases h
  | _ => rfl

theorem failure_of_fail (task : Task) (e : StoreError) : (task.fail e).failure? = some e := by
  cases task <;> rfl

variable {ρ : Type} [EvictionOrder ρ] {P Q : Pool ρ} {t : TxnId}

theorem confined_checkRowAt (layout : Layout) (b : Bytes) (slot : Nat) :
    Confined StoreError.isFair (checkRowAt layout b slot) :=
  .bind (.check rfl) fun _ => .bind (.bind (.check rfl) fun _ => .check rfl) fun _ => .of_ok _

theorem confined_rowOut (layout : Layout) (slot : Nat) (b : Bytes) :
    Confined StoreError.isFair (rowOut layout slot b) :=
  .bind (.check rfl) fun _ => .bind (.bind (.check rfl) fun _ => .check rfl) fun _ => .of_ok _

section fails

variable (hc : P.Coherent)

include hc

theorem plain_of_fetchHandle {p : PageId} {access : Access} {e : StoreError}
    (h : fetchHandle P t p access = (Q, .error e)) : e.isPlain = true := by
  rcases fetchHandle_cases hc t p access with ⟨R, _, _, ⟨f, heq, _⟩ | ⟨e', heq, hwhy⟩⟩
  · cases h.symm.trans heq
  · cases h.symm.trans heq
    rcases hwhy with rfl | ⟨_, hload⟩
    · rfl
    · exact P.confined_loadImage p e hload

/-- A search that fails does so with a plain error, if at the point where it writes the page is held
    to write and has room. -/
theorem plain_of_search {s : Search} (hf : P.tables.get? s.file.table = some s.file) {task : Task}
    (hs : task.search? = some s)
    (hready : task.demand = some (s.pageId, .exclusive) →
      P.locks.mode? t s.pageId = some .exclusive ∧
        SlotPage.firstFree s.file.layout (P.shown s.pageId) ≠ none)
    {outcome : Outcome} (hrun : run P t task = (Q, .inr outcome)) {e : StoreError}
    (he : outcome.failure? = some e) : e.isPlain = true := by
  rcases run_search_fails hc hf hs hrun with ⟨e', rfl, hwhy⟩
  cases he
  cases hwhy with
  | growth h => exact TableFile.confined_append _ _ e h
  | fetch h => exact plain_of_fetchHandle hc h
  | unheld hd hx => exact absurd (hready hd).1 hx
  | noRoom hd h =>
      have hroom := (hready hd).2
      unfold SlotPage.insert at h
      split at h
      · cases h
        rfl
      · split at h
        · rename_i hfree
          exact absurd hfree hroom
        · cases h

/-- So does an insertion wherever it stands. -/
theorem plain_of_insertion {task : Task} (hins : task.isInsertion = true)
    (hk : task.Fits P.tables)
    (hready : ∀ s, task.search? = some s → task.demand = some (s.pageId, .exclusive) →
      P.locks.mode? t s.pageId = some .exclusive ∧
        SlotPage.firstFree s.file.layout (P.shown s.pageId) ≠ none)
    {outcome : Outcome} (hrun : run P t task = (Q, .inr outcome)) {e : StoreError}
    (he : outcome.failure? = some e) : e.isPlain = true := by
  cases task with
  | insert job =>
      cases hrows : job.rows with
      | nil =>
          simp only [run, hrows] at hrun
          cases hrun
          cases he
      | cons row rest =>
          rcases run_insert_fails hrows hrun with ⟨e', rfl, htable | ⟨file, hrow⟩⟩
          · cases he
            exact P.confined_table _ e htable
          · cases he
            exact Confined.check rfl e hrow
  | survey job file row page | seek job file row page count | inspect job file row page count
  | claim job file row page =>
      exact plain_of_search hc (s := ⟨job, file, row, page⟩) (hk file rfl) rfl (hready _ rfl) hrun
        he
  | _ => cases hins

/-- A deletion that fails does so with a fair error, if the page is held that it is to write. -/
theorem fair_of_deletion {task : Task} (hdel : task.isDeletion = true)
    (hheld : ∀ p, task.demand = some (p, .exclusive) → P.locks.mode? t p = some .exclusive)
    {outcome : Outcome} (hrun : run P t task = (Q, .inr outcome)) {e : StoreError}
    (he : outcome.failure? = some e) : e.isFair = true := by
  cases task with
  | delete row =>
      cases row with
      | none =>
          cases hrun
          cases he
          rfl
      | some r =>
          simp only [run] at hrun
          split at hrun
          · rename_i e' htable
            cases hrun
            cases he
            exact (P.confined_table _).fair e htable
          · split at hrun
            · rename_i file _ _ e' hpage
              cases hrun
              cases he
              exact Confined.check rfl e hpage
            · cases hrun
  | remove file row =>
      simp only [run] at hrun
      cases hfetch : fetchHandle P t row.page .readWrite with
      | mk R r =>
          rw [hfetch] at hrun
          cases r with
          | error e' =>
              cases hrun
              cases he
              exact StoreError.isFair_of_isPlain (plain_of_fetchHandle hc hfetch)
          | ok h =>
              rcases fetched_shown hc hfetch with ⟨f, rfl, hq, hcr, hr, _, _⟩
              have hg := Pool.grasps_of_resident hcr (h := ⟨row.page, f, t, .readWrite⟩) hr
              simp only [dropRow_eq] at hrun
              split at hrun
              · rename_i e' hcheck
                cases hrun
                cases he
                exact confined_checkRowAt _ _ _ e hcheck
              · rcases Pool.alter_cases hg (rowOut file.layout row.slot) with
                  ⟨e', hw, heq⟩ | ⟨_, e', hwork, heq⟩ | ⟨_, _, b, _, heq⟩
                · -- The page is held to write.
                  have hok : R.checkWrite ⟨row.page, f, t, .readWrite⟩ = .ok () := by
                    simp only [Pool.checkWrite, hq.locks, hheld _ rfl, ne_eq, not_true_eq_false,
                      if_false]
                  cases hw.symm.trans hok
                · rw [heq] at hrun
                  cases hrun
                  cases he
                  exact confined_rowOut _ _ _ e hwork
                · rw [heq] at hrun
                  cases hrun
                  cases he
  | _ => cases hdel

end fails

end Task

end RowStore
