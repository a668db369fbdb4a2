import RowStore.Proofs.Lock.Growth

/-!
# Locks That Weaken

What becomes of a lock to write a page when its transaction has several calls at a time.

Such a lock is meant to last until its transaction gives it back. One thing can come
before that. Two calls of the transaction wait for the page, one to read it and one to
write it, and the one to write it is granted its lock first. When the other is resumed
it is found that nobody else is in its way, and it is granted what it once asked for.
What its transaction has come to hold meanwhile is not looked at. So the account of the
transaction says from then on that the page is held to be read, and the page itself has
the transaction for its writer and among its readers.

`Overtaken` says this of a call that waits. Whatever calls are made, to resume an
overtaken call is the only step that weakens a lock which is not given back by it. Other
transactions are kept off the page all the same.

## Main definitions

* `Op`, `performAll`: The steps of calls, and of transactions that give locks back.
* `Op.Weakens`: A call that waits for less than its transaction has is resumed.
* `Op.Yields`: A lock is given back.
* `Faithful`: A lock does not weaken.

## Theorems

* `guarded_performAll`: The writer of a page keeps all others off it, whatever the steps.
* `exclusive_perform_iff`: Which steps take a lock to write from a transaction.
* `resume_overtaken`: What comes of an overtaken call.
* `exclusive_until_overtaken`: A lock to write lasts until it is given back or overtaken.
-/

namespace RowStore

namespace LockTable

/-- A call asks for a lock or asks again, or a transaction gives back one lock or all of them. -/
inductive Op where
  | request (call : CallNo) (t : TxnId) (p : PageId) (mode : LockMode)
  | resume (w : Waiter)
  | release (t : TxnId) (p : PageId)
  | releaseAll (t : TxnId)

/-- The table after a step. -/
def perform (l : LockTable) : Op → LockTable
  | .request call t p mode => (l.request call t p mode).1
  | .resume w => (l.resume w).1
  | .release t p => l.release t p
  | .releaseAll t => l.releaseAll t

/-- One step after another. -/
def performAll (l : LockTable) (ops : List Op) : LockTable := ops.foldl perform l

/-- An overtaken call of the transaction for the page is resumed. -/
def Op.Weakens (l : LockTable) (t : TxnId) (p : PageId) : Op → Prop
  | .resume w => l.Overtaken w ∧ w.txn = t ∧ w.page = p
  | .request _ _ _ _ | .release _ _ | .releaseAll _ => False

/-- The transaction gives back its lock on the page. -/
def Op.Yields (t : TxnId) (p : PageId) : Op → Prop
  | .release u q => u = t ∧ q = p
  | .releaseAll u => u = t
  | .request _ _ _ _ | .resume _ => False

/-- No overtaken call of the transaction for the page is resumed. -/
def Faithful (l : LockTable) (t : TxnId) (p : PageId) : List Op → Prop
  | [] => True
  | op :: rest => ¬ op.Weakens l t p ∧ Faithful (l.perform op) t p rest

variable {l : LockTable}

/-! ## One step -/

theorem guarded_perform (h : l.Guarded) (op : Op) : (l.perform op).Guarded := by
  cases op with
  | request call t p mode => exact guarded_request h call t p mode
  | resume w => exact guarded_resume h w
  | release t p => exact guarded_release h t p
  | releaseAll t => exact guarded_releaseAll h t

/-- A step that does not weaken a lock leaves the two accounts in agreement. -/
theorem agreed_perform (ha : l.Agreed) {op : Op} (hop : ∀ t p, ¬ op.Weakens l t p) :
    (l.perform op).Agreed := by
  cases op with
  | request call t p mode => exact agreed_request call t p mode ha
  | resume w =>
      -- The call is judged on the table of the others, whose accounts are the same.
      have hw : (l.without w).Agreed := ⟨ha.agree, ha.alone⟩
      exact agreed_judge hw (adds_of_not_overtaken fun h => hop _ _ ⟨h, rfl, rfl⟩) w.call
  | release t p => exact agreed_release ha t p
  | releaseAll t => exact agreed_releaseAll ha t

/-- An overtaken call is granted its lock, and then its transaction holds the page to read it by its
    own account, and is both the writer and a reader of it by the page's. -/
theorem resume_overtaken {w : Waiter} (h : l.Overtaken w) :
    (l.resume w).2 = .granted ∧
      (∀ t p, (l.resume w).1.mode? t p =
        if t = w.txn ∧ p = w.page then some .shared else l.mode? t p) ∧
      ((l.resume w).1.holdersOf w.page).exclusive = some w.txn ∧
      w.txn ∈ ((l.resume w).1.holdersOf w.page).shared := by
  rcases h with ⟨hmode, hx⟩
  -- The only writer that could be in the way is the transaction itself.
  have hfree : (l.without w).blockers w.txn w.page .shared = [] := by
    refine (Holders.blockers_eq_nil _ _ _).2 fun u hu => ⟨fun hxu => ?_, nofun⟩
    exact hu (Option.some.inj (hxu.symm.trans hx))
  rcases (l.without w).judge_cases w.call w.txn w.page .shared with
    ⟨_, he⟩ | ⟨hne, _⟩ | ⟨hne, _⟩
  · have heq : l.resume w = ((l.without w).grant w.txn w.page .shared, .granted) := by
      rw [resume_eq, hmode, he]
    have hholders : (l.resume w).1.holdersOf w.page = (l.holdersOf w.page).grant w.txn .shared := by
      rw [heq]
      exact ((l.without w).holdersOf_grant ..).trans (if_pos rfl)
    refine ⟨by rw [heq], fun t p => ?_, ?_, ?_⟩
    · rw [heq]
      exact (l.without w).mode?_grant ..
    · rw [hholders]
      exact hx
    · rw [hholders]
      simp only [Holders.grant]
      split
      · rename_i hmem
        exact List.contains_iff_mem.1 hmem
      · exact List.mem_cons_self
  · exact absurd hfree hne
  · exact absurd hfree hne

/-- A lock to write is lost where a step says something else of it. -/
theorem lost_iff {l' : LockTable} {t : TxnId} {p : PageId} {there : Prop} [Decidable there]
    {mode : Option LockMode} (hx : l.mode? t p = some .exclusive)
    (h : l'.mode? t p = if there then mode else l.mode? t p) (hmode : mode ≠ some .exclusive) :
    l'.mode? t p ≠ some .exclusive ↔ there := by
  rw [h]
  by_cases ht : there
  · rw [if_pos ht]
    exact ⟨fun _ => ht, fun _ => hmode⟩
  · rw [if_neg ht]
    exact ⟨fun hne => absurd hx hne, fun hin => absurd hin ht⟩

section exclusive

variable {t : TxnId} {p : PageId} (hb : l.Backed) (hx : l.mode? t p = some .exclusive)

include hb hx

theorem exclusive_resume_iff (w : Waiter) :
    (l.resume w).1.mode? t p ≠ some .exclusive ↔ l.Overtaken w ∧ w.txn = t ∧ w.page = p := by
  by_cases ho : l.Overtaken w
  · refine (lost_iff hx ((resume_overtaken ho).2.1 t p) nofun).trans ?_
    simp only [ho, true_and, eq_comm]
  · have hb' : (l.without w).Backed := ⟨hb.exclusive, hb.covered⟩
    have hkeep := (grows_judge hb' (adds_of_not_overtaken ho) w.call).keeps hx
    exact ⟨fun h => absurd hkeep h, fun h => absurd h.1 ho⟩

/-- A transaction that holds a page to write it holds it so after a step, unless it gives the page
    back by this step or an overtaken call of its for the page is resumed. -/
theorem exclusive_perform_iff (op : Op) :
    (l.perform op).mode? t p ≠ some .exclusive ↔ op.Yields t p ∨ op.Weakens l t p := by
  cases op with
  | request call u q mode =>
      -- What the transaction has is looked at first, so a new request takes no lock to write.
      have hkeep := (grows_request call u q mode hb).keeps hx
      exact ⟨fun h => absurd hkeep h, fun h => (or_self_iff.1 h).elim⟩
  | resume w =>
      exact (exclusive_resume_iff hb hx w).trans ⟨Or.inr, fun h => h.elim False.elim id⟩
  | release u q =>
      refine (lost_iff hx (l.mode?_release u q t p) nofun).trans ?_
      simp only [Op.Yields, Op.Weakens, or_false, eq_comm]
  | releaseAll u =>
      refine (lost_iff hx (l.mode?_releaseAll u t p) nofun).trans ?_
      simp only [Op.Yields, Op.Weakens, or_false, eq_comm]

end exclusive

/-! ## One step after another -/

theorem guarded_performAll (ops : List Op) :
    ∀ {l : LockTable}, l.Guarded → (l.performAll ops).Guarded := by
  induction ops with
  | nil => exact fun h => h
  | cons op rest ih => exact fun h => ih (guarded_perform h op)

theorem agreed_performAll (ops : List Op) :
    ∀ {l : LockTable}, l.Agreed → (∀ t p, l.Faithful t p ops) → (l.performAll ops).Agreed := by
  induction ops with
  | nil => exact fun h _ => h
  | cons op rest ih =>
      exact fun h hf => ih (agreed_perform h fun t p => (hf t p).1) fun t p => (hf t p).2

/-- A lock to write lasts as long as it is neither given back nor weakened. -/
theorem exclusive_performAll {t : TxnId} {p : PageId} (ops : List Op) :
    ∀ {l : LockTable}, l.Guarded → l.mode? t p = some .exclusive →
      (∀ op ∈ ops, ¬ op.Yields t p) → l.Faithful t p ops →
      (l.performAll ops).mode? t p = some .exclusive := by
  induction ops with
  | nil => exact fun _ hx _ _ => hx
  | cons op rest ih =>
      intro l hg hx hy hf
      -- A step that took the lock would be one of the two that are left out.
      have hkeep : (l.perform op).mode? t p = some .exclusive := by
        by_contra hne
        exact ((exclusive_perform_iff hg.toBacked hx op).1 hne).elim (hy op List.mem_cons_self) hf.1
      exact ih (guarded_perform hg op) hkeep (fun o ho => hy o (List.mem_cons_of_mem _ ho)) hf.2

/-- However calls asked, were resumed and gave locks back, any number of a transaction's at a time:
    the writer of a page keeps all other transactions off it, and is not among its readers either
    unless an overtaken call was resumed. A transaction that holds a page to write it goes on to do
    so, and has it among the pages that it holds so, until it gives it back or an overtaken call of
    its for the page is resumed. That call is granted its lock, and the page is then none of those
    that the transaction holds to write, while the page has the transaction for its writer and among
    its readers. -/
theorem exclusive_until_overtaken (ops : List Op) :
    let l := performAll {} ops
    (∀ p, (l.holdersOf p).Closed) ∧
      ((∀ t p, Faithful {} t p ops) → ∀ p, (l.holdersOf p).Alone) ∧
      (∀ t p, l.mode? t p = some .exclusive →
        p ∈ l.exclusivePages t ∧
        ∀ more, (∀ op ∈ more, ¬ op.Yields t p) → l.Faithful t p more →
          (l.performAll more).mode? t p = some .exclusive ∧
            p ∈ (l.performAll more).exclusivePages t) ∧
      ∀ w, l.Overtaken w →
        (l.resume w).2 = .granted ∧
          (l.resume w).1.mode? w.txn w.page = some .shared ∧
          w.page ∉ (l.resume w).1.exclusivePages w.txn ∧
          ((l.resume w).1.holdersOf w.page).exclusive = some w.txn ∧
          w.txn ∈ ((l.resume w).1.holdersOf w.page).shared := by
  intro l
  have hg : l.Guarded := guarded_performAll ops guarded_empty
  refine ⟨hg.closed, fun hf => (agreed_performAll ops agreed_empty hf).alone, fun t p hx => ?_,
    fun w ho => ?_⟩
  · refine ⟨(l.mem_exclusivePages t p).2 hx, fun more hy hf => ?_⟩
    have hx' := exclusive_performAll more hg hx hy hf
    exact ⟨hx', ((l.performAll more).mem_exclusivePages t p).2 hx'⟩
  · rcases resume_overtaken ho with ⟨hgranted, hmode, hwriter, hreader⟩
    have hshared : (l.resume w).1.mode? w.txn w.page = some .shared :=
      (hmode w.txn w.page).trans (if_pos ⟨rfl, rfl⟩)
    refine ⟨hgranted, hshared, fun hmem => ?_, hwriter, hreader⟩
    cases hshared.symm.trans ((mem_exclusivePages _ _ _).1 hmem)

/-- A transaction has two calls that wait for a page, the first to read it and the second to write
    it, when its writer ends. The second is resumed before the first. -/
theorem exclusive_lock_weakens :
    let t : TxnId := ⟨1⟩
    let u : TxnId := ⟨2⟩
    let p : PageId := ⟨⟨1⟩, 0⟩
    let reader : Waiter := ⟨⟨1⟩, t, p, .shared, true⟩
    let writer : Waiter := ⟨⟨2⟩, t, p, .exclusive, true⟩
    let woken := performAll {} [.request ⟨0⟩ u p .exclusive, .request ⟨1⟩ t p .shared,
      .request ⟨2⟩ t p .exclusive, .releaseAll u]
    let before := (woken.resume writer).1
    let after := (before.resume reader).1
    woken.waiters = [reader, writer] ∧ before.waiters = [reader] ∧
      before.mode? t p = some .exclusive ∧ before.exclusivePages t = [p] ∧
      after.mode? t p = some .shared ∧ after.exclusivePages t = [] ∧
      after.holdersOf p = ⟨[t], some t⟩ := by
  decide +kernel

end LockTable

end RowStore
