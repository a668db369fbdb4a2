import RowStore.Proofs.Requests
import RowStore.Proofs.Scan
import RowStore.Proofs.SlotRows
import RowStore.Proofs.Table.Map
import RowStore.Proofs.Verdicts

/-!
# A Transaction on its Own

What a call makes of a table when one transaction has the store to itself.

Then nobody is in the way of a request, so every lock is granted at once, and a call
that is under way goes from point to point to its end. It may be any transaction that
is alone, with any locks of its own, and any pages may be in memory, clean or dirty.

From outside a table is a map of rows. A fetch brings a page into memory and may make
others leave, but it cannot be seen in the map. A write by a handle changes one page of
it, and an append makes it longer. So the work of a call can be told by the map alone:
`Engine.Leads` says what comes of a point of the work and a map, whatever the pool is
that shows the map. A statement of that kind is proved by one step and the statement
about the next point, with `Engine.Leads.step`.

## Main definitions

* `Pool.tableMap`: What is shown of a table, as a map.
* `Pool.Alone`: Nobody but one transaction holds a lock, and nobody waits.
* `Engine.Resting`, `Engine.Busy`: No call of it is in progress, or one.
* `Engine.Leads`: What comes of a point of a call's work.

## Theorems

* `Pool.Alone.within`: Every row of the map is at a place on one of the pages.
* `Pool.Alone.fetched`, `Pool.Alone.altered`: What a fetch and a write make of the map.
* `Engine.Busy.step`: A call has the lock that it demands and goes on.
* `Engine.Leads.step`: One step of a call.
-/

namespace RowStore

namespace Pool

variable {ρ : Type}

/-- What is shown of a table, as a map. -/
def tableMap (P : Pool ρ) (f : TableFile) : TableMap where
  rows p := SlotPage.get? f.layout (P.shown ⟨f.table, p⟩)
  pages := f.pagesOn P.disk

/-- What a pool has to work with. -/
def means (P : Pool ρ) : Means := ⟨P.cache.capacity, P.faults, P.disk.limit⟩

theorem Keeps.means {P Q : Pool ρ} (h : P.Keeps Q) : Q.means = P.means := by
  unfold Pool.means
  rw [h.capacity, h.faults, h.limit]

/-- Nobody but one transaction holds a lock, and nobody waits. The table is known, and so is what
    there is to work with. -/
structure Alone (P : Pool ρ) (t : TxnId) (f : TableFile) (w : Means) : Prop where
  coherent : P.Coherent
  known : P.tables.get? f.table = some f
  means : P.means = w
  sound : P.locks.Sound
  others : ∀ u p, u ≠ t → P.locks.mode? u p = none
  unwaited : P.locks.waiters = []

variable {P Q : Pool ρ} {t : TxnId} {f : TableFile} {w : Means}

theorem Alone.congr (h : P.Alone t f w) (hc : Q.Coherent) (ht : Q.tables = P.tables)
    (hl : Q.locks = P.locks) (hm : Q.means = P.means) : Q.Alone t f w where
  coherent := hc
  known := ht ▸ h.known
  means := hm.trans h.means
  sound := hl ▸ h.sound
  others := hl ▸ h.others
  unwaited := hl ▸ h.unwaited

theorem tableMap_congr (hs : Q.shown = P.shown) (hd : Q.disk = P.disk) :
    Q.tableMap f = P.tableMap f := by
  unfold tableMap
  rw [hs, hd]

/-- A page of the table that is in memory is one of its pages. -/
theorem Alone.lt_of_page (h : P.Alone t f w) {n : Nat} {page : Page}
    (hp : P.cache.page? ⟨f.table, n⟩ = some page) : n < f.pagesOn P.disk := by
  rcases h.coherent.mirrors hp with ⟨hid, hm⟩
  rcases hm.here with ⟨g, hg, hlt⟩
  rw [hid] at hg hlt
  rw [h.known, Option.some.injEq] at hg
  rw [hg]
  exact hlt

/-- A page past the last is not in memory, and would be one of zeros on disk. -/
theorem Alone.within (h : P.Alone t f w) : (P.tableMap f).Within f.layout := by
  intro n slot row hrow
  have hget : SlotPage.get? f.layout (P.shown ⟨f.table, n⟩) slot = some row := hrow
  constructor
  · by_contra hn
    cases hp : P.cache.page? ⟨f.table, n⟩ with
    | none =>
        rw [shown_of_absent hp, stored_past h.coherent.laid (p := ⟨f.table, n⟩) h.known
          (Nat.le_of_not_lt hn), SlotPage.get?_zeros] at hget
        cases hget
    | some page => exact hn (h.lt_of_page hp)
  · rw [SlotPage.get?_eq] at hget
    by_contra hslot
    rw [SlotPage.used, decide_eq_false hslot, Bool.false_and] at hget
    cases hget

/-- A table that can be counted has as many pages as are counted. -/
theorem pageCount_tableMap (hcount : (P.tableMap f).pages < UInt32.size) :
    f.pageCount P.disk = (P.tableMap f).pages := Nat.mod_eq_of_lt hcount

/-- A page that cannot be loaded is refused by the device, or is not there. -/
theorem Alone.loadImage_error (h : P.Alone t f w) (hcount : f.pagesOn P.disk < UInt32.size)
    {n : Nat} {e : StoreError} (he : P.loadImage ⟨f.table, n⟩ = .error e) :
    w.Refuses f e ∨
      f.pagesOn P.disk ≤ n ∧ e = .pageOutOfRange ⟨f.table, n⟩ (f.pagesOn P.disk) := by
  have hm : f.pageCount P.disk = f.pagesOn P.disk := pageCount_tableMap hcount
  simp only [loadImage, table, h.known, bind, Except.bind] at he
  split at he
  · rename_i fault hfault
    cases he
    have hfaults : w.faults = P.faults := by rw [← h.means]; rfl
    exact Or.inl (.read n fault (hfaults ▸ hfault))
  · rw [f.read_eq P.disk rfl, hm] at he
    split at he
    · cases he
    · cases he
      exact Or.inr ⟨Nat.le_of_not_lt ‹_›, rfl⟩

/-- Nothing can be seen of a fetch. A page that is had is one of the table's pages, and its bytes
    are those that are shown. -/
theorem Alone.fetched [EvictionOrder ρ] (h : P.Alone t f w)
    (hcount : f.pagesOn P.disk < UInt32.size) (n : Nat) (access : Access) :
    ∃ Q, Q.Alone t f w ∧ Q.tableMap f = P.tableMap f ∧ Q.shown = P.shown ∧ Q.locks = P.locks ∧
      ((∃ frame, Task.fetchHandle P t ⟨f.table, n⟩ access =
            (Q, .ok ⟨⟨f.table, n⟩, frame, t, access⟩) ∧
          Q.cache.resident.get? ⟨f.table, n⟩ = some frame ∧ n < f.pagesOn P.disk ∧
          Q.bytesOf ⟨⟨f.table, n⟩, frame, t, access⟩ = P.shown ⟨f.table, n⟩) ∨
        ∃ e, Task.fetchHandle P t ⟨f.table, n⟩ access = (Q, .error e) ∧
          (w.Refuses f e ∨
            f.pagesOn P.disk ≤ n ∧ e = .pageOutOfRange ⟨f.table, n⟩ (f.pagesOn P.disk))) := by
  rcases Task.fetchHandle_cases h.coherent t ⟨f.table, n⟩ access with ⟨Q, hq, hc, hended⟩
  have hQ : Q.Alone t f w := h.congr hc hq.tables hq.locks hq.means
  refine ⟨Q, hQ, tableMap_congr hq.shown hq.disk, hq.shown, hq.locks, ?_⟩
  rcases hended with ⟨frame, heq, hr⟩ | ⟨e, heq, hwhy⟩
  · rcases hc.tidy.exists_page hr with ⟨page, hp, _⟩
    exact Or.inl ⟨frame, heq, hr, hq.disk ▸ hQ.lt_of_page hp, hq.shown ▸ hc.bytesOf_eq hr⟩
  · refine Or.inr ⟨e, heq, ?_⟩
    rcases hwhy with rfl | ⟨_, hl⟩
    · have hframes : P.cache.capacity = w.frames := by rw [← h.means]; rfl
      rw [hframes]
      exact Or.inl .frame
    · exact h.loadImage_error hcount hl

/-- One of the table's pages is fetched, or refused for what there is to work with. -/
theorem Alone.fetched_page [EvictionOrder ρ] (h : P.Alone t f w)
    (hcount : f.pagesOn P.disk < UInt32.size) {n : Nat} (hn : n < f.pagesOn P.disk)
    (access : Access) :
    ∃ Q, Q.Alone t f w ∧ Q.tableMap f = P.tableMap f ∧ Q.shown = P.shown ∧ Q.locks = P.locks ∧
      ((∃ frame, Task.fetchHandle P t ⟨f.table, n⟩ access =
            (Q, .ok ⟨⟨f.table, n⟩, frame, t, access⟩) ∧
          Q.cache.resident.get? ⟨f.table, n⟩ = some frame ∧
          Q.bytesOf ⟨⟨f.table, n⟩, frame, t, access⟩ = P.shown ⟨f.table, n⟩) ∨
        ∃ e, Task.fetchHandle P t ⟨f.table, n⟩ access = (Q, .error e) ∧ w.Refuses f e) := by
  rcases h.fetched hcount n access with
    ⟨Q, hQ, hmap, hshown, hlocks, ⟨frame, hfetch, hr, _, hb⟩ | ⟨e, hfetch, hwhy⟩⟩
  · exact ⟨Q, hQ, hmap, hshown, hlocks, Or.inl ⟨frame, hfetch, hr, hb⟩⟩
  · rcases hwhy with hrefuses | ⟨hle, _⟩
    · exact ⟨Q, hQ, hmap, hshown, hlocks, Or.inr ⟨e, hfetch, hrefuses⟩⟩
    · exact absurd hn (Nat.not_lt.2 hle)

/-- Work on a page that changes what is in one slot changes one place of the map. -/
theorem Alone.altered {α : Type} (h : P.Alone t f w) {n slot : Nat} {frame : FrameNo}
    (hr : P.cache.resident.get? ⟨f.table, n⟩ = some frame)
    (hx : P.locks.mode? t ⟨f.table, n⟩ = some .exclusive)
    {work : Bytes → Except StoreError (α × Bytes)}
    (hsize : ∀ b a b', work b = .ok (a, b') → b'.size = b.size) {a : α} {b : Bytes}
    {row : Option Bytes} (hwork : work (P.shown ⟨f.table, n⟩) = .ok (a, b))
    (hget : ∀ s, SlotPage.get? f.layout b s =
      if s = slot then row else SlotPage.get? f.layout (P.shown ⟨f.table, n⟩) s) :
    ∃ Q, P.alter ⟨⟨f.table, n⟩, frame, t, .readWrite⟩ work = (Q, .ok a) ∧
      Q.Alone t f w ∧ Q.tableMap f = (P.tableMap f).put n slot row := by
  have hg := grasps_of_resident h.coherent (h := ⟨⟨f.table, n⟩, frame, t, .readWrite⟩) hr
  have hb : P.bytesOf ⟨⟨f.table, n⟩, frame, t, .readWrite⟩ = P.shown ⟨f.table, n⟩ :=
    h.coherent.bytesOf_eq hr
  have hcheck : P.checkWrite ⟨⟨f.table, n⟩, frame, t, .readWrite⟩ = .ok () := by
    simp [checkWrite, hx]
  rcases alter_cases hg work with
    ⟨e, hw, _⟩ | ⟨_, e, hwork', _⟩ | ⟨hw, a', b', hwork', heq⟩
  · rw [hcheck] at hw
    cases hw
  · rw [hb, hwork] at hwork'
    cases hwork'
  · rw [hb, hwork] at hwork'
    cases hwork'
    have hp := performs_written h.coherent hr hw (hb ▸ hsize _ _ _ hwork)
    refine ⟨_, heq, h.congr hp.coherent hp.tables hp.locks rfl, ?_⟩
    refine TableMap.ext (funext fun m => funext fun s => ?_) rfl
    simp only [tableMap, TableMap.put, hp.shown, PageOp.after, PageOp.put, PageId.mk.injEq,
      true_and]
    by_cases hm : m = n
    · rw [if_pos hm, hget, hm]
      simp only [true_and]
    · rw [if_neg hm, if_neg fun hms => hm hms.1]

end Pool

namespace Engine

variable {ρ : Type} {t : TxnId} {f : TableFile} {w : Means}

/-- No call is in progress, and nobody but one transaction holds a lock. -/
structure Resting (E : Engine ρ) (t : TxnId) (f : TableFile) (w : Means) : Prop where
  alone : E.pool.Alone t f w
  calls : E.calls.entries = []

/-- One call of that transaction is in progress. -/
structure Busy (E : Engine ρ) (t : TxnId) (f : TableFile) (w : Means) (c : CallNo)
    (task : Task) : Prop where
  alone : E.pool.Alone t f w
  calls : E.calls.entries = [(c, ⟨t, task⟩)]

/-- On a pool on which nothing has been done any transaction is alone. -/
theorem Fresh.resting {E : Engine ρ} (h : E.Fresh) (hf : E.pool.tables.get? f.table = some f)
    (t : TxnId) : E.Resting t f E.pool.means where
  alone :=
    { coherent := h.sane.coherent
      known := hf
      means := rfl
      sound := h.locks ▸ LockTable.sound_empty
      others := fun u p _ => by rw [h.locks]; rfl
      unwaited := by rw [h.locks] }
  calls := by rw [h.calls]; rfl

variable [EvictionOrder ρ]

/-- It is given the lock that it demands and goes on. -/
theorem Busy.step {E : Engine ρ} {c : CallNo} {task : Task} (h : E.Busy t f w c task) :
    ∃ l, (E.pool.setLocks l).Alone t f w ∧ (∀ r ∈ task.demand, l.Enough t r.1 r.2) ∧
      E.step c = (E.setLocks l).work c ⟨t, task⟩ := by
  have hsolo : E.Solo c ⟨t, task⟩ := ⟨h.alone.unwaited, h.calls⟩
  cases hd : task.demand with
  | none =>
      refine ⟨E.pool.locks, h.alone, fun r hr => (by cases hr), ?_⟩
      simp only [Engine.step, hsolo.get?, hd]
      rfl
  | some r =>
      rcases r with ⟨p, mode⟩
      have hw := h.alone.unwaited
      -- Whoever is in the way would have to hold something.
      have hnobody : E.pool.locks.blockers t p mode = [] := by
        rw [LockTable.blockers_eq_nil_iff h.alone.sound]
        rintro u ⟨hne, held, hm, _⟩
        rw [h.alone.others u p hne] at hm
        cases hm
      have hgranted : (E.pool.locks.request c t p mode).2 = .granted := by
        rcases E.pool.locks.request_cases c t p mode with ⟨hv, _⟩ | ⟨_, _, hb, _⟩ | ⟨_, _, hb, _⟩
        · exact hv
        · exact absurd hnobody hb
        · exact absurd hnobody hb
      cases hreq : E.pool.locks.request c t p mode with
      | mk l v =>
          rw [hreq] at hgranted
          subst hgranted
          have hnone : ∀ u, u ∉ E.pool.locks.waiters := by
            intro u hu
            rw [hw] at hu
            cases hu
          have hsound := LockTable.sound_request h.alone.sound c t p mode
            (fun u hu => absurd hu (hnone u)) fun u hu => absurd hu (hnone u)
          have hgrows := LockTable.grows_request c t p mode h.alone.sound.backed
          rw [hreq] at hsound hgrows
          refine ⟨l, ⟨h.alone.coherent.setLocks l, h.alone.known, h.alone.means, hsound,
            fun u q hne => ?_, ?_⟩, ?_, ?_⟩
          · exact (hgrows.others u hne q).trans (h.alone.others u q hne)
          · refine List.eq_nil_iff_forall_not_mem.2 fun w hw' => ?_
            rcases LockTable.mem_waiters_request hreq hw' with ⟨u, hu, _⟩ | ⟨hv, _⟩
            · exact hnone u hu
            · cases hv
          · rintro r ⟨⟩
            rcases LockTable.request_granted hreq with ⟨rfl, hh⟩ | he
            · exact h.alone.sound.agreed.enough hh
            · exact he
          · simp only [Engine.step, hsolo.get?, hd, hsolo.waiterOf, hreq, obey]

/-- Whatever the pool is that shows a map, a call at a point of its work comes to its end in so many
    steps, with an outcome and a map that meet a condition. -/
def Leads (ρ : Type) [EvictionOrder ρ] (t : TxnId) (f : TableFile) (w : Means) (fuel : Nat)
    (task : Task) (M : TableMap) (post : Outcome → TableMap → Prop) : Prop :=
  ∀ (E : Engine ρ) (c : CallNo), E.Busy t f w c task → E.pool.tableMap f = M →
    ∀ steps, fuel ≤ steps → ∃ E' outcome, E.settle steps = (E', [(c, outcome)]) ∧
      E'.Resting t f w ∧ post outcome (E'.pool.tableMap f)

theorem Leads.mono {fuel fuel' : Nat} {task : Task} {M : TableMap}
    {post : Outcome → TableMap → Prop} (h : Leads ρ t f w fuel task M post)
    (hle : fuel ≤ fuel') : Leads ρ t f w fuel' task M post :=
  fun E c hbusy hM steps hsteps => h E c hbusy hM steps (Nat.le_trans hle hsteps)

/-- One step. -/
theorem Leads.step {fuel : Nat} {task : Task} {M : TableMap} {post : Outcome → TableMap → Prop}
    (h : ∀ P : Pool ρ, P.Alone t f w → P.tableMap f = M →
      (∀ r ∈ task.demand, P.locks.Enough t r.1 r.2) →
      ∃ Q r, task.run P t = (Q, r) ∧ Q.Alone t f w ∧
        match r with
        | .inl task' => Leads ρ t f w fuel task' (Q.tableMap f) post
        | .inr outcome => post outcome (Q.tableMap f)) :
    Leads ρ t f w (fuel + 1) task M post := by
  intro E c hbusy hM steps hle
  have hsolo : E.Solo c ⟨t, task⟩ := ⟨hbusy.alone.unwaited, hbusy.calls⟩
  obtain ⟨n, rfl⟩ : ∃ n, steps = n + 1 := ⟨steps - 1, by omega⟩
  rcases hbusy.step with ⟨l, hl, henough, hstep⟩
  rcases h (E.pool.setLocks l) hl hM henough with ⟨Q, r, hrun, hQ, hr⟩
  have hpool : (E.setLocks l).pool = E.pool.setLocks l := rfl
  cases r with
  | inl task' =>
      have hgo : E.step c =
          ({ E with pool := Q, calls := E.calls.insert c ⟨t, task'⟩ }, none) := by
        rw [hstep, work, hpool, hrun]
        rfl
      rw [settle_go hsolo hgo]
      exact hr { E with pool := Q, calls := E.calls.insert c ⟨t, task'⟩ } c
        ⟨hQ, hsolo.insert _⟩ rfl n (Nat.le_of_succ_le_succ hle)
  | inr outcome =>
      have hstop : E.step c =
          ({ E with pool := Q, calls := E.calls.erase c }, some outcome) := by
        rw [hstep, work, hpool, hrun]
        rfl
      rw [settle_stop hsolo hstop hsolo.erase hQ.unwaited]
      exact ⟨_, outcome, rfl, ⟨hQ, hsolo.erase⟩, hr⟩

end Engine

end RowStore
