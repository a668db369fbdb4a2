import RowStore.Proofs.Run
import RowStore.Recency

/-!
# What Can Come of a Pool

Every state that a pool and its calls can come to, and what is true of the copies in
all of them.

A run of `Engine.run` keeps the tables that it began with, and visits the pages of an
ending in one order. Here a table may also become known on the way, files that belong
to no table may change, and pages may be flushed and restored one by one at any time.
An ending that visits its pages in another order, or is interrupted between two of
them, is made of such visits.

A clean copy is what a load would bring. It leaves memory without being written, so
nothing may make a copy and its image differ and leave the copy clean. Flushing,
restoring, discarding, growing and stale handles are all held to it, whether they
succeed or fail.

## Main definitions

* `Event.Sited`: A call that may let a table grow keeps to its table's file.
* `Engine.Reachable`: The states that can be come to.

## Theorems

* `Engine.Reachable.coherent`: Copies and images go together in all of them.
* `Engine.clean_copy_reads_back`: A clean copy is what its table's file would be read as.
-/

namespace RowStore

/-- A call that begins keeps to the table files that the tables are known by, unless it does nothing
    but move a cursor. -/
def Event.Sited (tables : Assoc TableId TableFile) : Event → Prop
  | .submit _ task => task.isScan = false → task.Fits tables
  | .step _ | .act _ => True

theorem Event.Fits.sited {tables : Assoc TableId TableFile} {ev : Event} (h : ev.Fits tables) :
    ev.Sited tables := by
  cases ev with
  | submit t task => exact fun _ => h
  | step c => trivial
  | act a => trivial

namespace Engine

variable {ρ : Type} [EvictionOrder ρ]

/-- What can come of a pool on which nothing has been done, as long as no table is replaced and its
    file is changed by nobody else. -/
inductive Reachable : Engine ρ → Prop
  | fresh {E : Engine ρ} (h : E.Fresh) : Reachable E
  /-- Anything happens that can happen to a pool and its calls. -/
  | exec {E : Engine ρ} {ev : Event} (h : Reachable E) (hb : E.pool.Bounded)
      (hk : ev.Sited E.pool.tables) : Reachable (E.exec ev).1
  /-- A page is flushed or restored, for an ending that has more pages to visit. -/
  | visit {E : Engine ρ} {e : Ending} {p : PageId} {Q : Pool ρ} (h : Reachable E)
      (hv : E.pool.settle e p = .ok Q) : Reachable { E with pool := Q }
  /-- A table becomes known that has a file of its own. -/
  | register {E : Engine ρ} {f : TableFile} (h : Reachable E)
      (hnew : E.pool.tables.get? f.table = none)
      (hown : ∀ t g, E.pool.tables.get? t = some g → g.file ≠ f.file)
      (hw : f.Whole E.pool.disk) : Reachable { E with pool := E.pool.register f }
  /-- Files change that belong to no table. -/
  | elsewhere {E : Engine ρ} {d : Disk} (h : Reachable E)
      (hd : ∀ t f, E.pool.tables.get? t = some f → d.image f.file = E.pool.disk.image f.file) :
      Reachable { E with pool := { E.pool with disk := d } }

/-- Copies and images go together, and every call that may let a table grow keeps to the table's
    file. -/
structure Sited (E : Engine ρ) : Prop where
  coherent : E.pool.Coherent
  fits : ∀ c call, E.calls.get? c = some call → call.task.isScan = false →
    call.task.Fits E.pool.tables

omit [EvictionOrder ρ] in
/-- A pool that has the same images of its tables is as coherent. -/
theorem Sited.congr {E : Engine ρ} (hs : E.Sited) {P : Pool ρ} (hc : P.Coherent)
    (ht : ∀ t f, E.pool.tables.get? t = some f → P.tables.get? t = some f) :
    Sited { E with pool := P } where
  coherent := hc
  fits c call h hscan f hf := ht _ f (hs.fits c call h hscan f hf)

section Sited

variable {E : Engine ρ} (hs : E.Sited)

include hs

/-- Every event keeps an engine so. -/
theorem sited_exec (hb : E.pool.Bounded) {ev : Event} (hk : ev.Sited E.pool.tables) :
    (E.exec ev).1.Sited := by
  cases ev with
  | submit t task =>
      refine ⟨hs.coherent, fun c call h => ?_⟩
      rcases get?_submit h with ⟨_, rfl⟩ | hold
      · exact hk
      · exact hs.fits c call hold
  | step c =>
      rcases coherent_step hs.coherent hb (hs.fits c) with ⟨hc, _, ht⟩
      refine ⟨hc, fun c' call' h hscan => ?_⟩
      simp only [exec, ht]
      rcases calls_step h with hold | ⟨_, call, locks, hrule, _, hrun⟩
      · exact hs.fits c' call' hold hscan
      · -- Only a call that moves a cursor goes on to move one, so the call had its file before.
        cases hscan' : call.task.isScan with
        | true =>
            rw [Task.run_scan hscan' hrun] at hscan
            cases hscan
        | false =>
            have hfits := hs.fits c call (get?_of_ruling hrule) hscan'
            exact Task.run_fits (P := (E.setLocks locks).pool) (hs.coherent.setLocks locks)
              hfits hrun
  | act a =>
      rcases Pool.act_coherent hs.coherent hb a with ⟨hc, ht, _⟩
      exact hs.congr hc fun t f hf => ht ▸ hf

omit [EvictionOrder ρ] in
/-- So does a page that is flushed or restored. -/
theorem sited_visit {e : Ending} {p : PageId} {Q : Pool ρ} (hv : E.pool.settle e p = .ok Q) :
    Sited { E with pool := Q } := by
  cases e with
  | commit =>
      have hv' : E.pool.flush p = .ok Q := hv
      rcases Pool.flush_cases hs.coherent p with ⟨R, heq, hf, _⟩ | ⟨fault, heq, _⟩
      · rw [hv'] at heq
        cases heq
        exact hs.congr hf.coherent fun t f h => hf.tables ▸ h
      · rw [hv'] at heq
        cases heq
  | rollback =>
      have hv' : E.pool.restore p = .ok Q := hv
      rcases Pool.restore_cases hs.coherent p with ⟨R, heq, hr, _⟩ | ⟨e, heq, _⟩
      · rw [hv'] at heq
        cases heq
        exact hs.congr hr.coherent fun t f h => hr.tables ▸ h
      · rw [hv'] at heq
        cases heq

omit [EvictionOrder ρ] in
/-- So does a table that becomes known: no page of it was resident. -/
theorem sited_register {f : TableFile} (hnew : E.pool.tables.get? f.table = none)
    (hown : ∀ t g, E.pool.tables.get? t = some g → g.file ≠ f.file)
    (hw : f.Whole E.pool.disk) : Sited { E with pool := E.pool.register f } := by
  have hold : ∀ t g, E.pool.tables.get? t = some g →
      (E.pool.register f).tables.get? t = some g := by
    intro t g hg
    have hne : t ≠ f.table := by
      rintro rfl
      rw [hnew] at hg
      cases hg
    exact (Assoc.get?_insert_other _ _ hne).trans hg
  have hget : ∀ t g, (E.pool.register f).tables.get? t = some g →
      t = f.table ∧ g = f ∨ E.pool.tables.get? t = some g := by
    intro t g hg
    simp only [Pool.register, Assoc.get?_insert] at hg
    split at hg
    · rename_i ht
      exact Or.inl ⟨ht, (Option.some.inj hg).symm⟩
    · exact Or.inr hg
  have hl := hs.coherent.laid
  refine hs.congr ⟨⟨?_, ?_, ?_⟩, hs.coherent.tidy, fun p page hp => ?_⟩ hold
  · intro t g hg
    rcases hget t g hg with ⟨rfl, rfl⟩ | hg
    · rfl
    · exact hl.keyed t g hg
  · intro t g hg u k hk hfile
    rcases hget t g hg with ⟨rfl, rfl⟩ | hg'
    · rcases hget u k hk with ⟨rfl, rfl⟩ | hk'
      · rfl
      · exact absurd hfile.symm (hown u k hk')
    · rcases hget u k hk with ⟨rfl, rfl⟩ | hk'
      · exact absurd hfile (hown t g hg')
      · exact hl.apart t g hg' u k hk' hfile
  · intro t g hg
    rcases hget t g hg with ⟨rfl, rfl⟩ | hg
    · exact hw
    · exact hl.whole t g hg
  · -- The page is one of a table that was known, and its image is where it was.
    have hm := hs.coherent.copies p page hp
    rcases hm.here with ⟨g, hg, hn⟩
    have hst : (E.pool.register f).stored page.id = E.pool.stored page.id := by
      rw [Pool.stored_of_table hg, Pool.stored_of_table (hold _ g hg)]
      rfl
    exact ⟨⟨g, hold _ g hg, hn⟩, by rw [hst]; exact hm.size, by rw [hst]; exact hm.clean⟩

omit [EvictionOrder ρ] in
/-- So does a change to files that belong to no table. -/
theorem sited_elsewhere {d : Disk}
    (hd : ∀ t f, E.pool.tables.get? t = some f → d.image f.file = E.pool.disk.image f.file) :
    Sited { E with pool := { E.pool with disk := d } } := by
  have hl := hs.coherent.laid
  refine hs.congr ⟨⟨hl.keyed, hl.apart, fun t f hf => ?_⟩, hs.coherent.tidy,
    fun p page hp => ?_⟩ fun _ _ => id
  · exact (f.whole_congr (hd t f hf)).2 (hl.whole t f hf)
  · have hm := hs.coherent.copies p page hp
    rcases hm.here with ⟨f, hf, hn⟩
    have hst : Pool.stored { E.pool with disk := d } page.id = E.pool.stored page.id := by
      rw [Pool.stored_of_table hf, Pool.stored_of_table (P := { E.pool with disk := d }) hf]
      exact f.imageOn_congr (hd _ f hf) _
    refine ⟨⟨f, hf, (f.pagesOn_congr (hd _ f hf)).symm ▸ hn⟩, ?_, ?_⟩
    · rw [hst]
      exact hm.size
    · rw [hst]
      exact hm.clean

end Sited

theorem Reachable.sited {E : Engine ρ} (h : E.Reachable) : E.Sited := by
  induction h with
  | fresh h => exact ⟨h.sane.coherent, fun c call hc _ => h.sane.fits c call hc⟩
  | exec h hb hk ih => exact sited_exec ih hb hk
  | visit h hv ih => exact sited_visit ih hv
  | register h hnew hown hw ih => exact sited_register ih hnew hown hw
  | elsewhere h hd ih => exact sited_elsewhere ih hd

/-- Copies and images go together in every state that can be come to. -/
theorem Reachable.coherent {E : Engine ρ} (h : E.Reachable) : E.pool.Coherent := h.sited.coherent

/-- A run leads from one such state to another. -/
theorem Reachable.run {E : Engine ρ} (h : E.Reachable) {evs : List Event}
    (hg : E.Goes (fun E ev => ev.Fits E.pool.tables) evs) : (E.run evs).Reachable := by
  induction evs generalizing E with
  | nil => exact h
  | cons ev rest ih => exact ih (.exec h hg.1 hg.2.1.sited) hg.2.2

/-- In every state that can be come to, a resident page is a copy of the page under whose id it is
    resident, and as long as the pages of its table's file. If it is clean, it is byte for byte what
    would be read from the file. -/
theorem clean_copy_reads_back {E : Engine ρ} (h : E.Reachable) (hb : E.pool.Bounded) {p : PageId}
    {page : Page} (hp : E.pool.cache.page? p = some page) :
    page.id = p ∧ ∃ f, E.pool.tables.get? p.table = some f ∧
      page.bytes.size = f.layout.pageSize ∧
      (page.dirtiedBy = none → f.read E.pool.disk p = .ok page) := by
  rcases h.coherent.mirrors hp with ⟨rfl, hm⟩
  rcases hm.here with ⟨f, hf, hn⟩
  have hst := Pool.stored_of_table hf
  refine ⟨rfl, f, hf, ?_, fun hclean => ?_⟩
  · rw [hm.size, hst, TableFile.size_imageOn]
  · -- The page is below the count, because its table can be counted.
    rw [f.read_ok_iff, hb.pageCount_eq hf]
    refine ⟨(h.coherent.laid.keyed _ f hf).symm, hn, ?_⟩
    obtain ⟨id, bytes, owner⟩ := page
    cases hclean
    rw [← hst, ← hm.clean rfl]

/-- A page is fetched, written and discarded, and fetched and written again. The transaction
    commits, and the handle that was left on the discarded copy is of no use any more. -/
def twoHandles : List Event :=
  [.submit ⟨1⟩ (.fetch ⟨⟨1⟩, 0⟩ .readWrite true), .step ⟨0⟩, .act (.write ⟨0⟩ (.fill 5)),
    .act (.discard ⟨⟨1⟩, 0⟩), .submit ⟨1⟩ (.fetch ⟨⟨1⟩, 0⟩ .readWrite true), .step ⟨1⟩,
    .act (.write ⟨1⟩ (.fill 7)), .act (.write ⟨0⟩ (.fill 9)), .act (.finish ⟨1⟩ .commit),
    .act (.write ⟨0⟩ (.fill 9)), .act (.grow ⟨1⟩)]

/-- What is resident after it is the copy that was fetched last, clean, and what the file has. -/
theorem clean_copy_reads_back_twoHandles :
    ((tiny 1 ({} : Recency)).run twoHandles).pool.cache.page? ⟨⟨1⟩, 0⟩ =
      some ⟨⟨⟨1⟩, 0⟩, #[7, 7], none⟩ ∧
    TableFile.tiny.read ((tiny 1 ({} : Recency)).run twoHandles).pool.disk ⟨⟨1⟩, 0⟩ =
      .ok ⟨⟨⟨1⟩, 0⟩, #[7, 7], none⟩ := by
  have hgoes : (tiny 1 ({} : Recency)).Goes (fun E ev => ev.Fits E.pool.tables) twoHandles := by
    decide +kernel
  have hreach := (Reachable.fresh (fresh_tiny 1 ({} : Recency))).run hgoes
  have hb : ((tiny 1 ({} : Recency)).run twoHandles).pool.Bounded := by decide +kernel
  have hp : ((tiny 1 ({} : Recency)).run twoHandles).pool.cache.page? ⟨⟨1⟩, 0⟩ =
      some ⟨⟨⟨1⟩, 0⟩, #[7, 7], none⟩ := by decide +kernel
  have hf : ((tiny 1 ({} : Recency)).run twoHandles).pool.tables.get? ⟨1⟩ =
      some TableFile.tiny := by decide +kernel
  refine ⟨hp, ?_⟩
  rcases clean_copy_reads_back hreach hb hp with ⟨_, f, hf', _, hread⟩
  cases hf.symm.trans hf'
  exact hread rfl

end Engine

end RowStore
