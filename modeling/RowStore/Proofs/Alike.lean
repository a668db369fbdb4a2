import RowStore.Proofs.Work
import RowStore.Proofs.Endings

/-!
# Pools That Look Alike

Two pools over the same files can have different pages in memory, and the same pages
in different frames. What is shown of every page, what is stored of it, and whose
changes a dirty copy has, tells nothing of that. If two pools have all this in
common, and the locks, then whatever is done to both has the same result and leaves
them alike.

There are two exceptions. Only one of the two may have room for a page. And a round
over the pages in memory visits more of them in one pool than in the other, in another
order. What it visits in one only is clean there, so it makes no difference unless the
round fails on its way.

## Main definitions

* `Handle.face`: What a handle stands for, whatever frame it is on.
* `Pool.Settled`: Every handle is on a resident copy that could be loaded again.
* `Pool.Alike`: Nobody can tell two pools apart.

## Theorems

* `Alike.contents_eq`: All files have the same contents.
* `Alike.quiet`, `Alike.flushed`, `Alike.restored`: What cannot be seen leaves two pools alike, and
  so do flushing and restoring the same dirty pages.
* `Alike.fetch`: A page is fetched in both or refused in both, as long as there is room.
* `Alike.alter`, `Alike.finish`, `Alike.append`: Writing, ending and appending have the same
  results.
* `Alike.forEach_flush`: So has a round over the pages in memory, if it is not refused.
-/

namespace RowStore

/-- What a handle stands for, whatever frame it is on. -/
def Handle.face (h : Handle) : PageId × TxnId × Access := (h.page, h.txn, h.access)

namespace Pool

variable {ρ σ : Type}

/-- Copies and images go together, every handle is on the resident copy of its page, and every
    resident page could be loaded again. -/
structure Settled (P : Pool ρ) : Prop where
  coherent : P.Coherent
  pinned : P.Pinned
  readable : P.Readable

/-- Nobody can tell two pools apart: they differ at most in which pages are resident, and where. -/
structure Alike (P : Pool ρ) (Q : Pool σ) : Prop where
  left : P.Settled
  right : Q.Settled
  tables : Q.tables = P.tables
  locks : Q.locks = P.locks
  ids : Q.ids = P.ids
  faults : Q.faults = P.faults
  limit : Q.disk.limit = P.disk.limit
  sizes : ∀ t f, P.tables.get? t = some f →
    (Q.disk.image f.file).size = (P.disk.image f.file).size
  others : ∀ n, (∀ t f, P.tables.get? t = some f → f.file ≠ n) →
    Q.disk.image n = P.disk.image n
  stored : Q.stored = P.stored
  shown : Q.shown = P.shown
  owner : Q.owner? = P.owner?
  handles : ∀ n, (Q.cache.handles.get? n).map Handle.face =
    (P.cache.handles.get? n).map Handle.face
  nextHandle : Q.cache.nextHandle = P.cache.nextHandle

/-- A byte of a table's file is one of a page. -/
theorem byte_of_imageOn (f : TableFile) (d : Disk) (i : Nat) :
    some ((d.image f.file).byte i) =
      (f.imageOn d (i / f.layout.pageSize))[i % f.layout.pageSize]? := by
  unfold TableFile.imageOn
  rw [FileImage.getElem?_read, if_pos (Nat.mod_lt _ f.layout.pageSize_pos), Nat.mul_comm,
    Nat.div_add_mod]

/-- A page that can be had without a change that shows can be loaded. -/
theorem Settled.loadImage_of_quiet {P P' : Pool ρ} (h : P.Settled) (hb : P.Bounded)
    (hq : Quiet P P') (hc : P'.Coherent) {p : PageId} {f : FrameNo}
    (hr : P'.cache.resident.get? p = some f) : P.loadImage p = .ok ⟨p, P.stored p, none⟩ := by
  have hread := hq.readable h.readable p (by simp [hr])
  rw [hq.faults] at hread
  rcases hc.tidy.exists_page hr with ⟨page, hp, _, hid⟩
  -- Being resident afterwards, it is a page of a table, and the table is as before.
  have hhere := (hc.copies p page hp).here.congr hq.tables.symm hq.disk.symm
  rw [hid] at hhere
  exact loadImage_of_has h.coherent.laid hb hhere hread

section Alike

variable {P : Pool ρ} {Q : Pool σ} (h : P.Alike Q)

include h

/-! ## What two pools that are alike have in common -/

theorem Alike.pagesOn_eq {t : TableId} {f : TableFile} (hf : P.tables.get? t = some f) :
    f.pagesOn Q.disk = f.pagesOn P.disk := by
  unfold TableFile.pagesOn
  rw [h.sizes t f hf]

theorem Alike.imageOn_eq {t : TableId} {f : TableFile} (hf : P.tables.get? t = some f) (n : Nat) :
    f.imageOn Q.disk n = f.imageOn P.disk n := by
  have hf' : Q.tables.get? t = some f := h.tables ▸ hf
  -- What is stored is read through the tables, so the file is found again by its table.
  have hst := congrFun h.stored ⟨t, n⟩
  rw [stored_of_table hf', stored_of_table hf] at hst
  exact hst

theorem Alike.pageCount_eq {t : TableId} {f : TableFile} (hf : P.tables.get? t = some f) :
    f.pageCount Q.disk = f.pageCount P.disk := by
  rw [TableFile.pageCount_eq, TableFile.pageCount_eq, h.pagesOn_eq hf]

theorem Alike.bounded (hb : P.Bounded) : Q.Bounded := by
  intro t f hf
  rw [h.tables] at hf
  rw [h.pagesOn_eq hf]
  exact hb t f hf

theorem Alike.table_eq (t : TableId) : Q.table t = P.table t := by
  unfold table
  rw [h.tables]

theorem Alike.isDirty_eq (p : PageId) : Q.cache.isDirty p = P.cache.isDirty p := by
  rw [Pool.isDirty_eq, Pool.isDirty_eq, h.owner]

/-- All files have the same contents. -/
theorem Alike.contents_eq (n : FileNo) :
    (Q.disk.image n).contents = (P.disk.image n).contents := by
  -- A table's file is made of pages; of any other file the image itself is the same.
  by_cases hn : ∃ t f, P.tables.get? t = some f ∧ f.file = n
  · rcases hn with ⟨t, f, hf, rfl⟩
    refine FileImage.contents_congr _ _ (h.sizes t f hf) fun i _ => ?_
    apply Option.some.inj
    rw [byte_of_imageOn, byte_of_imageOn, h.imageOn_eq hf]
  · rw [h.others n fun t f hf hfn => hn ⟨t, f, hf, hfn⟩]

theorem Alike.checkWrite_eq {a b : Handle} (hab : b.face = a.face) :
    Q.checkWrite b = P.checkWrite a := by
  simp only [Handle.face, Prod.mk.injEq] at hab
  unfold checkWrite
  rw [hab.1, hab.2.1, hab.2.2, h.locks]

theorem Alike.bytesOf_eq {a b : Handle} (ha : P.cache.resident.get? a.page = some a.frame)
    (hb : Q.cache.resident.get? b.page = some b.frame) (hab : b.page = a.page) :
    Q.bytesOf b = P.bytesOf a := by
  rw [h.left.coherent.bytesOf_eq ha, h.right.coherent.bytesOf_eq hb, h.shown, hab]

/-- A page can be loaded in both or in neither. -/
theorem Alike.loadImage_eq (p : PageId) : Q.loadImage p = P.loadImage p := by
  unfold loadImage
  rw [h.table_eq, h.faults]
  unfold table
  cases hf : P.tables.get? p.table with
  | none => rfl
  | some f =>
      have hcount : f.pages.count Q.disk = f.pages.count P.disk := by
        rw [TableFile.count_eq, TableFile.count_eq, h.pageCount_eq hf]
      have himage : (Q.disk.image f.pages.file).read (f.pages.offset p.number) f.pages.pageSize =
          (P.disk.image f.pages.file).read (f.pages.offset p.number) f.pages.pageSize :=
        h.imageOn_eq hf p.number
      have hread : f.read Q.disk p = f.read P.disk p := by
        unfold TableFile.read PageFile.read
        rw [hcount, himage]
      simp only [bind, Except.bind, hread]

/-! ## Changes that can be seen and that cannot -/

/-- Two pools are alike after changes to their caches, and to bytes inside the tables' files, if
    what can be seen is the same. -/
theorem Alike.of_keeps {P' : Pool ρ} {Q' : Pool σ} (hP : Keeps P P') (hQ : Keeps Q Q')
    (hl : P'.Settled) (hr : Q'.Settled) (hstored : Q'.stored = P'.stored)
    (hshown : Q'.shown = P'.shown) (howner : Q'.owner? = P'.owner?) : P'.Alike Q' where
  left := hl
  right := hr
  tables := by rw [hQ.tables, hP.tables, h.tables]
  locks := by rw [hQ.locks, hP.locks, h.locks]
  ids := by rw [hQ.ids, hP.ids, h.ids]
  faults := by rw [hQ.faults, hP.faults, h.faults]
  limit := by rw [hQ.limit, hP.limit, h.limit]
  sizes t f hf := by
    rw [hP.tables] at hf
    rw [hQ.sizes t f (h.tables ▸ hf), hP.sizes t f hf, h.sizes t f hf]
  others n hn := by
    rw [hP.tables] at hn
    rw [hQ.others n (h.tables ▸ hn), hP.others n hn, h.others n hn]
  stored := hstored
  shown := hshown
  owner := howner
  handles n := by rw [hQ.handles, hP.handles, h.handles]
  nextHandle := by rw [hQ.nextHandle, hP.nextHandle, h.nextHandle]

theorem Alike.quiet {P' : Pool ρ} {Q' : Pool σ} (hP : Quiet P P') (hcP : P'.Coherent)
    (hQ : Quiet Q Q') (hcQ : Q'.Coherent) : P'.Alike Q' := by
  refine h.of_keeps hP.toKeeps hQ.toKeeps ?_ ?_ ?_ ?_ ?_
  · exact ⟨hcP, hP.pinned h.left.pinned, hP.readable h.left.readable⟩
  · exact ⟨hcQ, hQ.pinned h.right.pinned, hQ.readable h.right.readable⟩
  · rw [hQ.stored, hP.stored, h.stored]
  · rw [hQ.shown, hP.shown, h.shown]
  · rw [hQ.owner, hP.owner, h.owner]

/-- The same dirty pages were flushed in both. -/
theorem Alike.flushed {P' : Pool ρ} {Q' : Pool σ} {l l' : List PageId} (hP : Flushed P P' l)
    (hQ : Flushed Q Q' l') (hl : ∀ p, P.owner? p ≠ none → (p ∈ l ↔ p ∈ l')) : P'.Alike Q' := by
  refine h.of_keeps hP.toKeeps hQ.toKeeps ?_ ?_ ?_ ?_ ?_
  · exact ⟨hP.coherent, hP.pinned h.left.pinned, hP.readable h.left.readable⟩
  · exact ⟨hQ.coherent, hQ.pinned h.right.pinned, hQ.readable h.right.readable⟩
  · funext p
    rw [hQ.stored, hP.stored, h.stored, h.shown]
    -- A clean page is stored as it is shown, so it does not matter whether it was flushed.
    by_cases ho : P.owner? p = none
    · rw [h.left.coherent.shown_clean ho, ite_self, ite_self]
    · simp only [hl p ho]
  · rw [hQ.shown, hP.shown, h.shown]
  · funext p
    rw [hQ.owner, hP.owner, h.owner]
    -- Nor does flushing make a clean page cleaner.
    by_cases ho : P.owner? p = none
    · rw [ho, ite_self, ite_self]
    · simp only [hl p ho]

/-- The same pages were restored in both. -/
theorem Alike.restored {P' : Pool ρ} {Q' : Pool σ} {l : List PageId} (hP : Restored P P' l)
    (hpinP : P'.Pinned) (hQ : Restored Q Q' l) (hpinQ : Q'.Pinned) : P'.Alike Q' := by
  refine h.of_keeps hP.toKeeps hQ.toKeeps ?_ ?_ ?_ ?_ ?_
  · exact ⟨hP.coherent, hpinP, hP.readable h.left.readable⟩
  · exact ⟨hQ.coherent, hpinQ, hQ.readable h.right.readable⟩
  · rw [hQ.stored, hP.stored, h.stored]
  · funext p
    rw [hQ.shown, hP.shown, h.shown, h.stored]
  · funext p
    rw [hQ.owner, hP.owner, h.owner]

theorem Alike.setLocks (locks : LockTable) : (P.setLocks locks).Alike (Q.setLocks locks) :=
  { h with
    left := ⟨h.left.coherent.setLocks locks, h.left.pinned, h.left.readable⟩
    right := ⟨h.right.coherent.setLocks locks, h.right.pinned, h.right.readable⟩
    locks := rfl
    stored := h.stored
    shown := h.shown }

/-- The table of both has grown by a page. -/
theorem Alike.grown {t : TableId} {f : TableFile} (hf : P.tables.get? t = some f) :
    Alike { P with disk := f.grown P.disk } { Q with disk := f.grown Q.disk } := by
  have hf' : Q.tables.get? t = some f := h.tables ▸ hf
  have hP := performs_grown h.left.coherent hf ⟨0⟩
  have hQ := performs_grown h.right.coherent hf' ⟨0⟩
  refine
    { h with
      left := ⟨hP.coherent, h.left.pinned, h.left.readable⟩
      right := ⟨hQ.coherent, h.right.pinned, h.right.readable⟩
      sizes := ?_
      others := ?_
      stored := ?_
      shown := ?_ }
  · intro u g hg
    by_cases hu : u = t
    · subst hu
      rw [Option.some.inj (hg.symm.trans hf)]
      simp only [TableFile.grown, Disk.image_put_self, FileImage.size_resize, h.pagesOn_eq hf]
    · -- Two tables do not share a file, so the other files keep their lengths.
      have hPg := image_put_of_ne h.left.coherent.laid hf
        ((P.disk.image f.file).resize ((f.pagesOn P.disk + 1) * f.layout.pageSize)) hg hu
      have hQg := image_put_of_ne h.right.coherent.laid hf'
        ((Q.disk.image f.file).resize ((f.pagesOn Q.disk + 1) * f.layout.pageSize))
        (h.tables ▸ hg) hu
      simp only [TableFile.grown, hPg, hQg, h.sizes u g hg]
  · intro n hn
    have hne : n ≠ f.file := fun he => hn t f hf he.symm
    simp only [TableFile.grown, Disk.image_put_other _ _ hne]
    exact h.others n hn
  · rw [hQ.stored, hP.stored, h.stored]
  · rw [hQ.shown, hP.shown]
    exact h.shown

/-! ## Fetching -/

theorem Alike.fetch [EvictionOrder ρ] [EvictionOrder σ] (hb : P.Bounded) (p : PageId) :
    (∃ P' Q' f g, P.fetch p = (P', .ok f) ∧ Q.fetch p = (Q', .ok g) ∧ P'.Alike Q' ∧
      P'.cache.resident.get? p = some f ∧ Q'.cache.resident.get? p = some g) ∨
    (∃ P' Q' e, P.fetch p = (P', .error e) ∧ Q.fetch p = (Q', .error e) ∧ P'.Alike Q') ∨
    (∃ n, (P.fetch p).2 = .error (.noEvictableFrame n)) ∨
    ∃ n, (Q.fetch p).2 = .error (.noEvictableFrame n) := by
  rcases P.fetch_cases h.left.coherent p with ⟨P', hqP, hcP, ⟨f, heP, hrP⟩ | heP | ⟨e, heP, _, hlP⟩⟩
  · rcases Q.fetch_cases h.right.coherent p with
      ⟨Q', hqQ, hcQ, ⟨g, heQ, hrQ⟩ | heQ | ⟨e, _, _, hlQ⟩⟩
    · exact Or.inl ⟨P', Q', f, g, heP, heQ, h.quiet hqP hcP hqQ hcQ, hrP, hrQ⟩
    · exact Or.inr (Or.inr (Or.inr ⟨_, congrArg Prod.snd heQ⟩))
    · -- What one pool could have, the other could load.
      rw [h.loadImage_eq, h.left.loadImage_of_quiet hb hqP hcP hrP] at hlQ
      cases hlQ
  · exact Or.inr (Or.inr (Or.inl ⟨_, congrArg Prod.snd heP⟩))
  · rcases Q.fetch_cases h.right.coherent p with
      ⟨Q', hqQ, hcQ, ⟨g, heQ, hrQ⟩ | heQ | ⟨e', heQ, _, hlQ⟩⟩
    · rw [← h.loadImage_eq, h.right.loadImage_of_quiet (h.bounded hb) hqQ hcQ hrQ] at hlP
      cases hlP
    · exact Or.inr (Or.inr (Or.inr ⟨_, congrArg Prod.snd heQ⟩))
    · rw [h.loadImage_eq, hlP] at hlQ
      cases hlQ
      exact Or.inr (Or.inl ⟨P', Q', e, heP, heQ, h.quiet hqP hcP hqQ hcQ⟩)

/-! ## Handles -/

section handles

variable {a b : Handle} (ha : P.cache.resident.get? a.page = some a.frame)
  (hb : Q.cache.resident.get? b.page = some b.frame) (hab : b.face = a.face)

include ha hb hab

theorem Alike.pin : (P.cache.pin a).1 = (Q.cache.pin b).1 ∧
    Alike { P with cache := (P.cache.pin a).2 } { Q with cache := (Q.cache.pin b).2 } := by
  have hP := Task.performs_pin h.left.coherent ha ⟨0⟩
  have hQ := Task.performs_pin h.right.coherent hb ⟨0⟩
  refine ⟨congrArg HandleNo.mk h.nextHandle.symm, ?_⟩
  refine
    { h with
      left := ⟨hP.coherent, hP.pinned h.left.pinned, hP.readable h.left.readable⟩
      right := ⟨hQ.coherent, hQ.pinned h.right.pinned, hQ.readable h.right.readable⟩
      stored := h.stored
      shown := h.shown
      owner := h.owner
      handles := fun n => ?_
      nextHandle := congrArg Nat.succ h.nextHandle }
  -- Both number their handles alike, so the new handle has one number in both.
  simp only [Cache.pin, Assoc.get?_insert, h.nextHandle]
  split
  · exact congrArg some hab
  · exact h.handles n

theorem Alike.marked (hw : P.checkWrite a = .ok ()) : (P.marked a).Alike (Q.marked b) := by
  have hgP := grasps_of_resident h.left.coherent ha
  have hgQ := grasps_of_resident h.right.coherent hb
  have hP := spares_marked h.left.coherent hgP hw
  have hQ := spares_marked h.right.coherent hgQ ((h.checkWrite_eq hab).trans hw)
  have howner : (Q.marked b).owner? = (P.marked a).owner? := by
    -- The new owner is the handle's transaction, which is the same for both handles.
    have hpage : b.page = a.page := congrArg Prod.fst hab
    have htxn : b.txn = a.txn := congrArg (fun face => face.2.1) hab
    funext q
    rw [owner?_marked hgQ h.right.coherent.tidy, owner?_marked hgP h.left.coherent.tidy, h.owner,
      hb, ha, hpage, htxn]
    simp only [and_true]
  refine h.of_keeps (keeps_updateFrame _ _) (keeps_updateFrame _ _) ?_ ?_ ?_ ?_ howner
  · exact ⟨hP.coherent, hP.pinned h.left.pinned, hP.readable h.left.readable⟩
  · exact ⟨hQ.coherent, hQ.pinned h.right.pinned, hQ.readable h.right.readable⟩
  · exact (hQ.stored.trans h.stored).trans hP.stored.symm
  · exact ((shown_marked hgQ h.right.coherent.tidy).trans h.shown).trans
      (shown_marked hgP h.left.coherent.tidy).symm

theorem Alike.written (hw : P.checkWrite a = .ok ()) {bytes : Bytes}
    (hs : bytes.size = (P.bytesOf a).size) : (P.written a bytes).Alike (Q.written b bytes) := by
  have hgP := grasps_of_resident h.left.coherent ha
  have hgQ := grasps_of_resident h.right.coherent hb
  have hm := h.marked ha hb hab hw
  have hpage : b.page = a.page := congrArg Prod.fst hab
  have hP := performs_written h.left.coherent ha hw hs
  have hQ := performs_written h.right.coherent hb ((h.checkWrite_eq hab).trans hw)
    (hs.trans (congrArg Array.size (h.bytesOf_eq ha hb hpage).symm))
  have howner : (Q.written b bytes).owner? = (P.written a bytes).owner? := by
    unfold Pool.written
    rw [owner?_setBytes (grasps_marked hgQ) hm.right.coherent.tidy,
      owner?_setBytes (grasps_marked hgP) hm.left.coherent.tidy, hm.owner]
  refine hm.of_keeps (keeps_updateFrame _ _) (keeps_updateFrame _ _) ?_ ?_ ?_ ?_ howner
  · exact ⟨hP.coherent, hP.pinned h.left.pinned, hP.readable h.left.readable⟩
  · exact ⟨hQ.coherent, hQ.pinned h.right.pinned, hQ.readable h.right.readable⟩
  · exact (hQ.stored.trans h.stored).trans hP.stored.symm
  · -- Both show the new bytes on one page, and elsewhere what they showed.
    refine (hQ.shown.trans ?_).trans hP.shown.symm
    rw [h.shown, hpage]

/-- A write by a handle that stands for the same in both. -/
theorem Alike.alter {α : Type} (work : Bytes → Except StoreError (α × Bytes))
    (hsize : ∀ b a b', work b = .ok (a, b') → b'.size = b.size) :
    (P.alter a work).2 = (Q.alter b work).2 ∧ (P.alter a work).1.Alike (Q.alter b work).1 := by
  have hgP := grasps_of_resident h.left.coherent ha
  have hgQ := grasps_of_resident h.right.coherent hb
  unfold Pool.alter
  rw [openWrite_eq, openWrite_eq, h.checkWrite_eq hab]
  -- The check reads nothing but what the handles stand for, so it goes one way in both.
  cases hw : P.checkWrite a with
  | error e => exact ⟨rfl, h⟩
  | ok u =>
      have hm := h.marked ha hb hab hw
      simp only [Except.map, bytesOf_marked hgP, bytesOf_marked hgQ,
        h.bytesOf_eq ha hb (congrArg Prod.fst hab)]
      cases hwork : work (P.bytesOf a) with
      | error e => exact ⟨rfl, hm⟩
      | ok r => exact ⟨rfl, h.written ha hb hab hw (hsize _ _ _ hwork)⟩

end handles

theorem Alike.unpin (n : HandleNo) :
    Alike { P with cache := P.cache.unpin n } { Q with cache := Q.cache.unpin n } := by
  -- The same is done to both, so the invariant is kept in one place for two pools.
  have hsettled : ∀ {τ : Type} {R : Pool τ}, R.Settled →
      Settled { R with cache := R.cache.unpin n } := by
    intro τ R hR
    refine ⟨hR.coherent.of_cache (Cache.tidy_unpin hR.coherent.tidy n) hR.coherent.copies, ?_,
      hR.readable⟩
    intro m hd hm
    simp only [Cache.unpin, Assoc.get?_erase] at hm
    split at hm
    · cases hm
    · exact hR.pinned m hd hm
  refine
    { h with
      left := hsettled h.left
      right := hsettled h.right
      stored := h.stored
      shown := h.shown
      owner := h.owner
      handles := fun m => ?_ }
  simp only [Cache.unpin, Assoc.get?_erase]
  split
  · rfl
  · exact h.handles m

theorem Alike.nextTxn : P.nextTxn.1 = Q.nextTxn.1 ∧ P.nextTxn.2.Alike Q.nextTxn.2 := by
  refine ⟨by simp only [Pool.nextTxn, h.ids], ?_⟩
  exact
    { h with
      left := ⟨h.left.coherent.congr rfl rfl rfl, h.left.pinned, h.left.readable⟩
      right := ⟨h.right.coherent.congr rfl rfl rfl, h.right.pinned, h.right.readable⟩
      ids := by simp only [Pool.nextTxn, h.ids]
      stored := h.stored
      shown := h.shown
      owner := h.owner }

/-- A kept handle is there in both or in neither, and stands for the same. -/
theorem Alike.handle_cases (n : HandleNo) :
    (P.cache.handles.get? n = none ∧ Q.cache.handles.get? n = none) ∨
    ∃ a b, P.cache.handles.get? n = some a ∧ Q.cache.handles.get? n = some b ∧ b.face = a.face := by
  have hn := h.handles n
  cases ha : P.cache.handles.get? n with
  | none =>
      rw [ha, Option.map_none, Option.map_eq_none_iff] at hn
      exact Or.inl ⟨rfl, hn⟩
  | some a =>
      rw [ha] at hn
      rcases Option.map_eq_some_iff.1 hn with ⟨b, hb, hab⟩
      exact Or.inr ⟨a, b, rfl, hb, hab⟩

/-- A table grows in both, or in neither. -/
theorem Alike.append {t : TableId} {f : TableFile} (hf : P.tables.get? t = some f)
    (hb : P.Bounded) :
    (∃ e, f.append P.disk = .error e ∧ f.append Q.disk = .error e) ∨
    ∃ p, f.append P.disk = .ok (p, f.grown P.disk) ∧ f.append Q.disk = .ok (p, f.grown Q.disk) := by
  have hlt : f.pagesOn P.disk < UInt32.size := Nat.lt_of_lt_of_le (hb t f hf) (Nat.sub_le _ _)
  have hlt' : f.pagesOn Q.disk < UInt32.size := by
    rw [h.pagesOn_eq hf]
    exact hlt
  -- Whether there is space for one page more depends on the length of the file alone.
  rw [f.append_eq hlt, f.append_eq hlt', h.pagesOn_eq hf, h.limit]
  split
  · exact Or.inr ⟨_, rfl, rfl⟩
  · exact Or.inl ⟨_, rfl, rfl⟩

end Alike

/-! ## Rounds and endings -/

/-- What has the same result for a page of both pools, and leaves them related, has so for a list of
    pages. -/
theorem forEach_related {R : Pool ρ → Pool σ → Prop}
    {actP : Pool ρ → PageId → Except StoreError (Pool ρ)}
    {actQ : Pool σ → PageId → Except StoreError (Pool σ)}
    (hact : ∀ P Q p, R P Q → (∃ P' Q', actP P p = .ok P' ∧ actQ Q p = .ok Q' ∧ R P' Q') ∨
      ∃ e, actP P p = .error e ∧ actQ Q p = .error e) (l : List PageId) {P : Pool ρ} {Q : Pool σ}
    (h : R P Q) : (P.forEach actP l).2 = (Q.forEach actQ l).2 ∧
      R (P.forEach actP l).1 (Q.forEach actQ l).1 := by
  -- The round goes on only while both succeed, so the relation holds again at every page.
  induction l generalizing P Q with
  | nil => exact ⟨rfl, h⟩
  | cons p rest ih =>
      unfold forEach
      rcases hact P Q p h with ⟨P', Q', hP, hQ, h'⟩ | ⟨e, hP, hQ⟩
      · rw [hP, hQ]
        exact ih h'
      · rw [hP, hQ]
        exact ⟨rfl, h⟩

/-- A round of flushes succeeds if the device does not refuse a dirty page of it. -/
theorem forEach_flush_ok_iff (l : List PageId) {P : Pool ρ} (hc : P.Coherent) :
    (P.forEach flush l).2 = .ok () ↔ ∀ p ∈ l, P.owner? p = none ∨ P.faults.onWrite p = none := by
  induction l generalizing P with
  | nil => simp [forEach]
  | cons p rest ih =>
      unfold forEach
      rcases flush_cases hc p with ⟨Q, heq, hf, hp⟩ | ⟨fault, heq, ho, hw⟩
      · rw [heq]
        simp only [ih hf.coherent, hf.owner, hf.faults, List.mem_cons, List.not_mem_nil, or_false,
          forall_eq_or_imp, hp, true_and]
        -- Flushing a page makes it clean. If it is visited again, neither side of the equivalence
        -- asks for more.
        refine forall_congr' fun q => imp_congr_right fun _ => ?_
        by_cases hq : q = p
        · rw [if_pos hq, hq]
          exact ⟨fun _ => hp, fun _ => Or.inl rfl⟩
        · rw [if_neg hq]
      · rw [heq]
        refine ⟨fun hn => (by cases hn), fun hall => ?_⟩
        rcases hall p List.mem_cons_self with hn | hn
        · exact absurd hn ho
        · rw [hw] at hn
          cases hn

section Alike

variable {P : Pool ρ} {Q : Pool σ} (h : P.Alike Q)

include h

theorem Alike.flush (p : PageId) :
    (∃ P' Q', P.flush p = .ok P' ∧ Q.flush p = .ok Q' ∧ P'.Alike Q' ∧ Keeps P P') ∨
    ∃ e, P.flush p = .error e ∧ Q.flush p = .error e := by
  rcases flush_cases h.left.coherent p with ⟨P', hP, hfP, hgoP⟩ | ⟨e, hP, ho, hw⟩
  · rcases flush_cases h.right.coherent p with ⟨Q', hQ, hfQ, _⟩ | ⟨e', _, ho', hw'⟩
    · exact Or.inl ⟨P', Q', hP, hQ, h.flushed hfP hfQ fun _ _ => Iff.rfl, hfP.toKeeps⟩
    · -- Whether a flush is refused depends on the owner and on the device.
      rw [h.owner] at ho'
      rw [h.faults] at hw'
      rcases hgoP with hn | hn
      · exact absurd hn ho'
      · rw [hw'] at hn
        cases hn
  · rcases flush_cases h.right.coherent p with ⟨Q', _, _, hgoQ⟩ | ⟨e', hQ, _, hw'⟩
    · rw [h.owner, h.faults] at hgoQ
      rcases hgoQ with hn | hn
      · exact absurd hn ho
      · rw [hw] at hn
        cases hn
    · rw [h.faults, hw] at hw'
      cases hw'
      exact Or.inr ⟨_, hP, hQ⟩

theorem Alike.restore (hb : P.Bounded) (p : PageId) :
    ∃ P' Q', P.restore p = .ok P' ∧ Q.restore p = .ok Q' ∧ P'.Alike Q' ∧ Keeps P P' := by
  rcases restore_of_readable h.left.coherent hb h.left.readable p with ⟨P', hP, hrP, hpinP⟩
  rcases restore_of_readable h.right.coherent (h.bounded hb) h.right.readable p with
    ⟨Q', hQ, hrQ, hpinQ⟩
  exact ⟨P', Q', hP, hQ, h.restored hrP (hpinP h.left.pinned) hrQ (hpinQ h.right.pinned),
    hrP.toKeeps⟩

/-- An ending has the same result in both. -/
theorem Alike.finish (hb : P.Bounded) (t : TxnId) (e : Ending) :
    (P.finish t e).2 = (Q.finish t e).2 ∧ (P.finish t e).1.Alike (Q.finish t e).1 ∧
      (P.finish t e).1.Bounded := by
  -- One page after the other: the round needs the tables to stay countable on its way.
  have hsettle : ∀ (P' : Pool ρ) (Q' : Pool σ) (p : PageId), P'.Alike Q' ∧ P'.Bounded →
      (∃ P'' Q'', P'.settle e p = .ok P'' ∧ Q'.settle e p = .ok Q'' ∧ P''.Alike Q'' ∧
        P''.Bounded) ∨
      ∃ cause, P'.settle e p = .error cause ∧ Q'.settle e p = .error cause := by
    rintro P' Q' p ⟨h', hb'⟩
    cases e with
    | commit =>
        rcases h'.flush p with ⟨P'', Q'', hP, hQ, h'', hk⟩ | herr
        · exact Or.inl ⟨P'', Q'', hP, hQ, h'', hk.bounded hb'⟩
        · exact Or.inr herr
    | rollback =>
        rcases h'.restore hb' p with ⟨P'', Q'', hP, hQ, h'', hk⟩
        exact Or.inl ⟨P'', Q'', hP, hQ, h'', hk.bounded hb'⟩
  have hround := forEach_related hsettle (P.locks.exclusivePages t) ⟨h, hb⟩
  unfold Pool.finish finishIn
  rw [h.locks]
  cases hP : P.forEach (fun R p => R.settle e p) (P.locks.exclusivePages t) with
  | mk P' result =>
      cases hQ : Q.forEach (fun R p => R.settle e p) (P.locks.exclusivePages t) with
      | mk Q' result' =>
          rw [hP, hQ] at hround
          rcases hround with ⟨rfl, h', hb'⟩
          cases result with
          | error cause => exact ⟨rfl, h', hb'⟩
          | ok u =>
              refine ⟨rfl, ?_, hb'⟩
              -- The locks were read off the first pool, but both have the same.
              have hset := Alike.setLocks h' (P'.locks.releaseAll t)
              have hlocks : Q'.locks = P'.locks := h'.locks
              simp only [hlocks]
              exact hset

/-- A transaction that is left alone is rolled back, which does not fail here. -/
theorem Alike.abandon [EvictionOrder ρ] [EvictionOrder σ] (hb : P.Bounded) (t : TxnId) :
    (P.abandon t).Alike (Q.abandon t) := by
  have hok := rollback_ok h.left.coherent hb h.left.readable t
  rcases h.finish hb t .rollback with ⟨hres, h', _⟩
  unfold Pool.abandon
  cases hP : P.finish t .rollback with
  | mk P' result =>
      cases hQ : Q.finish t .rollback with
      | mk Q' result' =>
          rw [hP] at hok
          rw [hP, hQ] at hres h'
          -- A rollback cannot fail here, so there is no page left to discard.
          cases hres
          cases hok
          exact h'

theorem Alike.close [EvictionOrder ρ] [EvictionOrder σ] (hb : P.Bounded) (t : TxnId) (e : Ending) :
    (P.close t e).2 = (Q.close t e).2 ∧ (P.close t e).1.Alike (Q.close t e).1 := by
  rcases h.finish hb t e with ⟨hres, h', hb'⟩
  unfold Pool.close
  cases hP : P.finish t e with
  | mk P' result =>
      cases hQ : Q.finish t e with
      | mk Q' result' =>
          rw [hP, hQ] at hres h'
          rw [hP] at hb'
          cases hres
          cases result with
          | ok u => exact ⟨rfl, h'⟩
          | error cause => exact ⟨rfl, Alike.abandon h' hb' t⟩

/-- A round of flushes that the device does not refuse leaves both pools alike if it visits the same
    dirty pages. -/
theorem Alike.forEach_flush {l l' : List PageId}
    (hl : ∀ p, P.owner? p ≠ none → (p ∈ l ↔ p ∈ l')) (hw : ∀ p ∈ l, P.faults.onWrite p = none) :
    (P.forEach Pool.flush l).2 = (Q.forEach Pool.flush l').2 ∧
      (P.forEach Pool.flush l).1.Alike (Q.forEach Pool.flush l').1 := by
  have hokP : (P.forEach Pool.flush l).2 = .ok () :=
    (forEach_flush_ok_iff l h.left.coherent).2 fun p hp => Or.inr (hw p hp)
  -- A page that only the second round visits is clean, and is not written.
  have hokQ : (Q.forEach Pool.flush l').2 = .ok () := by
    rw [forEach_flush_ok_iff _ h.right.coherent, h.owner, h.faults]
    intro p hp
    by_cases ho : P.owner? p = none
    · exact Or.inl ho
    · exact Or.inr (hw p ((hl p ho).2 hp))
  refine ⟨hokP.trans hokQ.symm, ?_⟩
  rcases Pool.forEach_flush l h.left.coherent with ⟨P', visited, hfP, _, ⟨hP, rfl⟩ | ⟨e, hP⟩⟩
  · rcases Pool.forEach_flush l' h.right.coherent with
      ⟨Q', visited', hfQ, _, ⟨hQ, rfl⟩ | ⟨e, hQ⟩⟩
    · rw [hP, hQ]
      exact h.flushed hfP hfQ hl
    · rw [hQ] at hokQ
      cases hokQ
  · rw [hP] at hokP
    cases hokP

end Alike

/-- A dirty page is resident. -/
theorem mem_resident_of_owner {P : Pool ρ} {p : PageId} (h : P.owner? p ≠ none) :
    p ∈ P.cache.resident.keys := by
  rw [Assoc.mem_keys_iff]
  cases hr : P.cache.resident.get? p with
  | none => exact absurd (owner?_of_absent (Cache.page?_of_absent hr)) h
  | some f => rfl

section Alike

variable {P : Pool ρ} {Q : Pool σ} (h : P.Alike Q)

include h

section flush

variable (hw : ∀ p ∈ P.cache.resident.keys, P.faults.onWrite p = none)

include hw

theorem Alike.flushAll : P.flushAll.2 = Q.flushAll.2 ∧ P.flushAll.1.Alike Q.flushAll.1 := by
  refine h.forEach_flush (fun p ho => ?_) hw
  exact iff_of_true (mem_resident_of_owner ho) (mem_resident_of_owner (h.owner ▸ ho))

theorem Alike.flushTxn (t : TxnId) :
    (P.flushTxn t).2 = (Q.flushTxn t).2 ∧ (P.flushTxn t).1.Alike (Q.flushTxn t).1 := by
  -- Among dirty pages the filter asks for the owner only.
  have hmem : ∀ {τ : Type} (R : Pool τ) p, R.owner? p ≠ none →
      (p ∈ R.cache.resident.keys.filter (fun p =>
        (R.cache.page? p).any fun page => page.dirtiedBy = some t) ↔ R.owner? p = some t) := by
    intro τ R p ho
    rw [List.mem_filter, and_iff_right (mem_resident_of_owner ho)]
    unfold owner?
    cases R.cache.page? p <;> simp
  refine h.forEach_flush (fun p ho => ?_) fun p hp => hw p (List.mem_filter.1 hp).1
  rw [hmem P p ho, hmem Q p (h.owner ▸ ho), h.owner]

end flush

end Alike

end Pool

end RowStore
