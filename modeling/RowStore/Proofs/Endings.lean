import RowStore.Proofs.Visits

/-!
# Flushing and Restoring

What the operations do that bring copies and images together, one page at a time
and over lists of pages.

A flush makes the image what is shown, a restore makes what is shown the image, and
a page that is made to leave is as good as restored. Each can be told without asking
whether there is a copy, or whether it is dirty: where there is nothing to do, the
two agree already. So a list of pages that was visited is all there is to know, and
lists can be joined. An ending that fails has visited a part of its list from the
front.

## Main definitions

* `Pool.Flushed`, `Pool.Restored`: Some pages were flushed, or restored.

## Theorems

* `flush_cases`, `restore_cases`: What flushing or restoring one page does.
* `forEach_flush`, `forEach_restore`: The same over a list of pages.
* `finishIn_commit`, `finishIn_rollback`: What an ending does to the pages that it visits.
* `rollback_ok`, `finish_ok`: An ending does not fail unless the device does.
* `abandon_eq`: However a transaction is left alone, what it may write is restored.
-/

namespace RowStore

namespace Pool

variable {ρ : Type}

/-- Some pages were flushed: their images are what is shown of them, and they are clean. -/
structure Flushed (P Q : Pool ρ) (pages : List PageId) : Prop extends Keeps P Q where
  coherent : Q.Coherent
  pinned : P.Pinned → Q.Pinned
  shown : Q.shown = P.shown
  stored : ∀ q, Q.stored q = if q ∈ pages then P.shown q else P.stored q
  owner : ∀ q, Q.owner? q = if q ∈ pages then none else P.owner? q

/-- Some pages were restored: what is shown of them is their images, and they are clean. -/
structure Restored (P Q : Pool ρ) (pages : List PageId) : Prop extends Keeps P Q where
  coherent : Q.Coherent
  stored : Q.stored = P.stored
  shown : ∀ q, Q.shown q = if q ∈ pages then P.stored q else P.shown q
  owner : ∀ q, Q.owner? q = if q ∈ pages then none else P.owner? q

theorem Flushed.nil {P : Pool ρ} (hc : P.Coherent) : Flushed P P [] :=
  ⟨Keeps.refl P, hc, id, rfl, fun _ => by simp, fun _ => by simp⟩

theorem Restored.nil {P : Pool ρ} (hc : P.Coherent) : Restored P P [] :=
  ⟨Keeps.refl P, hc, rfl, fun _ => by simp, fun _ => by simp⟩

theorem Flushed.append {P Q R : Pool ρ} {l l' : List PageId} (h : Flushed P Q l)
    (h' : Flushed Q R l') : Flushed P R (l ++ l') where
  toKeeps := h.toKeeps.trans h'.toKeeps
  coherent := h'.coherent
  pinned := h'.pinned ∘ h.pinned
  shown := h'.shown.trans h.shown
  stored q := by
    rw [h'.stored, h.stored, h.shown]
    -- What is shown stays as it is, so a second visit writes the same bytes again.
    by_cases hq : q ∈ l <;> by_cases hq' : q ∈ l' <;> simp [hq, hq']
  owner q := by
    rw [h'.owner, h.owner]
    by_cases hq : q ∈ l <;> by_cases hq' : q ∈ l' <;> simp [hq, hq']

theorem Restored.append {P Q R : Pool ρ} {l l' : List PageId} (h : Restored P Q l)
    (h' : Restored Q R l') : Restored P R (l ++ l') where
  toKeeps := h.toKeeps.trans h'.toKeeps
  coherent := h'.coherent
  stored := h'.stored.trans h.stored
  shown q := by
    rw [h'.shown, h.shown, h.stored]
    -- The images stay as they are, so a second visit brings back the same bytes.
    by_cases hq : q ∈ l <;> by_cases hq' : q ∈ l' <;> simp [hq, hq']
  owner q := by
    rw [h'.owner, h.owner]
    by_cases hq : q ∈ l <;> by_cases hq' : q ∈ l' <;> simp [hq, hq']

/-! ## One page -/

section page

variable {P : Pool ρ} (hc : P.Coherent)

theorem pinned_updatePage (d : Disk) (p : PageId) (change : Page → Page) (hpin : P.Pinned) :
    Pinned { P with disk := d, cache := P.cache.updatePage p change } := by
  intro n h hn
  simp only [handles_updatePage] at hn
  simp only [resident_updatePage]
  exact hpin n h hn

theorem readable_updatePage (d : Disk) (p : PageId) (change : Page → Page) (hr : P.Readable) :
    Readable { P with disk := d, cache := P.cache.updatePage p change } := by
  intro q hq
  rw [resident_updatePage] at hq
  exact hr q hq

/-- The pool after the copy of a page was written to its place in the file, and marked clean. -/
def stowed (P : Pool ρ) (f : TableFile) (p : PageId) (bytes : Bytes) : Pool ρ :=
  { P with
    disk := f.written P.disk p.number bytes
    cache := P.cache.updatePage p (Page.mark · none) }

include hc

/-- A copy can be written to its place in the file, unless the device refuses. -/
theorem storeImage_eq {p : PageId} {page : Page} (hp : P.cache.page? p = some page) :
    ∃ f, P.tables.get? p.table = some f ∧ p.number < f.pagesOn P.disk ∧
      page.bytes.size = f.layout.pageSize ∧
      P.storeImage page = match P.faults.onWrite p with
        | some fault => .error (.io fault)
        | none => .ok (f.written P.disk p.number page.bytes) := by
  rcases hc.mirrors hp with ⟨rfl, hm⟩
  rcases hm.here with ⟨f, hf, hn⟩
  -- The page is in the file and its copy has the length of a page, so no check refuses.
  have hs : page.bytes.size = f.layout.pageSize := by
    rw [hm.size, stored_of_table hf, TableFile.size_imageOn]
  refine ⟨f, hf, hn, hs, ?_⟩
  simp only [storeImage, table, hf, bind, Except.bind]
  cases P.faults.onWrite page.id with
  | some fault => rfl
  | none => exact f.write_eq P.disk page (hc.laid.keyed _ f hf).symm hn hs

section stowed

variable {p : PageId} {page : Page} (hp : P.cache.page? p = some page) {f : TableFile}
  (hf : P.tables.get? p.table = some f) (hn : p.number < f.pagesOn P.disk)
  (hs : page.bytes.size = f.layout.pageSize)

theorem page?_stowed (f : TableFile) (p : PageId) (bytes : Bytes) (q : PageId) :
    (P.stowed f p bytes).cache.page? q =
      if q = p then (P.cache.page? q).map (Page.mark · none) else P.cache.page? q :=
  Cache.page?_updatePage hc.tidy p (Page.mark · none) q

include hf hs

theorem stored_stowed (q : PageId) :
    (P.stowed f p page.bytes).stored q = if q = p then page.bytes else P.stored q :=
  stored_written hc.laid hf hs q

include hn

theorem keeps_stowed : Keeps P (P.stowed f p page.bytes) := by
  rcases handles_updatePage P.cache p (Page.mark · none) with ⟨hh, hnh, hcap⟩
  refine ⟨rfl, rfl, rfl, rfl, rfl, ?_, ?_, hcap, hh, hnh, readable_updatePage _ p _⟩
  · intro t g hg
    -- Files are apart, so the only length at stake is that of the page's own file.
    by_cases ht : t = p.table
    · subst ht
      rw [Option.some.inj (hg.symm.trans hf)]
      exact f.size_image_written hn hs
    · exact congrArg _ (image_put_of_ne hc.laid hf _ hg ht)
  · intro n hne
    exact P.disk.image_put_other _ (fun h => hne _ f hf h.symm)

include hp

theorem coherent_stowed : (P.stowed f p page.bytes).Coherent where
  laid := (laid_written hc.laid hf hn hs).congr rfl rfl
  tidy := Cache.tidy_updatePage hc.tidy _ fun _ => rfl
  copies q page' hq := by
    have hkeeps := keeps_stowed hc hf hn hs
    rw [page?_stowed hc] at hq
    by_cases hqp : q = p
    · -- The copy that was written, and the image has its bytes now.
      rw [if_pos hqp, hqp, hp, Option.map_some, Option.some.injEq] at hq
      subst hq
      rcases hc.mirrors hp with ⟨hid, hm⟩
      have hb : (P.stowed f p page.bytes).stored page.id = page.bytes := by
        rw [stored_stowed hc hf hs, if_pos hid]
      exact ⟨hkeeps.has hm.here, congrArg _ hb.symm, fun _ => hb.symm⟩
    · -- Any other copy is what it was, and so is its image.
      rw [if_neg hqp] at hq
      rcases hc.mirrors hq with ⟨hid, hm⟩
      have hb : (P.stowed f p page.bytes).stored page'.id = P.stored page'.id := by
        rw [stored_stowed hc hf hs, if_neg (hid ▸ hqp)]
      refine ⟨hkeeps.has hm.here, ?_, ?_⟩
      · rw [hb]
        exact hm.size
      · rw [hb]
        exact hm.clean

/-- A copy that was written out is clean, and its bytes are the image. -/
theorem flushed_stowed : Flushed P (P.stowed f p page.bytes) [p] where
  toKeeps := keeps_stowed hc hf hn hs
  coherent := coherent_stowed hc hp hf hn hs
  pinned := pinned_updatePage _ p _
  shown := by
    funext q
    unfold shown
    rw [page?_stowed hc, stored_stowed hc hf hs]
    by_cases hqp : q = p
    · rw [if_pos hqp, if_pos hqp, hqp, hp]
      rfl
    · rw [if_neg hqp, if_neg hqp]
  stored q := by
    rw [stored_stowed hc hf hs]
    simp only [List.mem_singleton]
    by_cases hqp : q = p
    · rw [if_pos hqp, if_pos hqp, hqp, shown_of_page hp]
    · rw [if_neg hqp, if_neg hqp]
  owner q := by
    unfold owner?
    rw [page?_stowed hc]
    simp only [List.mem_singleton]
    by_cases hqp : q = p
    · rw [if_pos hqp, if_pos hqp, hqp, hp]
      rfl
    · rw [if_neg hqp, if_neg hqp]

end stowed

/-- A flush writes a dirty copy, unless the device refuses. A page without one is as it should
    be. -/
theorem flush_cases (p : PageId) :
    (∃ Q, P.flush p = .ok Q ∧ Flushed P Q [p] ∧
      (P.owner? p = none ∨ P.faults.onWrite p = none)) ∨
    (∃ fault, P.flush p = .error (.io fault) ∧ P.owner? p ≠ none ∧
      P.faults.onWrite p = some fault) := by
  -- Where nothing is written, what is shown is the image already.
  have hidle : P.owner? p = none → Flushed P P [p] := by
    intro ho
    refine ⟨Keeps.refl P, hc, id, rfl, fun q => ?_, fun q => ?_⟩
    · by_cases hq : q = p
      · rw [hq, if_pos List.mem_cons_self, hc.shown_clean ho]
      · rw [if_neg (by simpa using hq)]
    · by_cases hq : q = p
      · rw [hq, if_pos List.mem_cons_self, ho]
      · rw [if_neg (by simpa using hq)]
  unfold flush
  cases hp : P.cache.page? p with
  | none => exact Or.inl ⟨P, rfl, hidle (owner?_of_absent hp), Or.inl (owner?_of_absent hp)⟩
  | some page =>
      have ho := owner?_of_page hp
      simp only
      -- Only a dirty copy is written, so only then can the device refuse.
      by_cases hd : page.isDirty = true
      · rw [if_pos hd]
        have hne : P.owner? p ≠ none := by
          rw [ho]
          exact Option.isSome_iff_ne_none.1 hd
        rcases storeImage_eq hc hp with ⟨f, hf, hn, hs, heq⟩
        simp only [heq, bind, Except.bind]
        cases hw : P.faults.onWrite p with
        | some fault => exact Or.inr ⟨fault, rfl, hne, rfl⟩
        | none => exact Or.inl ⟨_, rfl, flushed_stowed hc hp hf hn hs, Or.inr rfl⟩
      · rw [if_neg hd]
        have hn : P.owner? p = none := by
          rw [ho]
          simpa [Page.isDirty] using hd
        exact Or.inl ⟨P, rfl, hidle hn, Or.inl hn⟩

/-- A copy that was restored is clean, and its bytes are the image. -/
theorem restored_updatePage {p : PageId} (hh : P.Has p) :
    Restored P
      { P with cache := P.cache.updatePage p (Page.restore · ⟨p, P.stored p, none⟩) } [p] := by
  have hpage := Cache.page?_updatePage hc.tidy p (Page.restore · ⟨p, P.stored p, none⟩)
  rcases handles_updatePage P.cache p (Page.restore · ⟨p, P.stored p, none⟩) with ⟨hha, hnh, hcap⟩
  refine ⟨keeps_cache hcap hha hnh (readable_updatePage _ p _), ?_, rfl, ?_, ?_⟩
  · refine hc.of_cache (Cache.tidy_updatePage hc.tidy p fun _ => rfl) fun q page' hq => ?_
    rw [hpage] at hq
    by_cases hqp : q = p
    · rw [if_pos hqp, hqp] at hq
      -- The copy has the bytes of the image, whoever changed it before.
      rcases Option.map_eq_some_iff.1 hq with ⟨page, hp, rfl⟩
      rcases hc.mirrors hp with ⟨rfl, hm⟩
      exact ⟨hm.here, rfl, fun _ => rfl⟩
    · rw [if_neg hqp] at hq
      exact hc.copies q page' hq
  · intro q
    unfold shown
    simp only [hpage, List.mem_singleton]
    by_cases hqp : q = p
    · rw [if_pos hqp, if_pos hqp, hqp]
      cases P.cache.page? p <;> rfl
    · rw [if_neg hqp, if_neg hqp]
      rfl
  · intro q
    unfold owner?
    simp only [hpage, List.mem_singleton]
    by_cases hqp : q = p
    · rw [if_pos hqp, if_pos hqp, hqp]
      cases P.cache.page? p <;> rfl
    · rw [if_neg hqp, if_neg hqp]

/-- A page that is not resident is shown as its image already. -/
theorem restored_absent {p : PageId} (hp : P.cache.page? p = none) : Restored P P [p] := by
  refine ⟨Keeps.refl P, hc, rfl, fun q => ?_, fun q => ?_⟩
  · by_cases hq : q = p
    · rw [hq, if_pos List.mem_cons_self, shown_of_absent hp]
    · rw [if_neg (by simpa using hq)]
  · by_cases hq : q = p
    · rw [hq, if_pos List.mem_cons_self, owner?_of_absent hp]
    · rw [if_neg (by simpa using hq)]

/-- A restore brings the image back, if there is a copy and the image can be loaded. -/
theorem restore_cases (p : PageId) :
    (∃ Q, P.restore p = .ok Q ∧ Restored P Q [p] ∧ (P.Pinned → Q.Pinned)) ∨
    (∃ e, P.restore p = .error e ∧ P.cache.resident.get? p ≠ none ∧ P.loadImage p = .error e) := by
  unfold restore Cache.isResident Assoc.contains
  cases hr : P.cache.resident.get? p with
  | none => exact Or.inl ⟨P, rfl, restored_absent hc (Cache.page?_of_absent hr), id⟩
  | some f =>
      simp only [Option.isSome_some, if_true, bind, Except.bind]
      cases hl : P.loadImage p with
      | error e => exact Or.inr ⟨e, rfl, by simp, rfl⟩
      | ok image =>
          rcases loadImage_eq_ok hl with ⟨rfl, hh, _⟩
          exact Or.inl ⟨_, rfl, restored_updatePage hc hh, pinned_updatePage _ p _⟩

/-- A page that is made to leave is shown as its image. -/
theorem restored_discard [EvictionOrder ρ] (p : PageId) : Restored P (P.discard p) [p] := by
  have hpage := P.cache.page?_discard p
  refine ⟨keeps_cache rfl rfl rfl ?_, ?_, rfl, ?_, ?_⟩
  · intro hr q hq
    -- A page that is still resident was so before.
    refine hr q fun hn => hq ?_
    simp only [Cache.discard, Cache.forget, Assoc.get?_erase, hn, ite_self]
  · refine hc.of_cache (Cache.tidy_discard hc.tidy p) fun q page hq => ?_
    rw [hpage] at hq
    split at hq
    · cases hq
    · exact hc.copies q page hq
  · intro q
    unfold shown discard
    simp only [hpage, List.mem_singleton]
    split <;> rfl
  · intro q
    unfold owner? discard
    simp only [hpage, List.mem_singleton]
    split <;> rfl

end page

/-! ## Lists of pages -/

theorem forEach_flush (l : List PageId) {P : Pool ρ} (hc : P.Coherent) :
    ∃ Q visited, Flushed P Q visited ∧ visited <+: l ∧
      (P.forEach flush l = (Q, .ok ()) ∧ visited = l ∨
        ∃ e, P.forEach flush l = (Q, .error e)) := by
  refine forEach_visits (fun _ _ _ h => h.coherent) (fun _ hc => Flushed.nil hc)
    (fun _ _ _ _ _ => Flushed.append) (fun P p Q hc ha => ?_) l hc
  rcases flush_cases hc p with ⟨Q', heq, hf, _⟩ | ⟨fault, heq, _⟩
  · rw [heq] at ha
    exact Except.ok.inj ha ▸ hf
  · rw [heq] at ha
    cases ha

theorem forEach_restore (l : List PageId) {P : Pool ρ} (hc : P.Coherent) :
    ∃ Q visited, (Restored P Q visited ∧ (P.Pinned → Q.Pinned)) ∧ visited <+: l ∧
      (P.forEach restore l = (Q, .ok ()) ∧ visited = l ∨
        ∃ e, P.forEach restore l = (Q, .error e)) := by
  refine forEach_visits (V := fun P Q l => Restored P Q l ∧ (P.Pinned → Q.Pinned))
    (fun _ _ _ h => h.1.coherent) (fun _ hc => ⟨Restored.nil hc, id⟩)
    (fun _ _ _ _ _ h h' => ⟨h.1.append h'.1, h'.2 ∘ h.2⟩) (fun P p Q hc ha => ?_) l hc
  rcases restore_cases hc p with ⟨Q', heq, hr⟩ | ⟨e, heq, _⟩
  · rw [heq] at ha
    exact Except.ok.inj ha ▸ hr
  · rw [heq] at ha
    cases ha

theorem Restored.of_mem_iff {P Q : Pool ρ} {l l' : List PageId} (h : Restored P Q l)
    (hl : ∀ q, q ∈ l' ↔ q ∈ l) : Restored P Q l' where
  toKeeps := h.toKeeps
  coherent := h.coherent
  stored := h.stored
  shown q := by
    simp only [h.shown, hl]
  owner q := by
    simp only [h.owner, hl]

theorem restored_foldl_discard [EvictionOrder ρ] (l : List PageId) {P : Pool ρ}
    (hc : P.Coherent) : Restored P (l.foldl discard P) l := by
  induction l generalizing P with
  | nil => exact Restored.nil hc
  | cons p rest ih =>
      have hp := restored_discard hc p
      exact hp.append (ih hp.coherent)

/-! ## Endings -/

theorem Coherent.setLocks {P : Pool ρ} (hc : P.Coherent) (locks : LockTable) :
    (P.setLocks locks).Coherent where
  laid := hc.laid.congr rfl rfl
  tidy := hc.tidy
  copies p page hp := (hc.copies p page hp).congr rfl rfl

/-- A commit flushes the pages it visits, and gives the locks back if it could visit all. -/
theorem finishIn_commit {P : Pool ρ} (hc : P.Coherent) (order : List PageId) (t : TxnId) :
    ∃ Q visited, Flushed P Q visited ∧ visited <+: order ∧
      (P.finishIn order t .commit = (Q.setLocks (P.locks.releaseAll t), .ok ()) ∧
          visited = order ∨
        ∃ e, P.finishIn order t .commit = (Q, .error e)) := by
  rcases forEach_flush order hc with ⟨Q, visited, hf, hpre, hres⟩
  refine ⟨Q, visited, hf, hpre, ?_⟩
  unfold finishIn
  -- Settling a page is flushing it, for every page of the round.
  have hact : (fun (Q : Pool ρ) p => Q.settle .commit p) = flush := rfl
  rw [hact]
  rcases hres with ⟨heq, hv⟩ | ⟨e, heq⟩
  · rw [heq]
    exact Or.inl ⟨by rw [← hf.locks]; rfl, hv⟩
  · rw [heq]
    exact Or.inr ⟨e, rfl⟩

/-- A rollback restores the pages it visits, and gives the locks back if it could visit all. -/
theorem finishIn_rollback {P : Pool ρ} (hc : P.Coherent) (order : List PageId) (t : TxnId) :
    ∃ Q visited, (Restored P Q visited ∧ (P.Pinned → Q.Pinned)) ∧ visited <+: order ∧
      (P.finishIn order t .rollback = (Q.setLocks (P.locks.releaseAll t), .ok ()) ∧
          visited = order ∨
        ∃ e, P.finishIn order t .rollback = (Q, .error e)) := by
  rcases forEach_restore order hc with ⟨Q, visited, hr, hpre, hres⟩
  refine ⟨Q, visited, hr, hpre, ?_⟩
  unfold finishIn
  -- Settling a page is restoring it, for every page of the round.
  have hact : (fun (Q : Pool ρ) p => Q.settle .rollback p) = restore := rfl
  rw [hact]
  rcases hres with ⟨heq, hv⟩ | ⟨e, heq⟩
  · rw [heq]
    exact Or.inl ⟨by rw [← hr.1.locks]; rfl, hv⟩
  · rw [heq]
    exact Or.inr ⟨e, rfl⟩

theorem finish_commit {P : Pool ρ} (hc : P.Coherent) (t : TxnId) :
    ∃ Q visited, Flushed P Q visited ∧ visited <+: P.locks.exclusivePages t ∧
      (P.finish t .commit = (Q.setLocks (P.locks.releaseAll t), .ok ()) ∧
          visited = P.locks.exclusivePages t ∨
        ∃ e, P.finish t .commit = (Q, .error e)) :=
  finishIn_commit hc _ t

theorem finish_rollback {P : Pool ρ} (hc : P.Coherent) (t : TxnId) :
    ∃ Q visited, (Restored P Q visited ∧ (P.Pinned → Q.Pinned)) ∧
      visited <+: P.locks.exclusivePages t ∧
      (P.finish t .rollback = (Q.setLocks (P.locks.releaseAll t), .ok ()) ∧
          visited = P.locks.exclusivePages t ∨
        ∃ e, P.finish t .rollback = (Q, .error e)) :=
  finishIn_rollback hc _ t

/-- What an ending needs not to fail: a device that does not refuse. -/
structure Willing (P : Pool ρ) : Prop where
  coherent : P.Coherent
  bounded : P.Bounded
  readable : P.Readable
  writable : ∀ p, P.faults.onWrite p = none

theorem Keeps.willing {P Q : Pool ρ} (h : Keeps P Q) (hw : P.Willing) (hc : Q.Coherent) :
    Q.Willing where
  coherent := hc
  bounded := h.bounded hw.bounded
  readable := h.readable hw.readable
  writable p := by
    rw [h.faults]
    exact hw.writable p

theorem flush_ok {P : Pool ρ} (hw : P.Willing) (p : PageId) :
    ∃ Q, P.flush p = .ok Q ∧ Q.Willing := by
  rcases flush_cases hw.coherent p with ⟨Q, heq, hf, _⟩ | ⟨fault, _, _, hfault⟩
  · exact ⟨Q, heq, hf.willing hw hf.coherent⟩
  · rw [hw.writable p] at hfault
    cases hfault

/-- A resident page was loaded once, so it can be restored. -/
theorem restore_of_readable {P : Pool ρ} (hc : P.Coherent) (hb : P.Bounded) (hr : P.Readable)
    (p : PageId) : ∃ Q, P.restore p = .ok Q ∧ Restored P Q [p] ∧ (P.Pinned → Q.Pinned) := by
  rcases restore_cases hc p with hok | ⟨e, _, hres, hload⟩
  · exact hok
  · cases hf : P.cache.resident.get? p with
    | none => exact absurd hf hres
    | some f =>
        -- The copy mirrors a page of a table, and the device lets it be read.
        rcases hc.tidy.exists_page hf with ⟨page, hp, _, _⟩
        rcases hc.mirrors hp with ⟨rfl, hm⟩
        rw [loadImage_of_has hc.laid hb hm.here (hr _ hres)] at hload
        cases hload

theorem finish_result (P : Pool ρ) (t : TxnId) (e : Ending) :
    (P.finish t e).2 = (P.forEach (fun Q p => Q.settle e p) (P.locks.exclusivePages t)).2 := by
  unfold finish finishIn
  split
  · rename_i heq
    rw [heq]
  · rename_i heq
    rw [heq]

/-- A rollback does not fail, because only resident pages are restored. -/
theorem rollback_ok {P : Pool ρ} (hc : P.Coherent) (hb : P.Bounded) (hr : P.Readable)
    (t : TxnId) : (P.finish t .rollback).2 = .ok () := by
  rw [finish_result]
  refine forEach_ok (G := fun R => R.Coherent ∧ R.Bounded ∧ R.Readable) ?_ _ ⟨hc, hb, hr⟩
  rintro R p ⟨hc', hb', hr'⟩
  rcases restore_of_readable hc' hb' hr' p with ⟨Q, heq, hq, _⟩
  exact ⟨Q, heq, hq.coherent, hq.bounded hb', hq.readable hr'⟩

theorem finish_ok {P : Pool ρ} (hw : P.Willing) (t : TxnId) (e : Ending) :
    (P.finish t e).2 = .ok () := by
  cases e with
  | commit =>
      -- Every flush succeeds, and what the next one needs is kept.
      rw [finish_result]
      exact forEach_ok (G := Willing) (fun P p hp => flush_ok hp p) _ hw
  | rollback => exact rollback_ok hw.coherent hw.bounded hw.readable t

/-- An ending that succeeds needs no second try. -/
theorem close_of_ok [EvictionOrder ρ] {P : Pool ρ} {t : TxnId} {e : Ending}
    (hok : (P.finish t e).2 = .ok ()) : P.close t e = P.finish t e := by
  unfold close
  cases hres : P.finish t e with
  | mk Q r =>
      rw [hres] at hok
      cases hok
      rfl

theorem abandon_of_ok [EvictionOrder ρ] {P : Pool ρ} {t : TxnId}
    (hok : (P.finish t .rollback).2 = .ok ()) : P.abandon t = (P.finish t .rollback).1 := by
  unfold abandon
  cases hres : P.finish t .rollback with
  | mk Q r =>
      rw [hres] at hok
      cases hok
      rfl

/-- However a transaction is left alone, the pages that it may write are restored, and its locks are
    given back. -/
theorem abandon_eq [EvictionOrder ρ] {P : Pool ρ} (hc : P.Coherent) (t : TxnId) :
    ∃ Q, Restored P Q (P.locks.exclusivePages t) ∧
      P.abandon t = Q.setLocks (P.locks.releaseAll t) := by
  unfold abandon
  rcases finish_rollback hc t with ⟨Q, visited, ⟨hr, _⟩, hpre, ⟨heq, hv⟩ | ⟨e, heq⟩⟩
  · rw [heq]
    exact ⟨Q, hv ▸ hr, rfl⟩
  · -- The pages that the rollback did not come to are made to leave with those that it restored.
    rw [heq]
    have hd := restored_foldl_discard (Q.locks.exclusivePages t) hr.coherent
    refine ⟨_, (hr.append hd).of_mem_iff fun q => ?_, ?_⟩
    · rw [hr.locks, List.mem_append]
      exact ⟨Or.inr, fun h => h.elim (fun hm => hpre.subset hm) id⟩
    · have hlocks := hd.locks.trans hr.locks
      rw [hr.locks] at hlocks
      simp only [giveUp, releaseLocks, setLocks, hr.locks, hlocks]

end Pool

end RowStore
