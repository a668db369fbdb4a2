import RowStore.Proofs.Capacity
import RowStore.Proofs.Footprints
import RowStore.Recency

/-!
# One Copy of a Page

All that use a page at one time use one copy of it.

A page is taken in only if it is not resident, and it leaves to make room only if no
handle is on its frame. Endings and writes change the copy where it is and never put
another one in its place. So a handle stays on the resident copy of its page as long as
it lives, however many calls have fetched the page meanwhile and whatever has become of
the transaction it was fetched for. Two handles on a page are on one copy. What is
written by one is read by the other, and a commit or a rollback does to both what it does
to one.

Only a page that is made to leave by force leaves its handles behind: one that is
discarded, or one whose transaction is given up because it could not be rolled back.

Nothing is asked of tables, files, locks or the order of eviction. A table may be known by
another file than the one its copies were loaded from, and locks may be given back early.

## Main definitions

* `Cache.copies`: The resident copies.
* `Pool.Reset`: Some pages are shown as their images.
* `Pool.Together`: Two handles on one copy.

## Theorems

* `Cache.Turnover.stays`: A page with a handle on its frame stays when another is taken in.
* `Pool.pinned_worked`, `Engine.pinned_move`: Handles stay on resident copies.
* `Pool.shown_finishIn_restored`: After a rollback the images are shown.
* `Pool.together_of_pinned`: Two handles on a page see the same.
* `Engine.one_copy_while_pinned`: So it is after every run in which no page is given up.
-/

namespace RowStore

namespace Cache

variable {ρ : Type}

/-- The copies that are resident. -/
def copies (c : Cache ρ) : List Page := c.resident.entries.filterMap fun e => c.frame? e.2

/-- Each is one of the page that it is resident as. -/
theorem ids_copies {c : Cache ρ} (ht : c.Tidy) : c.copies.map Page.id = c.resident.keys := by
  have hframe : ∀ e ∈ c.resident.entries, (c.frame? e.2).map Page.id = some e.1 := by
    intro e he
    rcases ht.framed e.1 e.2 ((Assoc.mem_entries_iff _ _ _).1 he) with ⟨page, hf, hid⟩
    rw [hf, Option.map_some, hid]
  unfold copies Assoc.keys
  rw [List.map_filterMap, List.filterMap_congr hframe, List.filterMap_eq_map']

/-- A page with a handle on its frame stays in it when another one is taken in. -/
theorem Turnover.stays {c c' : Cache ρ} {p q : PageId} {f : FrameNo} (h : Turnover c p c')
    (hq : c.resident.get? q = some f) {n : HandleNo} {hd : Handle}
    (hn : c.handles.get? n = some hd) (hf : hd.frame = f) : c'.resident.get? q = some f := by
  have hne : c.resident.get? p = none → q ≠ p := by
    rintro hnew rfl
    cases hq.symm.trans hnew
  cases h with
  | same hres =>
      rw [hres]
      exact hq
  | came g hnew hroom hres =>
      rw [hres, Assoc.get?_insert_other _ _ (hne hnew)]
      exact hq
  | replaced g r k hnew hfull hr hidle hres =>
      -- The page that leaves has no handle on its frame.
      have hqr : q ≠ r := by
        rintro rfl
        cases hq.symm.trans hr
        exact frame_ne_of_evictable hidle hn hf
      rw [hres, Assoc.get?_insert_other _ _ (hne hnew), Assoc.get?_erase_other _ hqr]
      exact hq

end Cache

namespace Pool

variable {ρ : Type} {P : Pool ρ}

/-! ## Handles stay on resident copies -/

/-- Handles that there were stay where they are, if the pages do. -/
theorem Pinned.congr {Q : Pool ρ} (h : P.Pinned)
    (hh : ∀ n hd, Q.cache.handles.get? n = some hd → P.cache.handles.get? n = some hd)
    (hres : Q.cache.resident = P.cache.resident) : Q.Pinned := by
  intro n hd hn
  rw [hres]
  exact h n hd (hh n hd hn)

section fetch

variable [EvictionOrder ρ]

theorem handles_fetch (P : Pool ρ) (p : PageId) :
    (P.fetch p).1.cache.handles = P.cache.handles := by
  unfold fetch
  split
  · rfl
  · split
    · rfl
    · rename_i image _
      rcases P.cache.takeIn_cases image with
        ⟨order, h⟩ | ⟨order, h⟩ | ⟨q, f, order, order', _, _, h⟩ <;> rw [h] <;> rfl

theorem pinned_fetch (h : P.Pinned) (p : PageId) : (P.fetch p).1.Pinned := by
  intro n hd hn
  rw [handles_fetch] at hn
  exact (P.turnover_fetch p).2.stays (h n hd hn) hn rfl

/-- The work of a call keeps the handles where they are, and puts a new one where its page is. -/
theorem pinned_worked {Q : Pool ρ} {t : TxnId} (ht : P.cache.Tidy) (h : P.Pinned)
    (hw : Task.Worked t P Q) : Q.Pinned := by
  cases hw with
  | same => exact h
  | grown hg => exact h
  | fetched p => exact pinned_fetch h p
  | @kept p f R access hf =>
      have hR : R.Pinned := by
        have hpin := pinned_fetch h p
        rw [hf] at hpin
        exact hpin
      intro n hd hn
      simp only [Cache.pin, Assoc.get?_insert] at hn
      split at hn
      · cases hn
        exact (fetch_tidy ht hf).2.2 f rfl
      · exact hR n hd hn
  | @altered p f R α work hsize hf =>
      have hR : R.Pinned := by
        have hpin := pinned_fetch h p
        rw [hf] at hpin
        exact hpin
      rcases Task.alter_apart R ⟨p, f, t, .readWrite⟩ work with ⟨frames, heq⟩
      rw [heq]
      exact hR

end fetch

/-! ## What is done to one copy -/

/-- The copy in the frame of a resident page, by what is known of the page. -/
theorem frame?_of_resident (ht : P.cache.Tidy) {p : PageId} {f : FrameNo}
    (hr : P.cache.resident.get? p = some f) :
    P.cache.frame? f = some ⟨p, P.shown p, P.owner? p⟩ := by
  rcases ht.exists_page hr with ⟨page, hp, hf, rfl⟩
  rw [hf, shown_of_page hp, owner?_of_page hp]

/-- A write by a handle gives its copy the bytes and the owner. -/
theorem frame?_edit (ht : P.cache.Tidy) {n : HandleNo} {h : Handle}
    (hn : P.cache.handles.get? n = some h) (hw : P.checkWrite h = .ok ()) (e : Edit) :
    (P.edit n e).1.cache.frame? h.frame =
      some ⟨h.page, e.apply (P.bytesOf h), some h.txn⟩ := by
  have hg : P.Grasps h := ht.handled n h hn
  unfold edit
  rw [hn]
  rcases alter_cases hg fun b => .ok ((), e.apply b) with
    ⟨e', hw', _⟩ | ⟨_, e', hwork, _⟩ | ⟨_, _, bytes, hwork, heq⟩
  · cases hw.symm.trans hw'
  · cases hwork
  · cases hwork
    rcases hg with ⟨page, hf, hid⟩
    rw [← hid]
    simp only [heq, written, marked, setBytes, Cache.frame?_updateFrame, hf, if_pos]
    rfl

/-- A visit of a commit changes the bytes of no copy. -/
theorem bytesOf_settles {Q : Pool ρ} {p : PageId} (h : P.Settles p .commit Q) (k : Handle) :
    Q.bytesOf k = P.bytesOf k := by
  cases h with
  | clean _ => rfl
  | stored hp hd hs =>
      unfold bytesOf
      rw [Cache.frame?_updatePage]
      split
      · cases P.cache.frame? k.frame <;> rfl
      · rfl

/-- Some pages are shown as their images, and the others as they were. No image has changed. -/
structure Reset (P Q : Pool ρ) (pages : List PageId) : Prop where
  tidy : Q.cache.Tidy
  stored : Q.stored = P.stored
  shown : ∀ q, Q.shown q = if q ∈ pages then P.stored q else P.shown q

theorem Reset.append {Q R : Pool ρ} {l l' : List PageId} (h : Reset P Q l) (h' : Reset Q R l') :
    Reset P R (l ++ l') where
  tidy := h'.tidy
  stored := h'.stored.trans h.stored
  shown q := by
    rw [h'.shown, h.stored, h.shown]
    by_cases hq : q ∈ l <;> by_cases hq' : q ∈ l' <;> simp [hq, hq']

/-- A visit of a rollback that succeeds has the image of its page shown. -/
theorem reset_settle (ht : P.cache.Tidy) {Q : Pool ρ} {p : PageId}
    (h : P.settle .rollback p = .ok Q) : Reset P Q [p] where
  tidy := (visited_settle ht h).tidy
  stored := by cases settles_of_settle h <;> exact stored_congr rfl rfl
  shown q := by
    simp only [List.mem_singleton]
    cases settles_of_settle h with
    | absent hr =>
        split
        · rename_i hq
          rw [hq]
          refine shown_of_absent (Cache.page?_of_absent ?_)
          simpa [Cache.isResident, Assoc.contains] using hr
        · rfl
    | @loaded image hr hl =>
        rcases loadImage_eq_ok hl with ⟨rfl, _, _⟩
        unfold shown
        rw [Cache.page?_updatePage ht]
        split
        · rename_i hq
          rw [hq]
          cases P.cache.page? p <;> rfl
        · rfl

/-- After a rollback that succeeds the images of its pages are shown. -/
theorem shown_finishIn_restored (ht : P.cache.Tidy) {order : List PageId} {t : TxnId}
    (hok : (P.finishIn order t .rollback).2.isOk = true) {p : PageId} (hp : p ∈ order) :
    (P.finishIn order t .rollback).1.shown p = P.stored p := by
  have hnil : ∀ Q : Pool ρ, Q.cache.Tidy → Reset Q Q [] := fun Q hQ => ⟨hQ, rfl, fun q => by simp⟩
  have hvisit : ∀ (Q : Pool ρ) q R, Q.cache.Tidy → Q.settle .rollback q = .ok R → Reset Q R [q] :=
    fun _ _ _ hQ => reset_settle hQ
  rcases forEach_visits (V := Reset) (fun _ _ _ => Reset.tidy) hnil
    (fun _ _ _ _ _ => Reset.append) hvisit order ht with ⟨Q, visited, hreset, _, hres⟩
  unfold finishIn at hok ⊢
  rcases hres with ⟨heq, rfl⟩ | ⟨e, heq⟩
  · rw [heq]
    exact (hreset.shown p).trans (if_pos hp)
  · rw [heq] at hok
    cases hok

variable [EvictionOrder ρ]

/-- Two handles are on one copy. It is the one that a fetch finds. What is written by the first is
    there for the second. A commit that visits the page leaves the copy clean, with the bytes it
    has, and a rollback leaves it clean, with those of the image. -/
structure Together (P : Pool ρ) (n : HandleNo) (h k : Handle) : Prop where
  frame : h.frame = k.frame
  fetched : (P.fetch h.page).2 = .ok k.frame
  written : ∀ e, P.checkWrite h = .ok () → (P.edit n e).1.cache.frame? k.frame =
    some ⟨k.page, e.apply (P.bytesOf k), some h.txn⟩
  committed : ∀ order t, h.page ∈ order → (P.finishIn order t .commit).2.isOk = true →
    (P.finishIn order t .commit).1.cache.frame? k.frame = some ⟨k.page, P.bytesOf k, none⟩
  restored : ∀ order t, h.page ∈ order → (P.finishIn order t .rollback).2.isOk = true →
    (P.finishIn order t .rollback).1.cache.frame? k.frame = some ⟨k.page, P.stored k.page, none⟩

/-- Two handles on a page are on its resident copy, so they are together. -/
theorem together_of_pinned (ht : P.cache.Tidy) (hpin : P.Pinned) {n m : HandleNo} {h k : Handle}
    (hn : P.cache.handles.get? n = some h) (hm : P.cache.handles.get? m = some k)
    (hpage : h.page = k.page) : P.Together n h k := by
  have hr := hpin n h hn
  have hr' := hpin m k hm
  have hframe : h.frame = k.frame := by
    rw [hpage, hr'] at hr
    exact (Option.some.inj hr).symm
  -- An ending that succeeds has visited the page: its copy is where it was, and clean.
  have hended : ∀ order t e, h.page ∈ order → (P.finishIn order t e).2.isOk = true →
      (P.finishIn order t e).1.cache.frame? k.frame =
        some ⟨k.page, (P.finishIn order t e).1.shown k.page, none⟩ := by
    intro order t e hmem hok
    rcases finishIn_visited ht order t e with ⟨Q, visited, hv, _, ⟨heq, rfl⟩ | ⟨cause, heq⟩⟩
    · rw [heq]
      have hf := frame?_of_resident hv.tidy (hv.resident ▸ hr')
      rw [hv.owner, if_pos (hpage ▸ hmem)] at hf
      exact hf
    · rw [heq] at hok
      cases hok
  refine ⟨hframe, ?_, fun e hw => ?_, fun order t hmem hok => ?_, fun order t hmem hok => ?_⟩
  · unfold fetch
    rw [hr, hframe]
  · have hf := frame?_edit ht hn hw e
    rw [hframe, hpage] at hf
    rw [hf, bytesOf, bytesOf, hframe]
  · have hf := hended order t .commit hmem hok
    have hbytes := finishIn_const (e := .commit) (·.bytesOf k) (bytesOf_settles · k)
      (fun _ _ => rfl) P order t
    have hshown : (P.finishIn order t .commit).1.bytesOf k =
        (P.finishIn order t .commit).1.shown k.page := by
      rw [bytesOf, hf]
      rfl
    rw [hf, ← hshown, hbytes]
  · rw [hended order t .rollback hmem hok, shown_finishIn_restored ht hok (hpage ▸ hmem)]

end Pool

namespace Engine

variable {ρ : Type} [EvictionOrder ρ]

/-- Handles stay on the resident copies of their pages, unless a page is given up. -/
theorem pinned_move {E : Engine ρ} (ht : E.pool.cache.Tidy) (h : E.pool.Pinned) {m : Move ρ}
    (hkeep : E.givesUp m = false) : (E.move m).pool.Pinned := by
  have hstep : ∀ c, (E.move (.event (.step c))).pool.Pinned := by
    intro c
    cases hr : E.ruling c with
    | none =>
        have heq : (E.step c).1 = E := by rw [step_eq, hr]
        simp only [move, exec, heq]
        exact h
    | some r => exact Pool.pinned_worked (P := E.pool.setLocks r.2.1) ht h (worked_step hr)
  rcases residents_move ht m with ⟨c, rfl⟩ | ⟨_, _, hres⟩
  · exact hstep c
  · rcases handles_unstepped m with ⟨c, rfl⟩ | hh
    · exact hstep c
    · exact h.congr hh (hres hkeep)

theorem Arises.pinned {E : Engine ρ} (h : E.Arises fun E m => E.givesUp m = false) :
    E.pool.Pinned := by
  induction h with
  | fresh h =>
      intro n hd hn
      rw [h.handles] at hn
      cases hn
  | move h hm ih => exact pinned_move h.tidy ih hm

/-- Whatever has happened, as long as no page was discarded and no transaction was given up: every
    handle is on the copy that is resident as its page, and is shown; no two resident copies are of
    one page; and two handles on one page, whosever they are and however old, see what is written by
    either and what an ending does to the page. -/
theorem one_copy_while_pinned {E : Engine ρ} (h : E.Arises fun E m => E.givesUp m = false) :
    (∀ n hd, E.pool.cache.handles.get? n = some hd →
      E.pool.cache.resident.get? hd.page = some hd.frame ∧
      E.pool.cache.frame? hd.frame =
        some ⟨hd.page, E.pool.shown hd.page, E.pool.owner? hd.page⟩) ∧
    (E.pool.cache.copies.map Page.id).Nodup ∧
    ∀ n m hd other, E.pool.cache.handles.get? n = some hd →
      E.pool.cache.handles.get? m = some other → hd.page = other.page →
      E.pool.Together n hd other := by
  have ht := h.tidy
  refine ⟨fun n hd hn => ?_, ?_, fun n m hd other hn hm hpage => ?_⟩
  · exact ⟨h.pinned n hd hn, Pool.frame?_of_resident ht (h.pinned n hd hn)⟩
  · rw [Cache.ids_copies ht]
    exact E.pool.cache.resident.keys_nodup
  · exact Pool.together_of_pinned ht h.pinned hn hm hpage

/-- A transaction keeps a handle beyond its end, the only frame is asked for in vain, and another
    transaction has a handle on the same page. -/
def outlived : List (Move Recency) :=
  [.event (.submit ⟨1⟩ (.fetch ⟨⟨1⟩, 0⟩ .readWrite true)), .event (.step ⟨0⟩),
    .event (.act (.write ⟨0⟩ (.fill 5))), .event (.act (.finish ⟨1⟩ .commit)),
    .event (.submit ⟨2⟩ (.fetch ⟨⟨1⟩, 1⟩ .readOnly true)), .event (.step ⟨1⟩),
    .event (.submit ⟨2⟩ (.fetch ⟨⟨1⟩, 0⟩ .readWrite true)), .event (.step ⟨2⟩)]

/-- What the second transaction writes is there for the handle of the first, and so is what comes of
    its commit. -/
theorem one_copy_while_pinned_outlived :
    (((tiny 1 ({} : Recency)).moves outlived).pool.edit ⟨1⟩ (.fill 7)).1.cache.frame? ⟨0⟩ =
      some ⟨⟨⟨1⟩, 0⟩, #[7, 7], some ⟨2⟩⟩ ∧
    (((tiny 1 ({} : Recency)).moves outlived).pool.finishIn [⟨⟨1⟩, 0⟩] ⟨2⟩ .commit).1.cache.frame?
      ⟨0⟩ = some ⟨⟨⟨1⟩, 0⟩, #[5, 5], none⟩ := by
  have harises : ((tiny 1 ({} : Recency)).moves outlived).Arises fun E m => E.givesUp m = false :=
    (Arises.fresh (fresh_tiny 1 ({} : Recency))).moves (by decide +kernel)
  have htogether := (one_copy_while_pinned harises).2.2 ⟨1⟩ ⟨0⟩
    ⟨⟨⟨1⟩, 0⟩, ⟨0⟩, ⟨2⟩, .readWrite⟩ ⟨⟨⟨1⟩, 0⟩, ⟨0⟩, ⟨1⟩, .readWrite⟩ (by decide +kernel)
    (by decide +kernel) rfl
  have hbytes : ((tiny 1 ({} : Recency)).moves outlived).pool.bytesOf
      ⟨⟨⟨1⟩, 0⟩, ⟨0⟩, ⟨1⟩, .readWrite⟩ = #[5, 5] := by decide +kernel
  have hwritten := htogether.written (.fill 7) (by decide +kernel)
  have hcommitted := htogether.committed [⟨⟨1⟩, 0⟩] ⟨2⟩ (by decide) (by decide +kernel)
  have hfilled : (Edit.fill 7).apply #[5, 5] = #[7, 7] := by decide +kernel
  rw [hbytes] at hwritten hcommitted
  rw [hfilled] at hwritten
  exact ⟨hwritten, hcommitted⟩

end Engine

end RowStore
