import RowStore.Proofs.CacheFrames
import RowStore.Proofs.PageImage

/-!
# Copies and Images

A page can be in two places, in its table's file and as a copy in memory. Here is
what keeps the two together.

Seen from outside a page has one block of bytes: those of the copy if there is
one, else those of the image. That is `Pool.shown`. A pool is coherent if every
copy is a copy of a page that is there, of the right length, and differs from the
image only if it is dirty. Then a copy that is clean can come and go, and nobody
can tell: loading and eviction are `Quiet`. Only a write by a handle changes what
is shown, and of one page only.

A handle can outlive the residency of its page, if the page was made to leave while
the handle was on it. Writing by such a handle changes a copy that nobody sees.

## Main definitions

* `Pool.shown`: The bytes of a page as seen from outside.
* `Pool.owner?`: Whose changes a dirty copy has.
* `Pool.Coherent`: Copies and images agree but for the dirty ones.
* `Pool.Pinned`: Every handle is on the resident copy of its page.
* `Pool.Keeps`: Nothing but the cache, and bytes inside the tables' files, has changed.
* `Pool.Quiet`: Nothing has changed that can be seen from outside.
* `Pool.marked`: The pool after a write by a handle has begun.

## Theorems

* `fetch_cases`: A page that is fetched is resident, and nothing else has happened.
* `coherent_marked`, `coherent_setBytes`: Writing by a handle keeps a pool coherent.
* `shown_setBytes`: What a write changes.
-/

namespace RowStore

namespace Pool

variable {ρ : Type}

/-- The bytes of a page as seen from outside. -/
def shown (P : Pool ρ) (p : PageId) : Bytes := ((P.cache.page? p).map Page.bytes).getD (P.stored p)

/-- The transaction that was the last to change the copy of a page, if the copy is dirty. -/
def owner? (P : Pool ρ) (p : PageId) : Option TxnId := (P.cache.page? p).bind Page.dirtiedBy

/-- A copy is of a page that is there, is as long as its image, and has the image's bytes if it is
    clean. -/
structure Mirrors (P : Pool ρ) (page : Page) : Prop where
  here : P.Has page.id
  size : page.bytes.size = (P.stored page.id).size
  clean : page.dirtiedBy = none → page.bytes = P.stored page.id

/-- Copies and images agree but for the copies that are dirty. -/
structure Coherent (P : Pool ρ) : Prop where
  laid : P.Laid
  tidy : P.cache.Tidy
  copies : ∀ p page, P.cache.page? p = some page → P.Mirrors page

/-- Every handle is on the resident copy of its page. -/
def Pinned (P : Pool ρ) : Prop :=
  ∀ n h, P.cache.handles.get? n = some h → P.cache.resident.get? h.page = some h.frame

/-- Every resident page is one that the device lets be read. -/
def Readable (P : Pool ρ) : Prop :=
  ∀ p, P.cache.resident.get? p ≠ none → P.faults.onRead p = none

/-- Nothing has changed but the cache, and bytes inside the tables' files. The handles are those
    there were. -/
structure Keeps (P Q : Pool ρ) : Prop where
  tables : Q.tables = P.tables
  locks : Q.locks = P.locks
  ids : Q.ids = P.ids
  faults : Q.faults = P.faults
  limit : Q.disk.limit = P.disk.limit
  sizes : ∀ t f, P.tables.get? t = some f →
    (Q.disk.image f.file).size = (P.disk.image f.file).size
  others : ∀ n, (∀ t f, P.tables.get? t = some f → f.file ≠ n) →
    Q.disk.image n = P.disk.image n
  capacity : Q.cache.capacity = P.cache.capacity
  handles : Q.cache.handles = P.cache.handles
  nextHandle : Q.cache.nextHandle = P.cache.nextHandle
  readable : P.Readable → Q.Readable

/-- Nothing has changed that can be seen from outside. -/
structure Quiet (P Q : Pool ρ) : Prop extends Keeps P Q where
  disk : Q.disk = P.disk
  shown : Q.shown = P.shown
  owner : Q.owner? = P.owner?
  pinned : P.Pinned → Q.Pinned

theorem Keeps.refl (P : Pool ρ) : Keeps P P :=
  ⟨rfl, rfl, rfl, rfl, rfl, fun _ _ _ => rfl, fun _ _ => rfl, rfl, rfl, rfl, id⟩

theorem Keeps.trans {P Q R : Pool ρ} (h : Keeps P Q) (h' : Keeps Q R) : Keeps P R where
  tables := h'.tables.trans h.tables
  locks := h'.locks.trans h.locks
  ids := h'.ids.trans h.ids
  faults := h'.faults.trans h.faults
  limit := h'.limit.trans h.limit
  sizes t f hf := (h'.sizes t f (h.tables ▸ hf)).trans (h.sizes t f hf)
  others n hn := (h'.others n (h.tables ▸ hn)).trans (h.others n hn)
  capacity := h'.capacity.trans h.capacity
  handles := h'.handles.trans h.handles
  nextHandle := h'.nextHandle.trans h.nextHandle
  readable := h'.readable ∘ h.readable

theorem Quiet.refl (P : Pool ρ) : Quiet P P := ⟨Keeps.refl P, rfl, rfl, rfl, id⟩

theorem Quiet.trans {P Q R : Pool ρ} (h : Quiet P Q) (h' : Quiet Q R) : Quiet P R :=
  ⟨h.toKeeps.trans h'.toKeeps, h'.disk.trans h.disk, h'.shown.trans h.shown,
    h'.owner.trans h.owner, h'.pinned ∘ h.pinned⟩

/-- A change to the cache that leaves the handles alone. -/
theorem keeps_cache {P : Pool ρ} {c : Cache ρ} (hcap : c.capacity = P.cache.capacity)
    (hh : c.handles = P.cache.handles) (hn : c.nextHandle = P.cache.nextHandle)
    (hr : P.Readable → Readable { P with cache := c }) : Keeps P { P with cache := c } :=
  ⟨rfl, rfl, rfl, rfl, rfl, fun _ _ _ => rfl, fun _ _ => rfl, hcap, hh, hn, hr⟩

theorem Keeps.pagesOn {P Q : Pool ρ} (h : Keeps P Q) {t : TableId} {f : TableFile}
    (hf : P.tables.get? t = some f) : f.pagesOn Q.disk = f.pagesOn P.disk := by
  unfold TableFile.pagesOn
  rw [h.sizes t f hf]

theorem Keeps.has {P Q : Pool ρ} (h : Keeps P Q) {p : PageId} (hp : P.Has p) : Q.Has p := by
  rcases hp with ⟨f, hf, hn⟩
  exact ⟨f, h.tables ▸ hf, (h.pagesOn hf).symm ▸ hn⟩

theorem Keeps.bounded {P Q : Pool ρ} (h : Keeps P Q) (hb : P.Bounded) : Q.Bounded := by
  intro t f hf
  rw [h.tables] at hf
  rw [h.pagesOn hf]
  exact hb t f hf

theorem Quiet.stored {P Q : Pool ρ} (h : Quiet P Q) : Q.stored = P.stored :=
  stored_congr h.tables h.disk

theorem Mirrors.congr {P Q : Pool ρ} {page : Page} (h : P.Mirrors page)
    (ht : Q.tables = P.tables) (hd : Q.disk = P.disk) : Q.Mirrors page := by
  refine ⟨h.here.congr ht hd, ?_, ?_⟩
  · rw [stored_congr ht hd]
    exact h.size
  · rw [stored_congr ht hd]
    exact h.clean

/-- Where copies and images are and which tables there are is all that coherence is about. -/
theorem Coherent.congr {P Q : Pool ρ} (hc : P.Coherent) (hcache : Q.cache = P.cache)
    (hd : Q.disk = P.disk) (ht : Q.tables = P.tables) : Q.Coherent where
  laid := hc.laid.congr ht hd
  tidy := hcache ▸ hc.tidy
  copies p page hp := by
    rw [hcache] at hp
    exact (hc.copies p page hp).congr ht hd

/-! ## What is shown -/

theorem shown_of_page {P : Pool ρ} {p : PageId} {page : Page}
    (h : P.cache.page? p = some page) : P.shown p = page.bytes := by
  unfold shown
  rw [h]
  rfl

theorem shown_of_absent {P : Pool ρ} {p : PageId} (h : P.cache.page? p = none) :
    P.shown p = P.stored p := by
  unfold shown
  rw [h]
  rfl

theorem owner?_of_page {P : Pool ρ} {p : PageId} {page : Page}
    (h : P.cache.page? p = some page) : P.owner? p = page.dirtiedBy := by
  unfold owner?
  rw [h]
  rfl

theorem owner?_of_absent {P : Pool ρ} {p : PageId} (h : P.cache.page? p = none) :
    P.owner? p = none := by
  unfold owner?
  rw [h]
  rfl

theorem isDirty_eq (P : Pool ρ) (p : PageId) : P.cache.isDirty p = (P.owner? p).isSome := by
  unfold Cache.isDirty owner?
  cases P.cache.page? p with
  | none => rfl
  | some page => rfl

/-- What is shown of a page depends on its copy and on what is stored. -/
theorem shown_congr {P Q : Pool ρ} {p : PageId} (hp : Q.cache.page? p = P.cache.page? p)
    (hs : Q.stored p = P.stored p) : Q.shown p = P.shown p := by
  unfold shown
  rw [hp, hs]

theorem owner?_congr {P Q : Pool ρ} {p : PageId} (hp : Q.cache.page? p = P.cache.page? p) :
    Q.owner? p = P.owner? p := by
  unfold owner?
  rw [hp]

section Coherent

variable {P : Pool ρ} (hc : P.Coherent)

include hc

theorem Coherent.mirrors {p : PageId} {page : Page} (h : P.cache.page? p = some page) :
    page.id = p ∧ P.Mirrors page := by
  rcases hc.tidy.resident_of_page h with ⟨_, _, _, hid⟩
  exact ⟨hid, hc.copies p page h⟩

/-- What is shown of a page without a dirty copy is its image. -/
theorem Coherent.shown_clean {p : PageId} (h : P.owner? p = none) : P.shown p = P.stored p := by
  cases hp : P.cache.page? p with
  | none => exact shown_of_absent hp
  | some page =>
      rcases hc.mirrors hp with ⟨rfl, hm⟩
      rw [owner?_of_page hp] at h
      rw [shown_of_page hp]
      exact hm.clean h

/-- A handle on the resident copy of its page reads what is shown of the page. -/
theorem Coherent.bytesOf_eq {h : Handle} (hr : P.cache.resident.get? h.page = some h.frame) :
    P.bytesOf h = P.shown h.page := by
  rcases hc.tidy.exists_page hr with ⟨page, hp, hf, _⟩
  rw [shown_of_page hp, bytesOf, hf]
  rfl

/-- What is shown of a page has the size of a page. -/
theorem Coherent.size_shown {p : PageId} {f : TableFile}
    (hf : P.tables.get? p.table = some f) : (P.shown p).size = f.layout.pageSize := by
  have hstored : (P.stored p).size = f.layout.pageSize := by
    rw [stored_of_table hf, TableFile.size_imageOn]
  cases hp : P.cache.page? p with
  | none => rw [shown_of_absent hp, hstored]
  | some page =>
      rcases hc.mirrors hp with ⟨rfl, hm⟩
      rw [shown_of_page hp, hm.size, hstored]

/-- A page that is resident is one of a table that is known. -/
theorem Coherent.known_of_resident {p : PageId} {f : FrameNo}
    (hr : P.cache.resident.get? p = some f) : ∃ g, P.tables.get? p.table = some g := by
  rcases hc.tidy.exists_page hr with ⟨page, hp, _⟩
  rcases hc.mirrors hp with ⟨rfl, hm⟩
  rcases hm.here with ⟨g, hg, _⟩
  exact ⟨g, hg⟩

/-- A change to the cache keeps a pool coherent if every copy that is resident then is one of its
    page's image. -/
theorem Coherent.of_cache {c : Cache ρ} (ht : c.Tidy)
    (hm : ∀ p page, c.page? p = some page → P.Mirrors page) :
    Coherent { P with cache := c } where
  laid := hc.laid.congr rfl rfl
  tidy := ht
  copies p page hp := (hm p page hp).congr rfl rfl

/-! ## Coming and going -/

theorem quiet_order (order : ρ) :
    Quiet P { P with cache := { P.cache with order } } ∧
      Coherent { P with cache := { P.cache with order } } := by
  refine ⟨⟨keeps_cache rfl rfl rfl id, rfl, rfl, rfl, id⟩, ?_⟩
  exact hc.of_cache (Cache.tidy_order hc.tidy order) hc.copies

/-- A copy that is clean and has no handle can leave. -/
theorem quiet_vacated {p : PageId} {f : FrameNo} (hp : P.cache.resident.get? p = some f)
    (he : P.cache.isEvictable f = true) (order : ρ) :
    Quiet P { P with cache := P.cache.vacated p f order } ∧
      Coherent { P with cache := P.cache.vacated p f order } := by
  have hpage := Cache.page?_vacated hc.tidy hp order
  rcases hc.tidy.exists_page hp with ⟨page, hpp, hf, _⟩
  have hclean := Cache.clean_of_evictable he hf
  have ho : P.owner? p = none := (owner?_of_page hpp).trans hclean
  have hnone : (P.cache.vacated p f order).page? p = none := by rw [hpage, if_pos rfl]
  refine ⟨⟨keeps_cache rfl rfl rfl ?_, rfl, ?_, ?_, ?_⟩, ?_⟩
  · intro hread q hq
    refine hread q fun hn => hq ?_
    simp only [Cache.vacated, Assoc.get?_erase, hn, ite_self]
  · funext q
    by_cases hq : q = p
    · -- The copy was clean, so its bytes are still to be had from the image.
      rw [hq, hc.shown_clean ho]
      exact shown_of_absent hnone
    · exact shown_congr (by rw [hpage, if_neg hq]) rfl
  · funext q
    by_cases hq : q = p
    · rw [hq, ho]
      exact owner?_of_absent hnone
    · exact owner?_congr (by rw [hpage, if_neg hq])
  · intro hpin n h hn
    -- A handle on this page would have kept it from leaving.
    have hne : h.page ≠ p := by
      intro heq
      have hfr := hpin n h hn
      rw [heq, hp] at hfr
      exact Cache.frame_ne_of_evictable he hn (Option.some.inj hfr).symm
    exact (Assoc.get?_erase_other _ hne).trans (hpin n h hn)
  · refine hc.of_cache (Cache.tidy_vacated hc.tidy hp order he) fun q page' hq => ?_
    rw [hpage] at hq
    split at hq
    · cases hq
    · exact hc.copies q page' hq

/-- The image of a page that has no copy can be taken in as one. -/
theorem quiet_housed {p : PageId} (hp : P.cache.resident.get? p = none) (hh : P.Has p)
    (hr : P.faults.onRead p = none) (order : ρ) :
    Quiet P { P with cache := P.cache.housed ⟨p, P.stored p, none⟩ order } ∧
      Coherent { P with cache := P.cache.housed ⟨p, P.stored p, none⟩ order } := by
  have hpage := Cache.page?_housed hc.tidy ⟨p, P.stored p, none⟩ order
  have hnone : P.cache.page? p = none := Cache.page?_of_absent hp
  have hsome : (P.cache.housed ⟨p, P.stored p, none⟩ order).page? p =
      some ⟨p, P.stored p, none⟩ := by rw [hpage, if_pos rfl]
  refine ⟨⟨keeps_cache rfl rfl rfl ?_, rfl, ?_, ?_, ?_⟩, ?_⟩
  · intro hread q hq
    by_cases hqp : q = p
    · rw [hqp]
      exact hr
    · refine hread q fun hn => hq ?_
      simp only [Cache.housed, Assoc.get?_insert, if_neg hqp, hn]
  · funext q
    by_cases hq : q = p
    · -- Without a copy the image was shown, and the new copy has the bytes of it.
      rw [hq, shown_of_absent hnone]
      exact shown_of_page (P := { P with cache := _ }) hsome
    · exact shown_congr (by rw [hpage, if_neg hq]) rfl
  · funext q
    by_cases hq : q = p
    · rw [hq, owner?_of_absent hnone]
      exact owner?_of_page (P := { P with cache := _ }) hsome
    · exact owner?_congr (by rw [hpage, if_neg hq])
  · intro hpin n h hn
    -- No handle was on this page, since it had no frame.
    have hne : h.page ≠ p := by
      intro heq
      have hfr := hpin n h hn
      rw [heq, hp] at hfr
      cases hfr
    exact (Assoc.get?_insert_other _ _ hne).trans (hpin n h hn)
  · refine hc.of_cache (Cache.tidy_housed hc.tidy _ order) fun q page' hq => ?_
    rw [hpage] at hq
    split at hq
    · cases hq
      exact ⟨hh, rfl, fun _ => rfl⟩
    · exact hc.copies q page' hq

/-- Fetching a page cannot be seen from outside. It gives the page's frame, unless the page cannot
    be loaded or there is no room for it. -/
theorem fetch_cases [EvictionOrder ρ] (p : PageId) :
    ∃ Q, Quiet P Q ∧ Q.Coherent ∧
      ((∃ f, P.fetch p = (Q, .ok f) ∧ Q.cache.resident.get? p = some f) ∨
        P.fetch p = (Q, .error (.noEvictableFrame P.cache.capacity)) ∨
        ∃ e, P.fetch p = (Q, .error e) ∧ P.cache.resident.get? p = none ∧
          P.loadImage p = .error e) := by
  unfold fetch
  cases hr : P.cache.resident.get? p with
  | some f =>
      rcases quiet_order hc (EvictionOrder.touch P.cache.order p) with ⟨hq, hc'⟩
      exact ⟨_, hq, hc', Or.inl ⟨f, rfl, hr⟩⟩
  | none =>
      simp only
      cases hl : P.loadImage p with
      | error e => exact ⟨P, Quiet.refl P, hc, Or.inr (Or.inr ⟨e, rfl, trivial, rfl⟩)⟩
      | ok image =>
          rcases loadImage_eq_ok hl with ⟨rfl, hh, hread⟩
          simp only
          -- No page may leave, or the page gets a frame to spare, or it comes after another page
          -- has left.
          rcases P.cache.takeIn_cases ⟨p, P.stored p, none⟩ with
            ⟨order, ht⟩ | ⟨order, ht⟩ | ⟨q, f, order, order', hq, he, ht⟩
          · rcases quiet_order hc order with ⟨hqu, hc'⟩
            rw [ht]
            exact ⟨_, hqu, hc', Or.inr (Or.inl rfl)⟩
          · rcases quiet_housed hc hr hh hread order with ⟨hqu, hc'⟩
            rw [ht]
            exact ⟨_, hqu, hc', Or.inl ⟨_, rfl, Assoc.get?_insert_self _ _ _⟩⟩
          · rcases quiet_vacated hc hq he order with ⟨hqu, hc'⟩
            -- What left is not what comes.
            have hr' : (P.cache.vacated q f order).resident.get? p = none := by
              simp only [Cache.vacated, Assoc.get?_erase, hr, ite_self]
            rcases quiet_housed hc' hr' (hqu.has hh) hread order' with ⟨hqu', hc''⟩
            rw [ht]
            exact ⟨_, hqu.trans hqu', hc'', Or.inl ⟨_, rfl, Assoc.get?_insert_self _ _ _⟩⟩

end Coherent

/-! ## Writing by a handle -/

/-- The pool after a write by a handle has begun. -/
def marked (P : Pool ρ) (h : Handle) : Pool ρ :=
  { P with cache := P.cache.updateFrame h.frame (Page.mark · (some h.txn)) }

/-- The handle's frame has a copy of the handle's page, whether the page is resident there or
    not. -/
def Grasps (P : Pool ρ) (h : Handle) : Prop :=
  ∃ page, P.cache.frame? h.frame = some page ∧ page.id = h.page

theorem openWrite_eq (P : Pool ρ) (h : Handle) :
    P.openWrite h = (P.checkWrite h).map fun _ => P.marked h := by
  unfold openWrite marked
  cases P.checkWrite h <;> rfl

/-- Who may write by a handle holds the page to write. -/
theorem mode?_of_checkWrite {P : Pool ρ} {h : Handle} (hw : P.checkWrite h = .ok ()) :
    P.locks.mode? h.txn h.page = some .exclusive := by
  unfold checkWrite at hw
  split at hw
  · cases hw
  · split at hw
    · cases hw
    · rename_i hm
      exact Classical.not_not.1 hm

theorem grasps_of_resident {P : Pool ρ} (hc : P.Coherent) {h : Handle}
    (hr : P.cache.resident.get? h.page = some h.frame) : P.Grasps h :=
  hc.tidy.framed _ _ hr

theorem keeps_updateFrame {P : Pool ρ} (f : FrameNo) (change : Page → Page) :
    Keeps P { P with cache := P.cache.updateFrame f change } :=
  keeps_cache rfl rfl rfl id

section Grasps

variable {P : Pool ρ} {h : Handle} (hg : P.Grasps h)

include hg

theorem grasps_marked : (P.marked h).Grasps h := by
  rcases hg with ⟨page, hf, hid⟩
  refine ⟨page.mark (some h.txn), ?_, hid⟩
  unfold marked
  rw [Cache.frame?_updateFrame, if_pos rfl, hf]
  rfl

theorem bytesOf_marked : (P.marked h).bytesOf h = P.bytesOf h := by
  rcases hg with ⟨page, hf, _⟩
  unfold bytesOf marked
  rw [Cache.frame?_updateFrame, if_pos rfl, hf]
  rfl

section Tidy

variable (ht : P.cache.Tidy)

include ht

theorem page?_updateFrame (change : Page → Page) (q : PageId) :
    (P.cache.updateFrame h.frame change).page? q =
      if q = h.page ∧ P.cache.resident.get? h.page = some h.frame then (P.cache.page? q).map change
      else P.cache.page? q := by
  rw [Cache.page?_updateFrame]
  by_cases hq : P.cache.resident.get? q = some h.frame
  · -- Resident in this frame is the page of the copy that it has, which is the handle's.
    rcases hg with ⟨page, hf, hid⟩
    rcases ht.framed q _ hq with ⟨page', hf', rfl⟩
    have he : page'.id = h.page := by rw [← hid, Option.some.inj (hf.symm.trans hf')]
    rw [if_pos hq, if_pos ⟨he, he ▸ hq⟩]
  · rw [if_neg hq, if_neg]
    rintro ⟨rfl, hr⟩
    exact hq hr

theorem shown_marked : (P.marked h).shown = P.shown := by
  funext q
  unfold shown
  rw [marked, page?_updateFrame hg ht]
  split
  · cases P.cache.page? q <;> rfl
  · rfl

theorem owner?_marked (q : PageId) :
    (P.marked h).owner? q =
      if q = h.page ∧ P.cache.resident.get? h.page = some h.frame then some h.txn
      else P.owner? q := by
  unfold owner?
  rw [marked, page?_updateFrame hg ht]
  split
  · rename_i hqr
    rcases hqr with ⟨rfl, hr⟩
    rcases ht.exists_page hr with ⟨page, hp, _, _⟩
    rw [hp]
    rfl
  · rfl

theorem shown_setBytes (bytes : Bytes) (q : PageId) :
    (P.setBytes h bytes).shown q =
      if q = h.page ∧ P.cache.resident.get? h.page = some h.frame then bytes else P.shown q := by
  unfold shown
  rw [setBytes, page?_updateFrame hg ht]
  split
  · rename_i hqr
    rcases hqr with ⟨rfl, hr⟩
    rcases ht.exists_page hr with ⟨page, hp, _, _⟩
    rw [hp]
    rfl
  · rfl

theorem owner?_setBytes (bytes : Bytes) : (P.setBytes h bytes).owner? = P.owner? := by
  funext q
  unfold owner?
  rw [setBytes, page?_updateFrame hg ht]
  split
  · cases P.cache.page? q <;> rfl
  · rfl

end Tidy

section Coherent

variable (hc : P.Coherent)

include hc

/-- The change to the copy that a handle is on keeps the pool coherent, if the copy is dirty
    afterwards and as long as it was. -/
theorem coherent_updateFrame {change : Page → Page} (hid : ∀ page, (change page).id = page.id)
    (hsize : ∀ page, P.cache.frame? h.frame = some page →
      (change page).bytes.size = page.bytes.size)
    (hdirty : ∀ page, P.cache.frame? h.frame = some page → (change page).dirtiedBy ≠ none) :
    Coherent { P with cache := P.cache.updateFrame h.frame change } := by
  refine hc.of_cache (Cache.tidy_updateFrame hc.tidy _ hid) fun q page hq => ?_
  rw [page?_updateFrame hg hc.tidy] at hq
  split at hq
  · rename_i hqr
    rcases hqr with ⟨rfl, hr⟩
    rw [Cache.page?_of_resident hr] at hq
    rcases Option.map_eq_some_iff.1 hq with ⟨page', hf, rfl⟩
    have hm := hc.copies h.page page' ((Cache.page?_of_resident hr).trans hf)
    -- The copy is dirty, so of its bytes nothing is asked but how many there are.
    refine ⟨?_, ?_, fun hn => absurd hn (hdirty page' hf)⟩
    · rw [hid]
      exact hm.here
    · rw [hid, hsize page' hf]
      exact hm.size
  · exact hc.copies q page hq

theorem coherent_marked : (P.marked h).Coherent :=
  coherent_updateFrame hg hc (fun _ => rfl) (fun _ _ => rfl) (fun _ _ hn => by cases hn)

/-- The copy whose bytes are set has to be dirty already. -/
theorem coherent_setBytes {bytes : Bytes} (hs : bytes.size = (P.bytesOf h).size)
    (hd : ∀ page, P.cache.frame? h.frame = some page → page.dirtiedBy ≠ none) :
    (P.setBytes h bytes).Coherent := by
  refine coherent_updateFrame hg hc (fun _ => rfl) (fun page hf => ?_) hd
  rw [Page.setBytes, hs, bytesOf, hf]
  rfl

end Coherent

end Grasps

end Pool

end RowStore
