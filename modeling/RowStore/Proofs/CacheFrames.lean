import RowStore.Cache

/-!
# Frames of the Cache

What each operation of the cache does to the copies of the resident pages.

The cache finds a page's copy in two steps, from the page to its frame and from
the frame to the copy, and handles go to the frame directly. `Cache.page?` is the
two steps in one. Everything the store does to resident pages is told by it here,
under the condition that the steps fit together: that a resident page has a frame,
that the frame has a copy of this page and no other, and that frames get numbers
that no one had before. `Cache.Tidy` says so, and every operation keeps it.

Which page makes room for another is up to the order of eviction. `takeIn_cases`
says all that can be said for any order: what leaves may leave.

## Main definitions

* `Cache.Tidy`: Pages, frames and handles fit together.
* `Cache.vacated`: The cache after a page left with its frame.
* `Cache.housed`: The cache after a copy got a frame of its own.

## Theorems

* `takeIn_cases`: What can happen when a page is taken in.
* `page?_vacated`, `page?_housed`, `page?_updateFrame`, `page?_discard`: The copies after each
  operation.
-/

namespace RowStore

namespace Cache

variable {ρ : Type}

/-- A resident page has a frame with a copy of it, a handle's frame has a copy of its page, and the
    number of the next frame is new. -/
structure Tidy (c : Cache ρ) : Prop where
  framed : ∀ p f, c.resident.get? p = some f → ∃ page, c.frame? f = some page ∧ page.id = p
  handled : ∀ n h, c.handles.get? n = some h →
    ∃ page, c.frame? h.frame = some page ∧ page.id = h.page
  numbered : ∀ f page, c.frame? f = some page → f.val < c.nextFrame

/-- The cache after a page left with its frame. -/
def vacated (c : Cache ρ) (p : PageId) (f : FrameNo) (order : ρ) : Cache ρ :=
  { c with resident := c.resident.erase p, frames := c.frames.erase f, order }

/-- The cache after a copy got a frame of its own. -/
def housed (c : Cache ρ) (image : Page) (order : ρ) : Cache ρ :=
  { c with
    resident := c.resident.insert image.id ⟨c.nextFrame⟩
    frames := c.frames.insert ⟨c.nextFrame⟩ image
    nextFrame := c.nextFrame + 1
    order }

theorem page?_of_resident {c : Cache ρ} {p : PageId} {f : FrameNo}
    (h : c.resident.get? p = some f) : c.page? p = c.frame? f := by
  simp only [page?, h, Option.bind_some]

theorem page?_of_absent {c : Cache ρ} {p : PageId} (h : c.resident.get? p = none) :
    c.page? p = none := by
  simp only [page?, h, Option.bind_none]

section Tidy

variable {c : Cache ρ} (ht : c.Tidy)

include ht

theorem Tidy.exists_page {p : PageId} {f : FrameNo} (h : c.resident.get? p = some f) :
    ∃ page, c.page? p = some page ∧ c.frame? f = some page ∧ page.id = p := by
  rcases ht.framed p f h with ⟨page, hf, hid⟩
  exact ⟨page, (page?_of_resident h).trans hf, hf, hid⟩

theorem Tidy.resident_of_page {p : PageId} {page : Page} (h : c.page? p = some page) :
    ∃ f, c.resident.get? p = some f ∧ c.frame? f = some page ∧ page.id = p := by
  cases hr : c.resident.get? p with
  | none =>
      rw [page?_of_absent hr] at h
      cases h
  | some f =>
      rcases ht.exists_page hr with ⟨page', hp, hf, hid⟩
      have he : page' = page := Option.some.inj (hp.symm.trans h)
      exact ⟨f, rfl, he ▸ hf, he ▸ hid⟩

/-- No frame is the frame of two pages. -/
theorem Tidy.frame_inj {p q : PageId} {f : FrameNo} (hp : c.resident.get? p = some f)
    (hq : c.resident.get? q = some f) : p = q := by
  rcases ht.framed p f hp with ⟨page, hf, rfl⟩
  rcases ht.framed q f hq with ⟨page', hf', rfl⟩
  rw [Option.some.inj (hf.symm.trans hf')]

theorem Tidy.ne_next {f : FrameNo} {page : Page} (h : c.frame? f = some page) :
    f ≠ ⟨c.nextFrame⟩ := by
  rintro rfl
  exact Nat.lt_irrefl _ (ht.numbered _ page h)

omit ht in
/-- A handle on a frame keeps it from being vacated. -/
theorem frame_ne_of_evictable {f : FrameNo} (he : c.isEvictable f = true) {n : HandleNo}
    {h : Handle} (hn : c.handles.get? n = some h) : h.frame ≠ f := by
  rintro rfl
  -- The handle is one of those that are counted, so its frame is pinned.
  have hm : h ∈ c.handles.values :=
    List.mem_map.2 ⟨(n, h), (Assoc.mem_entries_iff _ n h).2 hn, rfl⟩
  have hp : c.isPinned h.frame = true := List.any_eq_true.2 ⟨h, hm, decide_eq_true rfl⟩
  simp [isEvictable, hp] at he

/-! ## The record of use -/

theorem tidy_order (order : ρ) : Tidy { c with order } := ⟨ht.framed, ht.handled, ht.numbered⟩

/-! ## Leaving -/

omit ht in
theorem clean_of_evictable {f : FrameNo} {page : Page} (he : c.isEvictable f = true)
    (hf : c.frame? f = some page) : page.dirtiedBy = none := by
  simp only [isEvictable, hf, Option.any_some, Bool.and_eq_true, Bool.not_eq_true', Page.isDirty,
    Option.isSome_eq_false_iff, Option.isNone_iff_eq_none] at he
  exact he.2

section vacated

variable {p : PageId} {f : FrameNo} (hp : c.resident.get? p = some f) (order : ρ)

include hp

theorem page?_vacated (q : PageId) :
    (c.vacated p f order).page? q = if q = p then none else c.page? q := by
  by_cases hq : q = p
  · subst hq
    rw [if_pos rfl]
    exact page?_of_absent (Assoc.get?_erase_self _ _)
  · rw [if_neg hq]
    have hr : (c.vacated p f order).resident.get? q = c.resident.get? q :=
      Assoc.get?_erase_other _ hq
    cases hrq : c.resident.get? q with
    | none => rw [page?_of_absent hrq, page?_of_absent (hr.trans hrq)]
    | some g =>
        -- The frame that goes was this page's alone.
        have hg : g ≠ f := by
          rintro rfl
          exact hq (ht.frame_inj hrq hp)
        rw [page?_of_resident hrq, page?_of_resident (hr.trans hrq)]
        exact Assoc.get?_erase_other _ hg

theorem tidy_vacated (he : c.isEvictable f = true) : (c.vacated p f order).Tidy := by
  refine ⟨?_, ?_, ?_⟩
  · intro q g hq
    have hqp : q ≠ p := by
      rintro rfl
      rw [vacated, Assoc.get?_erase_self] at hq
      cases hq
    have hq' : c.resident.get? q = some g := by
      rw [vacated, Assoc.get?_erase_other _ hqp] at hq
      exact hq
    -- Pages that stay have other frames.
    have hg : g ≠ f := by
      rintro rfl
      exact hqp (ht.frame_inj hq' hp)
    rcases ht.framed q g hq' with ⟨page, hf, hid⟩
    exact ⟨page, (Assoc.get?_erase_other _ hg).trans hf, hid⟩
  · intro n h hn
    -- So have handles, because the frame was not pinned.
    rcases ht.handled n h hn with ⟨page, hf, hid⟩
    exact ⟨page, (Assoc.get?_erase_other _ (frame_ne_of_evictable he hn)).trans hf, hid⟩
  · intro g page hg
    unfold frame? vacated at hg
    simp only [Assoc.get?_erase] at hg
    split at hg
    · cases hg
    · exact ht.numbered g page hg

end vacated

/-! ## Coming -/

theorem page?_housed (image : Page) (order : ρ) (q : PageId) :
    (c.housed image order).page? q = if q = image.id then some image else c.page? q := by
  by_cases hq : q = image.id
  · subst hq
    rw [if_pos rfl, page?_of_resident (Assoc.get?_insert_self _ _ _)]
    exact Assoc.get?_insert_self _ _ _
  · rw [if_neg hq]
    have hr : (c.housed image order).resident.get? q = c.resident.get? q :=
      Assoc.get?_insert_other _ _ hq
    cases hrq : c.resident.get? q with
    | none => rw [page?_of_absent hrq, page?_of_absent (hr.trans hrq)]
    | some g =>
        -- The new frame has a number that no frame had.
        rcases ht.framed q g hrq with ⟨page, hf, _⟩
        rw [page?_of_resident hrq, page?_of_resident (hr.trans hrq)]
        exact Assoc.get?_insert_other _ _ (ht.ne_next hf)

theorem frame?_housed {f : FrameNo} {page : Page} (h : c.frame? f = some page) (image : Page)
    (order : ρ) : (c.housed image order).frame? f = some page :=
  (Assoc.get?_insert_other _ _ (ht.ne_next h)).trans h

theorem tidy_housed (image : Page) (order : ρ) : (c.housed image order).Tidy := by
  refine ⟨?_, ?_, ?_⟩
  · intro q g hq
    unfold housed at hq
    simp only [Assoc.get?_insert] at hq
    split at hq
    · rename_i h
      cases hq
      exact ⟨image, Assoc.get?_insert_self _ _ _, h.symm⟩
    · rcases ht.framed q g hq with ⟨page, hf, hid⟩
      exact ⟨page, frame?_housed ht hf image order, hid⟩
  · intro n h hn
    rcases ht.handled n h hn with ⟨page, hf, hid⟩
    exact ⟨page, frame?_housed ht hf image order, hid⟩
  · intro g page hg
    unfold frame? housed at hg
    simp only [Assoc.get?_insert] at hg
    split at hg
    · rename_i h
      rw [h]
      exact Nat.lt_succ_self _
    · exact Nat.lt_succ_of_lt (ht.numbered g page hg)

/-! ## Changes to a copy -/

omit ht in
theorem frame?_updateFrame (f g : FrameNo) (change : Page → Page) :
    (c.updateFrame f change).frame? g =
      if g = f then (c.frame? g).map change else c.frame? g :=
  Assoc.get?_modify _ _ _ _

omit ht in
theorem page?_updateFrame (f : FrameNo) (change : Page → Page) (q : PageId) :
    (c.updateFrame f change).page? q =
      if c.resident.get? q = some f then (c.page? q).map change else c.page? q := by
  have hr : (c.updateFrame f change).resident = c.resident := rfl
  unfold page?
  rw [hr]
  cases c.resident.get? q with
  | none => simp
  | some g => simp only [Option.bind_some, frame?_updateFrame, Option.some.injEq]

omit ht in
theorem frame?_updatePage (p : PageId) (change : Page → Page) (f : FrameNo) :
    (c.updatePage p change).frame? f =
      if c.resident.get? p = some f then (c.frame? f).map change else c.frame? f := by
  unfold updatePage
  cases hr : c.resident.get? p with
  | none => simp
  | some g =>
      simp only [frame?_updateFrame, Option.some.injEq]
      simp only [eq_comm]

theorem page?_updatePage (p : PageId) (change : Page → Page) (q : PageId) :
    (c.updatePage p change).page? q = if q = p then (c.page? q).map change else c.page? q := by
  unfold updatePage
  -- A change by page is one by frame, if the page has a frame.
  cases hr : c.resident.get? p with
  | none =>
      simp only
      by_cases hq : q = p
      · rw [if_pos hq, hq, page?_of_absent hr, Option.map_none]
      · rw [if_neg hq]
  | some f =>
      simp only [page?_updateFrame]
      by_cases hq : q = p
      · rw [if_pos hq, if_pos (hq ▸ hr)]
      · rw [if_neg hq, if_neg fun hrq => hq (ht.frame_inj hrq hr)]

theorem tidy_updateFrame (f : FrameNo) {change : Page → Page}
    (hid : ∀ page, (change page).id = page.id) : (c.updateFrame f change).Tidy := by
  -- The copy in a frame may change, but it is a copy of the same page.
  have hf : ∀ g page, c.frame? g = some page →
      ∃ page', (c.updateFrame f change).frame? g = some page' ∧ page'.id = page.id := by
    intro g page hg
    rw [frame?_updateFrame, hg]
    split
    · exact ⟨change page, rfl, hid page⟩
    · exact ⟨page, rfl, rfl⟩
  refine ⟨?_, ?_, ?_⟩
  · intro q g hq
    rcases ht.framed q g hq with ⟨page, hg, rfl⟩
    exact hf g page hg
  · intro n h hn
    rcases ht.handled n h hn with ⟨page, hg, hid'⟩
    rcases hf _ page hg with ⟨page', hg', he⟩
    exact ⟨page', hg', he.trans hid'⟩
  · intro g page hg
    rw [frame?_updateFrame] at hg
    split at hg
    · rcases Option.map_eq_some_iff.1 hg with ⟨page', hg', _⟩
      exact ht.numbered g page' hg'
    · exact ht.numbered g page hg

theorem tidy_updatePage (p : PageId) {change : Page → Page}
    (hid : ∀ page, (change page).id = page.id) : (c.updatePage p change).Tidy := by
  unfold updatePage
  split
  · exact tidy_updateFrame ht _ hid
  · exact ht

/-! ## Handles -/

theorem tidy_pin {h : Handle} (hr : c.resident.get? h.page = some h.frame) : (c.pin h).2.Tidy where
  framed := ht.framed
  handled n h' hn := by
    unfold pin at hn
    simp only [Assoc.get?_insert] at hn
    split at hn
    · cases hn
      exact ht.framed _ _ hr
    · exact ht.handled n h' hn
  numbered := ht.numbered

theorem tidy_unpin (n : HandleNo) : (c.unpin n).Tidy where
  framed := ht.framed
  handled m h hm := by
    unfold unpin at hm
    simp only [Assoc.get?_erase] at hm
    split at hm
    · cases hm
    · exact ht.handled m h hm
  numbered := ht.numbered

end Tidy

/-! ## Making room -/

variable [EvictionOrder ρ]

theorem page?_discard (c : Cache ρ) (p q : PageId) :
    (c.discard p).page? q = if q = p then none else c.page? q := by
  have hr : (c.discard p).resident.get? q = if q = p then none else c.resident.get? q :=
    Assoc.get?_erase _ _ _
  unfold page?
  rw [hr]
  split <;> rfl

theorem tidy_discard {c : Cache ρ} (ht : c.Tidy) (p : PageId) : (c.discard p).Tidy where
  framed q f hq := by
    unfold discard forget at hq
    simp only [Assoc.get?_erase] at hq
    split at hq
    · cases hq
    · exact ht.framed q f hq
  handled := ht.handled
  numbered := ht.numbered

/-- Whichever pages are proposed, one that may leave does so, or nothing but the record of use
    changes. -/
theorem evictFrom_cases (l : List PageId) (c : Cache ρ) :
    (∃ order, c.evictFrom l = ({ c with order }, false)) ∨
    (∃ p f order, c.resident.get? p = some f ∧ c.isEvictable f = true ∧
      c.evictFrom l = (c.vacated p f order, true)) := by
  -- Along the proposals: one that is not resident is struck off the record, one that is in use is
  -- passed over, and the first that may leave ends the search.
  induction l generalizing c with
  | nil => exact Or.inl ⟨c.order, rfl⟩
  | cons p rest ih =>
      unfold evictFrom
      cases hr : c.resident.get? p with
      | none => exact ih (c.forget p)
      | some f =>
          simp only
          by_cases he : c.isEvictable f = true
          · rw [if_pos he]
            exact Or.inr ⟨p, f, _, hr, he, rfl⟩
          · rw [if_neg he]
            exact ih c

/-- A page that is taken in gets the next frame, perhaps after another page left. If none may leave
    it is not taken in. -/
theorem takeIn_cases (c : Cache ρ) (image : Page) :
    (∃ order, c.takeIn image = ({ c with order }, none)) ∨
    (∃ order, c.takeIn image = (c.housed image order, some ⟨c.nextFrame⟩)) ∨
    (∃ p f order order', c.resident.get? p = some f ∧ c.isEvictable f = true ∧
      c.takeIn image = ((c.vacated p f order).housed image order', some ⟨c.nextFrame⟩)) := by
  unfold takeIn
  -- Nothing has to leave as long as there is a frame to spare.
  by_cases hs : c.size < c.capacity
  · rw [if_pos hs]
    exact Or.inr (Or.inl ⟨_, rfl⟩)
  · rw [if_neg hs]
    rcases evictFrom_cases (EvictionOrder.candidates c.order) c with
      ⟨order, h⟩ | ⟨p, f, order, hr, he, h⟩
    · exact Or.inl ⟨order, by rw [evict, h]⟩
    · exact Or.inr (Or.inr ⟨p, f, order, _, hr, he, by rw [evict, h]; rfl⟩)

end Cache

end RowStore
