import RowStore.Proofs.MoveToBack
import RowStore.Proofs.Upkeep

/-!
# Pages Ranked by their Last Fetch

The record of least recent use, held against a list of the pages that were fetched.

The record keeps ticks, and proposes pages by them. What it proposes is meant to be the
resident pages in the order of their last fetches, and a list of all fetches says what
that order is without any ticks. `Cache.Ranked` is that the two agree. A fetch that
succeeds puts its page behind all others on the record as it does on the list, a page that
leaves is taken off the record, and the others keep their order.

So what a fetch does to a cache can be told by the list. A page that is resident is only
put last. A page that is not is loaded. While frames are to spare nothing leaves for it.
When there are none, one page leaves, of those that may leave the one fetched last the
longest time ago. If no page may leave, or the page cannot be loaded, nothing at all is
changed.

## Main definitions

* `FetchedBefore`: The last fetch of one page comes before that of another.
* `Cache.Idle`, `Cache.Victim`: A page that may leave, and the first of them.
* `Cache.Ranked`: The record proposes the resident pages in the order of their last fetches.
* `Pool.GetsPage`: What becomes of a pool when a page is fetched.
* `Cache.Sheds`: Some pages leave, and nothing else happens to residents and record.

## Theorems

* `Cache.evictFrom_first`: The first page that may leave does.
* `Pool.getsPage_fetch`: What a fetch does to a pool whose record is right.
* `Pool.ranked_fetch`, `Cache.ranked_sheds`: The record stays right.
-/

namespace RowStore

/-- The last fetch of one page comes before the last fetch of another. -/
def FetchedBefore (log : List PageId) (p q : PageId) : Prop :=
  ∃ before after, log = before ++ p :: after ∧ p ∉ after ∧ q ∈ after

theorem FetchedBefore.append {log : List PageId} {p q : PageId} (h : FetchedBefore log p q)
    {r : PageId} (hne : p ≠ r) : FetchedBefore (log ++ [r]) p q := by
  rcases h with ⟨before, after, rfl, hp, hq⟩
  refine ⟨before, after ++ [r], by simp, ?_, List.mem_append_left _ hq⟩
  simp [hp, hne]

/-- A page that was fetched before comes before one that is fetched now. -/
theorem fetchedBefore_last {log : List PageId} {p r : PageId} (hp : p ∈ log) (hne : p ≠ r) :
    FetchedBefore (log ++ [r]) p r := by
  -- The last of the page's fetches is the first one from the end.
  rcases List.eq_append_cons_of_mem (List.mem_reverse.2 hp) with ⟨after, before, hlog, hnew⟩
  refine ⟨before.reverse, after.reverse ++ [r], ?_, ?_, by simp⟩
  · have h := congrArg List.reverse hlog
    simp only [List.reverse_reverse, List.reverse_append, List.reverse_cons] at h
    simp [h]
  · simp [hnew, hne]

/-- Some pages, ranked by their last fetches. -/
structure Ranks (log : List PageId) (pages : List PageId) : Prop where
  known : ∀ p ∈ pages, p ∈ log
  sorted : pages.Pairwise (FetchedBefore log)

theorem Ranks.sublist {log pages pages' : List PageId} (h : Ranks log pages)
    (hs : pages'.Sublist pages) : Ranks log pages' :=
  ⟨fun p hp => h.known p (hs.subset hp), h.sorted.sublist hs⟩

/-- A page that is fetched goes behind all others. -/
theorem Ranks.push {log pages : List PageId} (h : Ranks log pages) {p : PageId}
    (hnew : p ∉ pages) : Ranks (log ++ [p]) (pages ++ [p]) where
  known q hq := by
    rcases List.mem_append.1 hq with hq | hq
    · exact List.mem_append_left _ (h.known q hq)
    · exact List.mem_append_right _ hq
  sorted := by
    have hne : ∀ q ∈ pages, q ≠ p := fun q hq heq => hnew (heq ▸ hq)
    refine List.pairwise_append.2 ⟨?_, List.pairwise_singleton _ _, fun q hq r hr => ?_⟩
    · exact h.sorted.imp_of_mem fun hq _ hqr => hqr.append (hne _ hq)
    · rw [List.mem_singleton.1 hr]
      exact fetchedBefore_last (h.known q hq) (hne q hq)

/-! ## Who may leave -/

namespace Cache

variable {ρ : Type}

/-- A page is resident and clean, and no handle is on its frame. -/
def Idle (c : Cache ρ) (p : PageId) : Prop :=
  ∃ f, c.resident.get? p = some f ∧ c.isDirty p = false ∧
    ∀ n h, c.handles.get? n = some h → h.frame ≠ f

/-- Of the pages that may leave, the one whose last fetch is the oldest. -/
structure Victim (log : List PageId) (c : Cache ρ) (p : PageId) : Prop where
  idle : c.Idle p
  oldest : ∀ q, c.Idle q → q ≠ p → FetchedBefore log p q

theorem idle_iff {c : Cache ρ} {p : PageId} {f : FrameNo} (hr : c.resident.get? p = some f) :
    c.Idle p ↔ c.isEvictable f = true := by
  have hdirty : c.isDirty p = (c.frame? f).any Page.isDirty := by
    unfold isDirty
    rw [page?_of_resident hr]
  constructor
  · rintro ⟨g, hg, hclean, hfree⟩
    cases hr.symm.trans hg
    have hpin : c.isPinned f = false := by
      rw [isPinned, List.any_eq_false]
      intro h hh
      rcases List.mem_map.1 hh with ⟨e, he, rfl⟩
      simpa using hfree e.1 e.2 ((Assoc.mem_entries_iff _ e.1 e.2).1 he)
    simp only [isEvictable, hpin, ← hdirty, hclean, Bool.not_false, Bool.and_self]
  · intro he
    refine ⟨f, hr, ?_, fun n h => frame_ne_of_evictable he⟩
    simp only [isEvictable, Bool.and_eq_true, Bool.not_eq_true'] at he
    rw [hdirty]
    exact he.2

variable [EvictionOrder ρ]

/-- Of some resident pages the first that may leave does, or none may and nothing happens. -/
theorem evictFrom_first (c : Cache ρ) {l : List PageId}
    (hres : ∀ p ∈ l, c.resident.get? p ≠ none) :
    ((∀ p ∈ l, ¬ c.Idle p) ∧ c.evictFrom l = (c, false)) ∨
    ∃ before p f after, l = before ++ p :: after ∧ (∀ q ∈ before, ¬ c.Idle q) ∧
      c.resident.get? p = some f ∧ c.Idle p ∧
      c.evictFrom l = (c.vacated p f (EvictionOrder.remove c.order p), true) := by
  induction l with
  | nil => exact Or.inl ⟨List.forall_mem_nil _, rfl⟩
  | cons p rest ih =>
      rcases Option.ne_none_iff_exists'.1 (hres p List.mem_cons_self) with ⟨f, hf⟩
      unfold evictFrom
      simp only [hf]
      by_cases he : c.isEvictable f = true
      · rw [if_pos he]
        exact Or.inr ⟨[], p, f, rest, rfl, List.forall_mem_nil _, hf, (idle_iff hf).2 he, rfl⟩
      · -- The page is passed over, and those behind it are tried.
        have hbusy : ¬ c.Idle p := fun hi => he ((idle_iff hf).1 hi)
        rw [if_neg he]
        rcases ih fun q hq => hres q (List.mem_cons_of_mem p hq) with
          ⟨hall, heq⟩ | ⟨before, q, g, after, rfl, hbefore, hg, hi, heq⟩
        · exact Or.inl ⟨List.forall_mem_cons.2 ⟨hbusy, hall⟩, heq⟩
        · exact Or.inr ⟨p :: before, q, g, after, rfl, List.forall_mem_cons.2 ⟨hbusy, hbefore⟩,
            hg, hi, heq⟩

/-! ## The record and the list -/

/-- Pages, frames, handles and the record fit together, and the record proposes the resident pages
    in the order of their last fetches. -/
structure Ranked (frames : Nat) (log : List PageId) (c : Cache Recency) : Prop
    extends Recorded frames c where
  ranks : Ranks log c.order.candidates

section ranked

variable {frames : Nat} {log : List PageId} {c : Cache Recency} (h : c.Ranked frames log)

include h

/-- Copies and handles change, but no page comes or leaves. -/
theorem Ranked.congr {c' : Cache Recency} (ht : c'.Tidy) (hr : c'.resident = c.resident)
    (ho : c'.order = c.order) (hc : c'.capacity = c.capacity) : c'.Ranked frames log where
  toRecorded := h.toRecorded.congr ht hr ho hc
  ranks := ho ▸ h.ranks

/-- The first page that may leave, in the order of the proposals, is the one that was fetched last
    the longest time ago. -/
theorem Ranked.victim {before after : List PageId} {p : PageId}
    (hsplit : c.order.candidates = before ++ p :: after) (hbefore : ∀ q ∈ before, ¬ c.Idle q)
    (hp : c.Idle p) : c.Victim log p := by
  refine ⟨hp, fun q hq hne => ?_⟩
  have hmem : q ∈ c.order.candidates := by
    rcases hq with ⟨f, hf, _⟩
    rw [h.mem_candidates, hf]
    exact Option.some_ne_none f
  rw [hsplit] at hmem
  rcases List.mem_append.1 hmem with hq' | hq'
  · exact absurd hq (hbefore q hq')
  · have hafter := (List.mem_cons.1 hq').resolve_left hne
    have hsorted := h.ranks.sorted
    rw [hsplit, List.pairwise_append] at hsorted
    exact List.rel_of_pairwise_cons hsorted.2.1 hafter

/-- A cache of ranked pages has the oldest page that may leave do so, or none may. -/
theorem Ranked.evict :
    ((∀ p, ¬ c.Idle p) ∧ c.evict = (c, false)) ∨
    ∃ p f, c.resident.get? p = some f ∧ c.Victim log p ∧
      c.evict = (c.vacated p f (c.order.remove p), true) := by
  have hres : ∀ p ∈ c.order.candidates, c.resident.get? p ≠ none :=
    fun p hp => (h.mem_candidates p).1 hp
  rcases c.evictFrom_first hres with ⟨hall, heq⟩ | ⟨before, p, f, after, hl, hbefore, hf, hi, heq⟩
  · refine Or.inl ⟨fun p hi => ?_, heq⟩
    rcases hi with ⟨f, hf, hrest⟩
    exact hall p ((h.mem_candidates p).2 (hf ▸ Option.some_ne_none f)) ⟨f, hf, hrest⟩
  · exact Or.inr ⟨p, f, hf, h.victim hl hbefore hi, heq⟩

end ranked

/-! ## Pages that leave -/

/-- Some pages leave one after another. No page comes, and none is used. -/
def Sheds (c c' : Cache ρ) : Prop :=
  ∃ pages : List PageId, c'.resident = pages.foldl Assoc.erase c.resident ∧
    c'.order = pages.foldl EvictionOrder.remove c.order ∧ c'.capacity = c.capacity

theorem Sheds.of_eq {c c' : Cache ρ} (hr : c'.resident = c.resident) (ho : c'.order = c.order)
    (hc : c'.capacity = c.capacity) : c.Sheds c' := ⟨[], hr, ho, hc⟩

theorem Sheds.trans {c c' c'' : Cache ρ} (h : c.Sheds c') (h' : c'.Sheds c'') : c.Sheds c'' := by
  rcases h with ⟨l, hr, ho, hc⟩
  rcases h' with ⟨l', hr', ho', hc'⟩
  refine ⟨l ++ l', ?_, ?_, hc'.trans hc⟩
  · rw [List.foldl_append, ← hr, hr']
  · rw [List.foldl_append, ← ho, ho']

theorem sheds_discard (c : Cache ρ) (p : PageId) : c.Sheds (c.discard p) := ⟨[p], rfl, rfl, rfl⟩

/-- The pages that stay keep their rank. -/
theorem ranked_sheds {frames : Nat} {log : List PageId} {c c' : Cache Recency}
    (h : c.Ranked frames log) (hs : c.Sheds c') (ht : c'.Tidy) : c'.Ranked frames log := by
  rcases hs with ⟨pages, hr, ho, hc⟩
  -- One page after another is discarded, and the rest of the cache does not matter.
  induction pages generalizing c with
  | nil => exact h.congr ht hr ho hc
  | cons p rest ih =>
      refine ih (c := c.discard p) ⟨recorded_discard h.toRecorded p, ?_⟩ hr ho hc
      have hcand : (c.discard p).order.candidates = c.order.candidates.filter (· ≠ p) :=
        Recency.candidates_remove h.tidy p
      rw [hcand]
      exact h.ranks.sublist List.filter_sublist

end Cache

/-! ## Fetches -/

namespace Pool

/-- What becomes of a pool when a page is fetched. A resident page is put last. A page that is not
    resident and can be loaded is given a new frame, and is put last: nothing leaves while there are
    frames to spare, else the victim leaves. And nothing is changed if the page cannot be loaded, or
    no page may leave. -/
inductive GetsPage (log : List PageId) (P : Pool Recency) (p : PageId) :
    Pool Recency → Except StoreError FrameNo → Prop
  | hit {f : FrameNo} {order : Recency} (here : P.cache.resident.get? p = some f)
      (ranks : order.candidates = P.cache.order.candidates.filter (· ≠ p) ++ [p]) :
      GetsPage log P p { P with cache := { P.cache with order } } (.ok f)
  | unreadable {e : StoreError} (absent : P.cache.resident.get? p = none)
      (cause : P.loadImage p = .error e) : GetsPage log P p P (.error e)
  | room {image : Page} {order : Recency} (absent : P.cache.resident.get? p = none)
      (load : P.loadImage p = .ok image) (room : P.cache.size < P.cache.capacity)
      (ranks : order.candidates = P.cache.order.candidates ++ [p]) :
      GetsPage log P p { P with cache := P.cache.housed image order } (.ok ⟨P.cache.nextFrame⟩)
  | evicted {image : Page} {q : PageId} {g : FrameNo} {order order' : Recency}
      (absent : P.cache.resident.get? p = none) (load : P.loadImage p = .ok image)
      (full : P.cache.capacity ≤ P.cache.size) (victim : P.cache.Victim log q)
      (frame : P.cache.resident.get? q = some g)
      (ranks : order'.candidates = P.cache.order.candidates.filter (· ≠ q) ++ [p]) :
      GetsPage log P p { P with cache := (P.cache.vacated q g order).housed image order' }
        (.ok ⟨P.cache.nextFrame⟩)
  | crowded {image : Page} (absent : P.cache.resident.get? p = none)
      (load : P.loadImage p = .ok image) (full : P.cache.capacity ≤ P.cache.size)
      (busy : ∀ q, ¬ P.cache.Idle q) :
      GetsPage log P p P (.error (.noEvictableFrame P.cache.capacity))

/-- A fetch that fails leaves no trace. -/
theorem GetsPage.failed {log : List PageId} {P Q : Pool Recency} {p : PageId} {e : StoreError}
    (h : P.GetsPage log p Q (.error e)) : Q = P := by
  cases h with
  | unreadable => rfl
  | crowded => rfl

/-- The page of a fetch that succeeds, for the list of fetches. -/
def gets (P : Pool Recency) (p : PageId) : List PageId :=
  match (P.fetch p).2 with
  | .ok _ => [p]
  | .error _ => []

variable {frames : Nat} {log : List PageId} {P : Pool Recency}

/-- What a fetch does to a pool whose record is right. -/
theorem getsPage_fetch (h : P.cache.Ranked frames log) (p : PageId) :
    P.GetsPage log p (P.fetch p).1 (P.fetch p).2 := by
  unfold fetch
  cases hr : P.cache.resident.get? p with
  | some f => exact .hit hr (Recency.candidates_touch h.tidy p)
  | none =>
      -- A page that is not resident is not on record, so there is no former place to give up.
      have hoff : ∀ q ∈ P.cache.order.candidates, decide (q ≠ p) = true := by
        intro q hq
        refine decide_eq_true ?_
        rintro rfl
        exact (h.mem_candidates q).1 hq hr
      cases hl : P.loadImage p with
      | error e => exact .unreadable hr hl
      | ok image =>
          rcases loadImage_eq_ok hl with ⟨himage, _, _⟩
          subst himage
          simp only [Cache.takeIn]
          by_cases hs : P.cache.size < P.cache.capacity
          · rw [if_pos hs]
            refine .room hr hl hs ((Recency.candidates_touch h.tidy p).trans ?_)
            rw [List.filter_eq_self.2 hoff]
          · rw [if_neg hs]
            rcases h.evict with ⟨hbusy, heq⟩ | ⟨q, g, hg, hv, heq⟩
            · rw [heq]
              exact .crowded hr hl (Nat.le_of_not_lt hs) hbusy
            · rw [heq]
              refine .evicted hr hl (Nat.le_of_not_lt hs) hv hg
                ((Recency.candidates_touch (Recency.tidy_remove h.tidy q) p).trans ?_)
              rw [Recency.candidates_remove h.tidy, List.filter_eq_self.2]
              exact fun r hr => hoff r (List.mem_filter.1 hr).1

/-- A fetch keeps the record right, and goes on the list if it succeeds. -/
theorem ranked_fetch (h : P.cache.Ranked frames log) (p : PageId) :
    (P.fetch p).1.cache.Ranked frames (log ++ P.gets p) := by
  have hrec := recorded_fetch h.toRecorded p
  have hgets := getsPage_fetch h p
  unfold gets
  generalize (P.fetch p).1 = Q at hrec hgets
  generalize (P.fetch p).2 = r at hgets
  refine ⟨hrec, ?_⟩
  have hoff : ∀ {q}, P.cache.resident.get? q = none → q ∉ P.cache.order.candidates :=
    fun hq hmem => (h.mem_candidates _).1 hmem hq
  cases hgets with
  | hit here ranks =>
      refine ranks ▸ (h.ranks.sublist List.filter_sublist).push fun hmem => ?_
      simpa using (List.mem_filter.1 hmem).2
  | room absent load room ranks => exact ranks ▸ h.ranks.push (hoff absent)
  | evicted absent load full victim frame ranks =>
      exact ranks ▸ (h.ranks.sublist List.filter_sublist).push
        fun hmem => hoff absent (List.mem_filter.1 hmem).1
  | unreadable => exact (List.append_nil log).symm ▸ h.ranks
  | crowded => exact (List.append_nil log).symm ▸ h.ranks

end Pool

end RowStore
