import RowStore.Pool
import RowStore.Recency

/-!
# Keeping Track of the Resident Pages

The record of use kept by the order of least recent use, and the cache that keeps
it.

The record has two maps that lead to each other, and ticks that were never given
before. The cache reports every page that comes and every page that leaves. So the
pages on record are the resident ones, each once, and the order can propose each of
them: if any page may leave to make room, one does.

## Main definitions

* `Recency.Tidy`: The two maps lead to each other.
* `Cache.Tracks`: The pages on record are the resident ones.

## Theorems

* `Recency.mem_candidates`, `Recency.nodup_candidates`: The pages proposed are those on record, each
  once.
* `Cache.Tracks.perm_residents`: If the record is right, they are the resident ones.
* `Cache.tracks_takeIn`, `Pool.tracks_fetch`: Loading and eviction keep the record right.
* `Pool.fetch_has_room`: A page can be loaded unless every resident page is in use or dirty.
-/

namespace RowStore

namespace Recency

/-- The two maps lead to each other, and no tick is still to come. -/
structure Tidy (r : Recency) : Prop where
  forth : ∀ p k, r.lastUse.get? p = some k → r.byTick.get? k = some p
  back : ∀ k p, r.byTick.get? k = some p → r.lastUse.get? p = some k
  past : ∀ k p, r.byTick.get? k = some p → k ≤ r.clock

theorem tidy_empty : Tidy {} where
  forth _ _ h := by cases h
  back _ _ h := by cases h
  past _ _ h := by cases h

theorem lastUse_touch (r : Recency) (p q : PageId) :
    (r.touch p).lastUse.get? q = if q = p then some (r.clock + 1) else r.lastUse.get? q :=
  Assoc.get?_insert _ _ _ _

theorem lastUse_remove (r : Recency) (p q : PageId) :
    (r.remove p).lastUse.get? q = if q = p then none else r.lastUse.get? q :=
  Assoc.get?_erase _ _ _

theorem get?_dropTick (r : Recency) (p : PageId) (k : Nat) :
    (r.dropTick p).get? k = if r.lastUse.get? p = some k then none else r.byTick.get? k := by
  unfold dropTick
  cases h : r.lastUse.get? p with
  | none => rfl
  | some j =>
      simp only [Assoc.get?_erase, Option.some.injEq]
      by_cases hk : k = j
      · rw [if_pos hk, if_pos hk.symm]
      · rw [if_neg hk, if_neg (Ne.symm hk)]

section Tidy

variable {r : Recency} (ht : r.Tidy)

include ht

/-- Dropping a page's tick leaves the ticks of the other pages. -/
theorem get?_dropTick_other {p q : PageId} {k : Nat} (hq : r.lastUse.get? q = some k)
    (hne : q ≠ p) : (r.dropTick p).get? k = some q := by
  rw [get?_dropTick, if_neg, ht.forth q k hq]
  intro hp
  -- Had both pages this tick, the map by tick would name both, and so they would be one.
  have hsame := (ht.forth q k hq).symm.trans (ht.forth p k hp)
  exact hne (Option.some.inj hsame)

theorem lastUse_of_dropTick {p q : PageId} {k : Nat} (h : (r.dropTick p).get? k = some q) :
    q ≠ p ∧ r.lastUse.get? q = some k := by
  rw [get?_dropTick] at h
  split at h
  · cases h
  · rename_i hk
    have hq := ht.back k q h
    refine ⟨?_, hq⟩
    rintro rfl
    exact hk hq

theorem tidy_remove (p : PageId) : (r.remove p).Tidy where
  forth q k h := by
    rw [lastUse_remove] at h
    split at h
    · cases h
    · rename_i hne
      exact get?_dropTick_other ht h hne
  back k q h := by
    rcases lastUse_of_dropTick ht h with ⟨hne, hq⟩
    rw [lastUse_remove, if_neg hne, hq]
  past k q h := by
    rcases lastUse_of_dropTick ht h with ⟨_, hq⟩
    exact ht.past k q (ht.forth q k hq)

theorem tidy_touch (p : PageId) : (r.touch p).Tidy where
  forth q k h := by
    simp only [touch, Assoc.get?_insert] at h ⊢
    split at h
    · rename_i hq
      cases h
      rw [if_pos rfl, hq]
    · rename_i hne
      -- The new tick comes after all others, so it takes no page's place.
      have hle := ht.past k q (ht.forth q k h)
      rw [if_neg (by omega), get?_dropTick_other ht h hne]
  back k q h := by
    simp only [touch, Assoc.get?_insert] at h ⊢
    split at h
    · rename_i hk
      cases h
      rw [if_pos rfl, hk]
    · rcases lastUse_of_dropTick ht h with ⟨hne, hq⟩
      rw [if_neg hne, hq]
  past k q h := by
    simp only [touch, Assoc.get?_insert] at h ⊢
    split at h
    · omega
    · rcases lastUse_of_dropTick ht h with ⟨_, hq⟩
      have hle := ht.past k q (ht.forth q k hq)
      omega

/-- A page with a tick has that tick as its last use. -/
theorem lastUse_of_mem {e : Nat × PageId} (he : e ∈ r.byTick.entries) :
    r.lastUse.get? e.2 = some e.1 :=
  ht.back e.1 e.2 ((Assoc.mem_entries_iff _ e.1 e.2).1 he)

/-- The pages proposed are those on record. -/
theorem mem_candidates (p : PageId) : p ∈ r.candidates ↔ r.lastUse.get? p ≠ none := by
  unfold candidates Assoc.values
  rw [List.mem_reverse, List.mem_map]
  constructor
  · rintro ⟨e, he, rfl⟩ hn
    rw [lastUse_of_mem ht he] at hn
    cases hn
  · intro hn
    rcases Option.ne_none_iff_exists'.1 hn with ⟨k, hk⟩
    exact ⟨(k, p), (Assoc.mem_entries_iff _ k p).2 (ht.forth p k hk), rfl⟩

/-- No page is proposed twice, because a page has one tick only. -/
theorem nodup_candidates : r.candidates.Nodup := by
  unfold candidates Assoc.values
  refine List.pairwise_reverse.2 (List.pairwise_map.2 ?_)
  refine (List.pairwise_map.1 r.byTick.distinct).imp_of_mem fun {a b} ha hb hne hsame => hne ?_
  have hb' := lastUse_of_mem ht hb
  rw [hsame, lastUse_of_mem ht ha] at hb'
  exact Option.some.inj hb'

end Tidy

end Recency

namespace Cache

/-- The pages on record are the resident ones. -/
structure Tracks (c : Cache Recency) : Prop where
  tidy : c.order.Tidy
  exact : ∀ p, c.order.lastUse.get? p = none ↔ c.resident.get? p = none

section Tracks

variable {c : Cache Recency} (ht : c.Tracks)

include ht

/-- The pages proposed are resident, and every resident page is proposed. -/
theorem Tracks.mem_candidates (p : PageId) :
    p ∈ c.order.candidates ↔ c.resident.get? p ≠ none := by
  rw [Recency.mem_candidates ht.tidy, ne_eq, ht.exact]

/-- The list of the pages proposed is one of the resident pages, in another order. -/
theorem Tracks.perm_residents : c.order.candidates.Perm c.resident.keys := by
  refine (List.perm_ext_iff_of_nodup (Recency.nodup_candidates ht.tidy)
    c.resident.keys_nodup).2 fun p => ?_
  rw [ht.mem_candidates, Assoc.mem_keys_iff, Option.isSome_iff_ne_none]

theorem tracks_touch {p : PageId} (hp : c.resident.get? p ≠ none) : (c.touch p).Tracks where
  tidy := Recency.tidy_touch ht.tidy p
  exact q := by
    simp only [touch, EvictionOrder.touch, Recency.lastUse_touch]
    split
    · rename_i hq
      rw [hq]
      simpa using hp
    · exact ht.exact q

/-- A page that left is taken off the record. -/
theorem tracks_leave (p : PageId) (frames : Assoc FrameNo Page) :
    ({ c with resident := c.resident.erase p, frames }.forget p).Tracks where
  tidy := Recency.tidy_remove ht.tidy p
  exact q := by
    have hr : (c.resident.erase p).get? q = if q = p then none else c.resident.get? q :=
      Assoc.get?_erase _ _ _
    simp only [forget, EvictionOrder.remove, Recency.lastUse_remove, hr]
    split
    · simp
    · exact ht.exact q

theorem tracks_forget {p : PageId} (hp : c.resident.get? p = none) : (c.forget p).Tracks where
  tidy := Recency.tidy_remove ht.tidy p
  exact q := by
    simp only [forget, EvictionOrder.remove, Recency.lastUse_remove]
    split
    · rename_i hq
      rw [hq]
      simpa using hp
    · exact ht.exact q

theorem tracks_place (image : Page) : (c.place image).2.Tracks where
  tidy := Recency.tidy_touch ht.tidy image.id
  exact q := by
    have hr : (c.resident.insert image.id ⟨c.nextFrame⟩).get? q =
        if q = image.id then some ⟨c.nextFrame⟩ else c.resident.get? q := Assoc.get?_insert _ _ _ _
    simp only [place, touch, EvictionOrder.touch, Recency.lastUse_touch, hr]
    split
    · simp
    · exact ht.exact q

omit ht in
theorem tracks_evictFrom (l : List PageId) {c : Cache Recency} (ht : c.Tracks) :
    (c.evictFrom l).1.Tracks := by
  -- Along the proposals, of which only pages that are not resident are struck off on the way.
  induction l generalizing c with
  | nil => exact ht
  | cons p rest ih =>
      unfold evictFrom
      cases hr : c.resident.get? p with
      | none => exact ih (tracks_forget ht hr)
      | some f =>
          simp only
          split
          · exact tracks_leave ht p _
          · exact ih ht

theorem tracks_takeIn (image : Page) : (c.takeIn image).1.Tracks := by
  have he := tracks_evictFrom (EvictionOrder.candidates c.order) ht
  unfold takeIn evict
  split
  · exact tracks_place ht image
  · cases hev : c.evictFrom (EvictionOrder.candidates c.order) with
    | mk c' left =>
        rw [hev] at he
        cases left with
        | true => exact tracks_place he image
        | false => exact he

end Tracks

/-- If one of the pages proposed may leave, a page does. -/
theorem evictFrom_of_mem {ρ : Type} [EvictionOrder ρ] {l : List PageId} {c : Cache ρ} {p : PageId}
    {f : FrameNo} (hp : p ∈ l) (hr : c.resident.get? p = some f) (he : c.isEvictable f = true) :
    (c.evictFrom l).2 = true := by
  induction l generalizing c with
  | nil => cases hp
  | cons q rest ih =>
      unfold evictFrom
      by_cases hpq : p = q
      · subst hpq
        simp only [hr, he, if_true]
      · -- The page is still to come. If an earlier one leaves, all the better.
        have hrest := (List.mem_cons.1 hp).resolve_left hpq
        cases hq : c.resident.get? q with
        | none => exact ih (c := c.forget q) hrest hr he
        | some g =>
            simp only
            split
            · rfl
            · exact ih hrest hr he

/-- If some frame is free or may be vacated, a page can be taken in. -/
theorem takeIn_has_room {c : Cache Recency} (ht : c.Tracks) (hcap : 0 < c.capacity)
    (hfree : ∀ p f, c.resident.get? p = some f → c.isEvictable f = true) (image : Page) :
    (c.takeIn image).2 ≠ none := by
  unfold takeIn
  by_cases hs : c.size < c.capacity
  · rw [if_pos hs]
    exact fun h => by cases h
  · rw [if_neg hs]
    -- The frames are all taken, so some page is resident, and it is proposed.
    have hpos : 0 < c.resident.entries.length := by
      have hsize : c.size = c.resident.entries.length := rfl
      omega
    rcases List.exists_mem_of_length_pos hpos with ⟨e, hm⟩
    have hr := (Assoc.mem_entries_iff _ e.1 e.2).1 hm
    have hmem : e.1 ∈ c.order.candidates := by
      rw [ht.mem_candidates, hr]
      exact fun h => by cases h
    have hev : (c.evictFrom (EvictionOrder.candidates c.order)).2 = true :=
      evictFrom_of_mem hmem hr (hfree _ _ hr)
    cases hres : c.evictFrom (EvictionOrder.candidates c.order) with
    | mk c' left =>
        rw [hres] at hev
        subst hev
        rw [evict, hres]
        exact fun h => by cases h

end Cache

namespace Pool

/-- Fetching a page keeps the record right. -/
theorem tracks_fetch {P : Pool Recency} (ht : P.cache.Tracks) (p : PageId) :
    (P.fetch p).1.cache.Tracks := by
  unfold fetch
  -- A page in memory is used again, a page that cannot be loaded leaves no trace.
  cases hr : P.cache.resident.get? p with
  | some f => exact Cache.tracks_touch ht (by rw [hr]; exact fun h => by cases h)
  | none =>
      simp only
      cases P.loadImage p with
      | error e => exact ht
      | ok image =>
          have htake := Cache.tracks_takeIn ht image
          simp only
          cases hres : P.cache.takeIn image with
          | mk c r =>
              rw [hres] at htake
              cases r <;> exact htake

/-- A page can be fetched if it can be loaded and no resident page is in use or dirty. -/
theorem fetch_has_room {P : Pool Recency} (ht : P.cache.Tracks) (hcap : 0 < P.cache.capacity)
    (hfree : ∀ p f, P.cache.resident.get? p = some f → P.cache.isEvictable f = true) {p : PageId}
    {image : Page} (hl : P.loadImage p = .ok image) : ∃ f, (P.fetch p).2 = .ok f := by
  unfold fetch
  cases hr : P.cache.resident.get? p with
  | some f => exact ⟨f, rfl⟩
  | none =>
      have hroom := Cache.takeIn_has_room ht hcap hfree image
      simp only [hl]
      cases hres : P.cache.takeIn image with
      | mk c r =>
          rw [hres] at hroom
          cases r with
          | none => exact absurd rfl hroom
          | some f => exact ⟨f, rfl⟩

end Pool

end RowStore
