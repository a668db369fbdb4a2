import RowStore.Proofs.LeastRecent

/-!
# The Record Names the Resident Pages

What is on the record of least recent use, in every state that a pool can come to.

Which pages are resident and which are on record is kept in two places, and a page that
comes or leaves has to be entered in both. If one were resident and not on record, it
would never be proposed. It could not leave to make room however long it lay idle, and the
pool would do with one frame less from then on. If one were on record and not resident, it
would be proposed in vain.

Neither happens. A fetch enters its page in both places, or in neither if the page cannot be
loaded or no other may leave for it. An eviction takes the page that leaves out of both. So
does a discard, whether the page is resident or not, and so does a transaction that is given
up with each of its pages. Nothing else that is done to a pool makes a page come or leave,
and no failure comes between the two entries.

So the record is as good as a list of the resident pages, and an idle page is found on it
wherever it stands.

## Main definitions

* `Engine.blank`: A new pool of so many frames, with no table and no call.

## Theorems

* `Cache.Ranked.evict_only`: The only page that may leave does.
* `Engine.ranked_blank`: The record of a new pool is right after every history.
* `Engine.record_names_residents`: The pages on record are the resident ones, each once.
-/

namespace RowStore

namespace Cache

theorem isResident_iff {ρ : Type} (c : Cache ρ) (p : PageId) :
    c.isResident p = true ↔ c.resident.get? p ≠ none := by
  rw [isResident, Assoc.contains, Option.isSome_iff_ne_none]

theorem Idle.isResident {ρ : Type} {c : Cache ρ} {p : PageId} (h : c.Idle p) :
    c.isResident p = true := by
  rcases h with ⟨f, hf, _⟩
  rw [isResident_iff, hf]
  exact Option.some_ne_none f

/-- If one page may leave and no other, it does, wherever it stands on the record. -/
theorem Ranked.evict_only {frames : Nat} {log : List PageId} {c : Cache Recency}
    (h : c.Ranked frames log) {p : PageId} (hp : c.Idle p) (honly : ∀ q, c.Idle q → q = p) :
    ∃ f, c.resident.get? p = some f ∧ c.evict = (c.vacated p f (c.order.remove p), true) := by
  rcases h.evict with ⟨hnone, _⟩ | ⟨q, f, hf, hv, heq⟩
  · exact absurd hp (hnone p)
  · rcases honly q hv.idle with rfl
    exact ⟨f, hf, heq⟩

end Cache

namespace Engine

/-- A new pool of so many frames that orders evictions by least recent use. It knows no table, and
    no call is at work on it. -/
def blank (frames : Nat) (disk : Disk) : Engine Recency where
  pool := .ofFrames frames {} disk

theorem fresh_blank (frames : Nat) (disk : Disk) : (blank frames disk).Fresh where
  laid := ⟨fun _ _ h => (nomatch h), fun _ _ h => (nomatch h), fun _ _ h => (nomatch h)⟩
  resident := rfl
  frames := rfl
  handles := rfl
  locks := rfl
  calls := rfl

/-- The record of a new pool is right after every history. -/
theorem ranked_blank (frames : Nat) (disk : Disk) {ms : List (Move Recency)}
    (hms : ∀ m ∈ ms, m.reorders = false) :
    ((blank frames disk).moves ms).pool.cache.Ranked frames ((blank frames disk).fetched ms) := by
  have h := ranked_moves ms ((fresh_blank frames disk).ranked rfl) hms
  rwa [List.nil_append] at h

/-- **The record names the resident pages.** A new pool has any number of frames, even none, and
    anything happens to it and to the calls at work on it: pages are loaded, used again, evicted and
    discarded, also some that are not resident; transactions are committed, rolled back and given
    up; calls fail because a page cannot be read, because no page may leave, because a lock is
    refused; tables become known, grow, or are known by other files, and others change the files.
    Only the record itself is left to the pool. Then the pages on record are the resident ones, each
    of them once. And none of them is beyond the reach of an eviction: the only page that may leave
    does. -/
theorem record_names_residents (frames : Nat) (disk : Disk) {ms : List (Move Recency)}
    (hms : ∀ m ∈ ms, m.reorders = false) :
    let c := ((blank frames disk).moves ms).pool.cache
    (∀ p, p ∈ EvictionOrder.candidates c.order ↔ c.isResident p = true) ∧
    (EvictionOrder.candidates c.order).Perm c.resident.keys ∧
    ∀ p, c.Idle p → (∀ q, c.Idle q → q = p) →
      c.evict.2 = true ∧ c.evict.1.resident = c.resident.erase p := by
  intro c
  have h := ranked_blank frames disk hms
  refine ⟨fun p => ?_, h.perm_residents, fun p hp honly => ?_⟩
  · rw [Cache.isResident_iff]
    exact h.mem_candidates p
  · rcases h.evict_only hp honly with ⟨f, _, heq⟩
    rw [heq]
    exact ⟨rfl, rfl⟩

/-- Two frames and a table of three pages. The first page is written, and the second leaves for the
    third, which is fetched again and kept in use. Now the second finds no room, and is discarded
    although it is not resident. Then the device refuses to read: the rollback of the first page
    fails, and it is given up. When it can be read again it is loaded once more. -/
def givenUpAndLoaded : List (Move Recency) :=
  [.register .tiny, .event (.act (.grow ⟨1⟩)),
    .event (.submit ⟨1⟩ (.fetch ⟨⟨1⟩, 0⟩ .readWrite true)), .event (.step ⟨0⟩),
    .event (.act (.write ⟨0⟩ (.fill 5))),
    .event (.submit ⟨2⟩ (.fetch ⟨⟨1⟩, 1⟩ .readOnly false)), .event (.step ⟨1⟩),
    .event (.submit ⟨2⟩ (.fetch ⟨⟨1⟩, 2⟩ .readOnly false)), .event (.step ⟨2⟩),
    .event (.submit ⟨2⟩ (.fetch ⟨⟨1⟩, 2⟩ .readOnly true)), .event (.step ⟨3⟩),
    .event (.submit ⟨2⟩ (.fetch ⟨⟨1⟩, 1⟩ .readOnly false)), .event (.step ⟨4⟩),
    .event (.act (.discard ⟨⟨1⟩, 1⟩)),
    .event (.act (.device ⟨fun _ => some .notFound, fun _ => none⟩)),
    .event (.act (.abandon ⟨1⟩)), .event (.act (.device {})),
    .event (.submit ⟨3⟩ (.fetch ⟨⟨1⟩, 0⟩ .readOnly false)), .event (.step ⟨5⟩)]

/-- The two pages that are resident in the end are on record, and the second page is not. The third
    is in use, so the first is the only one that may leave, and an eviction finds it. -/
theorem record_names_residents_givenUpAndLoaded :
    let c := ((blank 2 (Disk.put {} ⟨0⟩ (FileImage.empty.resize 4))).moves
      givenUpAndLoaded).pool.cache
    EvictionOrder.candidates c.order = [⟨⟨1⟩, 2⟩, ⟨⟨1⟩, 0⟩] ∧
    (∀ p, c.isResident p = true ↔ p = ⟨⟨1⟩, 2⟩ ∨ p = ⟨⟨1⟩, 0⟩) ∧ c.size = 2 ∧
    c.evict.2 = true ∧ c.evict.1.resident = c.resident.erase ⟨⟨1⟩, 0⟩ := by
  intro c
  have hms : ∀ m ∈ givenUpAndLoaded, m.reorders = false := by decide
  have hlist : EvictionOrder.candidates c.order = [⟨⟨1⟩, 2⟩, ⟨⟨1⟩, 0⟩] := by decide +kernel
  rcases record_names_residents 2 (Disk.put {} ⟨0⟩ (FileImage.empty.resize 4)) hms with
    ⟨hmem, hperm, hreach⟩
  have hresident : ∀ p, c.isResident p = true ↔ p = ⟨⟨1⟩, 2⟩ ∨ p = ⟨⟨1⟩, 0⟩ := by
    intro p
    rw [← hmem p, hlist]
    simp
  have hidle : c.Idle ⟨⟨1⟩, 0⟩ :=
    (Cache.idle_iff (f := ⟨3⟩) (by decide +kernel)).2 (by decide +kernel)
  have hbusy : ¬ c.Idle ⟨⟨1⟩, 2⟩ := by
    rw [Cache.idle_iff (f := ⟨2⟩) (by decide +kernel)]
    decide +kernel
  refine ⟨hlist, hresident, ?_, hreach _ hidle fun q hq => ?_⟩
  · rw [Cache.size, ← Assoc.length_keys, ← hperm.length_eq, hlist]
    rfl
  · rcases (hresident q).1 hq.isResident with rfl | rfl
    · exact absurd hq hbusy
    · rfl

end Engine

end RowStore
