import RowStore.Proofs.Tracking

/-!
# The Record of Use as a List

The record of least recent use is two maps and a clock. Read as the list of its candidates
it needs neither: a page that is used goes to the back of the list, from wherever it was,
and a page that left is deleted.

A use finds the page's former tick by one map and takes it out of the other, and the new
tick is later than all before it. So no tick stays behind that would bring its page back,
or put it out of turn. The ticks only grow, and by one for every use.

## Main definitions

* `Recency.Report`, `Recency.noteAll`: What the record is told, and the record afterwards.
* `Recency.reorder`: What a report makes of a list of pages.
* `Recency.UsedBefore`: One page has an earlier tick than another.
* `Recency.Lists`: The record stands for a list.

## Theorems

* `Recency.candidates_touch`, `Recency.candidates_remove`: The record read as a list.
* `Recency.lists_note`: A report makes of the record what it makes of the list.
* `Recency.record_is_move_to_back`: So do any reports, one after the other.
-/

namespace RowStore

namespace Recency

/-- What a record of use is told: a page was used, or it left. -/
inductive Report
  | used (p : PageId)
  | left (p : PageId)

/-- Whether a use is reported. -/
def Report.isUse : Report → Bool
  | .used _ => true
  | .left _ => false

/-- The record after a report. -/
def note (r : Recency) : Report → Recency
  | .used p => r.touch p
  | .left p => r.remove p

/-- The record after one report and another. -/
def noteAll (r : Recency) (reports : List Report) : Recency := reports.foldl note r

/-- A list of pages after a report: a page that is used goes to the back, and one that left is
    deleted. -/
def reorder (pages : List PageId) : Report → List PageId
  | .used p => pages.erase p ++ [p]
  | .left p => pages.erase p

/-- The last use of one page has an earlier tick than that of another. -/
def UsedBefore (r : Recency) (p q : PageId) : Prop :=
  ∃ j k, r.lastUse.get? p = some j ∧ r.lastUse.get? q = some k ∧ j < k

/-- The record stands for a list of pages: the two maps lead to each other, and the pages on record,
    which are in the order of their ticks, are those of the list. -/
structure Lists (r : Recency) (pages : List PageId) : Prop where
  tidy : r.Tidy
  list : r.candidates = pages
  nodup : pages.Nodup
  ordered : pages.Pairwise r.UsedBefore

section Tidy

variable {r : Recency} (ht : r.Tidy)

include ht

/-- The second map without a page's tick is the map without the page. -/
theorem values_dropTick (p : PageId) :
    (r.dropTick p).values = r.byTick.values.filter (· ≠ p) := by
  unfold dropTick Assoc.values
  rw [List.filter_map]
  cases hp : r.lastUse.get? p with
  | none =>
      -- The page has no tick, and so there is no entry of it.
      simp only
      congr 1
      refine (List.filter_eq_self.2 fun e he => ?_).symm
      have hne : e.2 ≠ p := by
        rintro rfl
        cases hp.symm.trans (lastUse_of_mem ht he)
      simpa using hne
  | some k =>
      simp only [Assoc.erase]
      congr 1
      refine List.filter_congr fun e he => ?_
      have hiff : e.1 = k ↔ e.2 = p := by
        constructor
        · rintro rfl
          exact Option.some.inj ((ht.forth _ _ (lastUse_of_mem ht he)).symm.trans (ht.forth _ _ hp))
        · rintro rfl
          exact Option.some.inj ((lastUse_of_mem ht he).symm.trans hp)
      simp only [Function.comp_apply, ne_eq, hiff]

/-- A page that is forgotten is no longer proposed. -/
theorem candidates_remove (p : PageId) :
    (r.remove p).candidates = r.candidates.filter (· ≠ p) := by
  unfold candidates remove
  rw [values_dropTick ht, List.filter_reverse]

/-- A page that is used is proposed last. -/
theorem candidates_touch (p : PageId) :
    (r.touch p).candidates = r.candidates.filter (· ≠ p) ++ [p] := by
  -- The new tick is in neither map, so the entry only goes in front.
  have hnew : (r.dropTick p).get? (r.clock + 1) = none := by
    cases hk : (r.dropTick p).get? (r.clock + 1) with
    | none => rfl
    | some q =>
        have hle := ht.past _ q (ht.forth q _ (lastUse_of_dropTick ht hk).2)
        omega
  have hvalues : (r.touch p).byTick.values = p :: (r.dropTick p).values := by
    simp only [touch, Assoc.values, Assoc.insert, Assoc.erase_eq_self _ _ hnew, List.map_cons]
  unfold candidates
  rw [hvalues, values_dropTick ht, List.reverse_cons, List.filter_reverse]

end Tidy

/-! ## Reports -/

theorem clock_note (r : Recency) (report : Report) :
    (r.note report).clock = r.clock + if report.isUse then 1 else 0 := by
  cases report <;> rfl

/-- Nothing is on a record that was told nothing. -/
theorem lists_empty : Lists {} [] := ⟨tidy_empty, rfl, List.nodup_nil, List.Pairwise.nil⟩

section Lists

variable {r : Recency} {pages : List PageId} (h : r.Lists pages)

include h

/-- Pages keep their order if their last uses keep their ticks. -/
theorem Lists.ordered_erase {r' : Recency} {p : PageId}
    (hkeep : ∀ q, q ≠ p → r'.lastUse.get? q = r.lastUse.get? q) :
    (pages.erase p).Pairwise r'.UsedBefore := by
  refine (h.ordered.sublist List.erase_sublist).imp_of_mem fun ha hb hab => ?_
  rcases hab with ⟨j, k, hj, hk, hlt⟩
  refine ⟨j, k, ?_, ?_, hlt⟩
  · rw [hkeep _ (h.nodup.mem_erase_iff.1 ha).1, hj]
  · rw [hkeep _ (h.nodup.mem_erase_iff.1 hb).1, hk]

/-- The page to be deleted stands in the list once at most, so what is left are the other pages. -/
theorem Lists.erase_eq_filter (p : PageId) : pages.erase p = pages.filter (· ≠ p) := by
  rw [h.nodup.erase_eq_filter]
  exact List.filter_congr fun q _ => by by_cases hq : q = p <;> simp [hq]

theorem lists_remove (p : PageId) : (r.remove p).Lists (pages.erase p) where
  tidy := tidy_remove h.tidy p
  list := by rw [candidates_remove h.tidy, h.list, h.erase_eq_filter]
  nodup := h.nodup.erase p
  ordered := h.ordered_erase fun q hq => by rw [lastUse_remove, if_neg hq]

theorem lists_touch (p : PageId) : (r.touch p).Lists (pages.erase p ++ [p]) where
  tidy := tidy_touch h.tidy p
  list := by rw [candidates_touch h.tidy, h.list, h.erase_eq_filter]
  nodup := by
    refine List.nodup_append.2 ⟨h.nodup.erase p, List.pairwise_singleton _ _, fun q hq s hs => ?_⟩
    rw [List.mem_singleton.1 hs]
    exact (h.nodup.mem_erase_iff.1 hq).1
  ordered := by
    refine List.pairwise_append.2 ⟨?_, List.pairwise_singleton _ _, fun q hq s hs => ?_⟩
    · exact h.ordered_erase fun q hq => by rw [lastUse_touch, if_neg hq]
    · -- The new tick is later than that of any page on record.
      rw [List.mem_singleton.1 hs]
      rcases h.nodup.mem_erase_iff.1 hq with ⟨hne, hmem⟩
      rw [← h.list, mem_candidates h.tidy] at hmem
      rcases Option.ne_none_iff_exists'.1 hmem with ⟨j, hj⟩
      have hle := h.tidy.past j q (h.tidy.forth q j hj)
      refine ⟨j, r.clock + 1, ?_, ?_, by omega⟩
      · rw [lastUse_touch, if_neg hne, hj]
      · rw [lastUse_touch, if_pos rfl]

/-- A report makes of the record what it makes of the list. -/
theorem lists_note (report : Report) : (r.note report).Lists (reorder pages report) := by
  cases report with
  | used p => exact lists_touch h p
  | left p => exact lists_remove h p

end Lists

/-- So do reports, one after the other. -/
theorem lists_noteAll {r : Recency} {pages : List PageId} (h : r.Lists pages)
    (reports : List Report) : (r.noteAll reports).Lists (reports.foldl reorder pages) := by
  induction reports generalizing r pages with
  | nil => exact h
  | cons report rest ih => exact ih (lists_note h report)

theorem clock_noteAll (r : Recency) (reports : List Report) :
    (r.noteAll reports).clock = r.clock + reports.countP Report.isUse := by
  induction reports generalizing r with
  | nil => rfl
  | cons report rest ih =>
      have hrest : (r.noteAll (report :: rest)).clock = ((r.note report).noteAll rest).clock := rfl
      rw [hrest, ih, clock_note, List.countP_cons]
      omega

/-- Whatever uses and departures are reported to a record that starts without pages: its candidates
    are what becomes of the list without pages when every use moves its page to the back and every
    departure deletes its page. No page is listed twice, and the pages are in the order of their
    ticks. A page leads to a tick just when the tick leads to the page. No tick is later than the
    clock, which has counted the uses. -/
theorem record_is_move_to_back (reports : List Report) :
    let r := noteAll {} reports
    r.candidates = reports.foldl reorder [] ∧
      r.candidates.Nodup ∧
      r.candidates.Pairwise r.UsedBefore ∧
      (∀ p k, r.lastUse.get? p = some k ↔ r.byTick.get? k = some p) ∧
      (∀ p k, r.lastUse.get? p = some k → k ≤ r.clock) ∧
      r.clock = reports.countP Report.isUse := by
  intro r
  have h : r.Lists (reports.foldl reorder []) := lists_noteAll lists_empty reports
  refine ⟨h.list, h.list ▸ h.nodup, h.list ▸ h.ordered,
    fun p k => ⟨h.tidy.forth p k, h.tidy.back k p⟩,
    fun p k hk => h.tidy.past k p (h.tidy.forth p k hk), ?_⟩
  rw [clock_noteAll, Nat.zero_add]

end Recency

end RowStore
