import RowStore.Proofs.Table.Points
import RowStore.Recency

/-!
# A Table as an Ordered Map

What a table answers to insertions, deletions and scans of a transaction that is alone.

Whatever is on the pages and however few of them fit into memory, the table answers as a
map of rows by page and slot would, in which a row goes to the least place that is free.
Pages come and go between the calls and within them, and nothing of that can be seen but
that a call is refused a page now and then.

The search for a place goes through the pages from the first on. Its invariant is that
the pages behind it are full. When it comes to the end every page is full, and the page
that is appended is the next it looks at.

## Main definitions

* `Engine.perform`: One call of a transaction, from its beginning to its end.
* `Engine.serve`: One call after another.

## Theorems

* `Engine.leads_insertion`, `Engine.leads_deletion`, `Engine.leads_scan`: What the three calls
  come to.
* `Engine.Resting.perform`: A call ends, and the table answers as a map.
* `Engine.table_is_ordered_map`: So it does for any calls.
-/

namespace RowStore

namespace Engine

variable {ρ : Type} [EvictionOrder ρ] {t : TxnId} {f : TableFile} {w : Means} {M : TableMap}

/-! ## The three calls -/

/-- A row goes to the first free slot of a page, if the page can be had. -/
theorem leads_placing {row : Bytes} {page slot : Nat} (hcount : M.pages < UInt32.size)
    (hsize : row.size = f.layout.rowWidth) (hpage : page < M.pages)
    (hfirst : M.First f.layout page slot) {post : Outcome → TableMap → Prop}
    (hfail : ∀ e, w.Refuses f e → post (.inserted [] (some e)) M)
    (hplaced : post (.inserted [⟨⟨f.table, page⟩, slot⟩] none) (M.put page slot (some row))) :
    Leads ρ t f w 2 (.claim { table := f.table, rows := [row] } f row page) M post :=
  leads_claim hcount hpage hsize hfirst hfail (leads_placed rfl hplaced)

/-- On a page that was just appended it goes to slot 0. -/
theorem leads_filling {row : Bytes} (hcount : M.grown.pages < UInt32.size)
    (hsize : row.size = f.layout.rowWidth) (hfull : M.Full f.layout)
    (hwithin : M.Within f.layout) :
    Leads ρ t f w 5 (.survey { table := f.table, rows := [row] } f row M.pages) M.grown
      (M.Serves f w (.insert row)) := by
  have hpage : M.pages < M.grown.pages := Nat.lt_succ_self _
  have hfail : ∀ e, w.Refuses f e → M.Serves f w (.insert row) (.inserted [] (some e)) M.grown :=
    fun e he => .unfilled hsize hfull he
  refine leads_survey hcount (leads_seek hpage (leads_inspect hcount hpage hfail ?_ ?_))
  · intro slot hfirst
    have hzero : slot = 0 := hwithin.eq_zero_of_first ⟨hfirst.lt, hfirst.free, hfirst.before⟩
    subst hzero
    exact leads_placing hcount hsize hpage hfirst hfail (.extended hsize hfull)
  · intro hnone
    rcases hwithin.exists_free with ⟨s, hs, hfree⟩
    exact absurd hfree (hnone s hs)

/-- From any page on, the search finds the least place that is free, or a new page. -/
theorem leads_search {row : Bytes} (hcount : M.pages < UInt32.size - 1)
    (hsize : row.size = f.layout.rowWidth) (hwithin : M.Within f.layout) (left page : Nat)
    (hleft : page + left = M.pages) (hbefore : M.FullBefore f.layout page) :
    Leads ρ t f w (2 * left + 6) (.seek { table := f.table, rows := [row] } f row page M.pages) M
      (M.Serves f w (.insert row)) := by
  have hcounted : M.pages < UInt32.size := Nat.lt_of_lt_of_le hcount (Nat.sub_le _ _)
  -- By the pages that are left. Those behind are full.
  induction left generalizing page with
  | zero =>
      obtain rfl : page = M.pages := hleft
      have hgrown : M.grown.pages < UInt32.size := Nat.add_lt_of_lt_sub hcount
      exact leads_append (Nat.le_refl _) hcounted (.overlong hsize hbefore.full)
        (leads_filling hgrown hsize hbefore.full hwithin)
  | succ left ih =>
      have hpage : page < M.pages := by omega
      have hfail : ∀ e, w.Refuses f e → M.Serves f w (.insert row) (.inserted [] (some e)) M :=
        fun e he => .unplaced hsize he
      refine leads_seek hpage (leads_inspect hcounted hpage hfail ?_ ?_)
      · intro slot hfirst
        exact (leads_placing hcounted hsize hpage hfirst hfail
          (.placed hsize (hfirst.least hpage hbefore))).mono (by omega)
      · intro hfull
        exact ih (page + 1) (by omega) (hbefore.succ hfull)

theorem leads_insertion (hcount : M.pages < UInt32.size - 1) (hwithin : M.Within f.layout)
    (row : Bytes) :
    Leads ρ t f w (2 * M.pages + 8) (.insert { table := f.table, rows := [row] }) M
      (M.Serves f w (.insert row)) := by
  by_cases hsize : row.size = f.layout.rowWidth
  · exact leads_row rfl rfl hsize (leads_survey (Nat.lt_of_lt_of_le hcount (Nat.sub_le _ _))
      (leads_search hcount hsize hwithin M.pages 0 (Nat.zero_add _)
        fun _ _ h => absurd h (Nat.not_lt_zero _)))
  · exact (leads_misfit rfl rfl hsize (.misfit hsize)).mono (by omega)

theorem leads_deletion (hcount : M.pages < UInt32.size) (page slot : Nat) :
    Leads ρ t f w 2 (.delete (some ⟨⟨f.table, page⟩, slot⟩)) M
      (M.Serves f w (.delete page slot)) :=
  leads_delete rfl <| leads_remove hcount
    (fun _ he => .undeleted he)
    (fun hpage => .noPage hpage)
    (fun hpage hslot => .noSlot hpage hslot)
    (fun hpage hslot hnone => .noRow ⟨hpage, hslot, hnone⟩)
    (fun _ hrow => .deleted hrow)

theorem leads_scan (hcount : M.pages < UInt32.size) (hwithin : M.Within f.layout) :
    Leads ρ t f w (3 * M.pages + 1)
      (.advance (Cursor.start { file := f, txn := t }) (.drain [])) M (M.Serves f w .scan) := by
  refine leads_drain hcount (fun _ _ he => .unlisted he) M.pages { file := f, txn := t } [] rfl
    (Nat.zero_add _) fun cursor => .listed ?_
  rw [Nat.sub_self]
  exact TableMap.lists_listing hwithin

/-! ## One call after another -/

/-- As many steps as a call takes at most on a table of so many pages. -/
def enough (pages : Nat) : Nat := 3 * pages + 8

theorem leads_call (hcount : M.pages < UInt32.size - 1) (hwithin : M.Within f.layout)
    (call : TableCall) :
    Leads ρ t f w (enough M.pages) (call.task f t) M (M.Serves f w call) := by
  have hcounted : M.pages < UInt32.size := Nat.lt_of_lt_of_le hcount (Nat.sub_le _ _)
  unfold enough
  cases call with
  | insert row => exact (leads_insertion hcount hwithin row).mono (by omega)
  | delete page slot => exact (leads_deletion hcounted page slot).mono (by omega)
  | scan => exact (leads_scan hcounted hwithin).mono (by omega)

/-- A transaction asks a table for something, and the call goes on to its end. -/
def perform (E : Engine ρ) (t : TxnId) (f : TableFile) (call : TableCall) :
    Engine ρ × List Outcome :=
  let (E', ended) := (E.submit t (call.task f t)).2.settle (enough (f.pagesOn E.pool.disk))
  (E', ended.map Prod.snd)

/-- It asks for one thing after another: how the calls end, in order. -/
def serve (E : Engine ρ) (t : TxnId) (f : TableFile) : List TableCall → Engine ρ × List Outcome
  | [] => (E, [])
  | call :: rest =>
    let (E', outcome) := E.perform t f call
    let (E'', outcomes) := E'.serve t f rest
    (E'', outcome ++ outcomes)

/-- The call ends, and the table answers as a map would. -/
theorem Resting.perform {E : Engine ρ} (h : E.Resting t f w)
    (hcount : f.pagesOn E.pool.disk < UInt32.size - 1) (call : TableCall) :
    ∃ E' outcome, E.perform t f call = (E', [outcome]) ∧ E'.Resting t f w ∧
      (E.pool.tableMap f).Serves f w call outcome (E'.pool.tableMap f) := by
  have hbusy : Busy (E.submit t (call.task f t)).2 t f w ⟨E.nextCall⟩ (call.task f t) :=
    ⟨h.alone, by simp [submit, Assoc.insert, Assoc.erase, h.calls]⟩
  rcases leads_call hcount h.alone.within call _ _ hbusy rfl _ (Nat.le_refl _) with
    ⟨E', outcome, hsettle, hrest, hserves⟩
  refine ⟨E', outcome, ?_, hrest, hserves⟩
  have hpages : (E.pool.tableMap f).pages = f.pagesOn E.pool.disk := rfl
  rw [hpages] at hsettle
  simp only [Engine.perform, hsettle, List.map_cons, List.map_nil]

/-- As long as the table can be counted, every call of a transaction that is alone ends, and the
    table answers as an ordered map would to one after another. -/
theorem table_is_ordered_map {E : Engine ρ} (h : E.Resting t f w) (calls : List TableCall)
    (hcount : ∀ n, n < calls.length →
      f.pagesOn (E.serve t f (calls.take n)).1.pool.disk < UInt32.size - 1) :
    (E.pool.tableMap f).Within f.layout ∧ (E.serve t f calls).1.Resting t f w ∧
      TableMap.Run f w (E.pool.tableMap f) calls (E.serve t f calls).2
        ((E.serve t f calls).1.pool.tableMap f) := by
  refine ⟨h.alone.within, ?_⟩
  induction calls generalizing E with
  | nil => exact ⟨h, .nil _⟩
  | cons call rest ih =>
      rcases h.perform (hcount 0 (Nat.zero_lt_succ _)) call with
        ⟨E', outcome, hperform, hrest, hserves⟩
      have hnext : ∀ calls, E.serve t f (call :: calls) =
          ((E'.serve t f calls).1, outcome :: (E'.serve t f calls).2) := by
        intro calls
        simp only [serve, hperform, List.singleton_append]
      rcases ih hrest fun n hn => by
        have := hcount (n + 1) (Nat.succ_lt_succ hn)
        rwa [List.take_succ_cons, hnext] at this with ⟨hrest', hrun⟩
      rw [hnext]
      exact ⟨hrest', .cons hserves hrun⟩

/-- A table of two pages with a slot each is filled and grows. The fourth row has it grow once
    more, but there is no frame for the page. Then rows are to be taken off, of which only one is
    there, and the place is taken again. -/
def fillAndFree : List TableCall :=
  [.insert #[7], .insert #[8], .insert #[9], .scan, .insert #[4], .delete 0 0, .delete 0 0,
    .delete 1 1, .delete 5 0, .insert #[6, 6], .insert #[6]]

/-- What it comes to with three frames. -/
theorem table_is_ordered_map_fillAndFree :
    ((tiny 3 ({} : Recency)).serve ⟨1⟩ .tiny fillAndFree).2 =
      [.inserted [⟨⟨⟨1⟩, 0⟩, 0⟩] none,
        .inserted [⟨⟨⟨1⟩, 1⟩, 0⟩] none,
        .inserted [⟨⟨⟨1⟩, 2⟩, 0⟩] none,
        .moved { file := .tiny, txn := ⟨1⟩, nextPage := 3, rows := some [] } (.ok (.rows
          [⟨some ⟨⟨⟨1⟩, 0⟩, 0⟩, #[7]⟩, ⟨some ⟨⟨⟨1⟩, 1⟩, 0⟩, #[8]⟩, ⟨some ⟨⟨⟨1⟩, 2⟩, 0⟩, #[9]⟩])),
        .inserted [] (some (.noEvictableFrame 3)),
        .deleted,
        .failed (.rowNotFound 0),
        .failed (.invalidSlot 1 0),
        .failed (.pageOutOfRange ⟨⟨1⟩, 5⟩ 4),
        .inserted [] (some (.invalidArgument (.rowForTable 2 ⟨1⟩ 1))),
        .inserted [⟨⟨⟨1⟩, 0⟩, 0⟩] none] ∧
    TableMap.Run .tiny (tiny 3 ({} : Recency)).pool.means
      ((tiny 3 ({} : Recency)).pool.tableMap .tiny) fillAndFree
      ((tiny 3 ({} : Recency)).serve ⟨1⟩ .tiny fillAndFree).2
      (((tiny 3 ({} : Recency)).serve ⟨1⟩ .tiny fillAndFree).1.pool.tableMap .tiny) := by
  have hrest := (fresh_tiny 3 ({} : Recency)).resting (f := .tiny) (by decide +kernel) ⟨1⟩
  have hcount : ∀ n, n < fillAndFree.length →
      TableFile.tiny.pagesOn ((tiny 3 ({} : Recency)).serve ⟨1⟩ .tiny
        (fillAndFree.take n)).1.pool.disk < UInt32.size - 1 := by
    decide +kernel
  exact ⟨by decide +kernel, (table_is_ordered_map hrest fillAndFree hcount).2.2⟩

/-- Not every place without a row is said to be one: past the pages it is the page that is said not
    to be there. -/
theorem absent_past_pages :
    ¬ ∀ (E : Engine Recency) (t : TxnId) (f : TableFile) (w : Means) (page slot : Nat),
      E.Resting t f w → f.pagesOn E.pool.disk < UInt32.size - 1 →
      (E.pool.tableMap f).rows page slot = none →
      ∃ E' e, E.perform t f (.delete page slot) = (E', [.failed e]) ∧
        (e = .rowNotFound slot ∨
          f.layout.slots ≤ slot ∧ e = .invalidSlot slot (f.layout.slots - 1) ∨
          w.Refuses f e) := by
  intro h
  have hrest := (fresh_tiny 1 ({} : Recency)).resting (f := .tiny) (by decide +kernel) ⟨1⟩
  rcases h (tiny 1 {}) ⟨1⟩ .tiny _ 2 0 hrest (by decide +kernel) (by decide +kernel) with
    ⟨E', e, hperform, hwhy⟩
  have hactual : ((tiny 1 ({} : Recency)).perform ⟨1⟩ .tiny (.delete 2 0)).2 =
      [.failed (.pageOutOfRange ⟨⟨1⟩, 2⟩ 2)] := by
    decide +kernel
  rw [hperform] at hactual
  cases hactual
  rcases hwhy with h | ⟨_, h⟩ | h
  · cases h
  · cases h
  · cases h

end Engine

end RowStore
