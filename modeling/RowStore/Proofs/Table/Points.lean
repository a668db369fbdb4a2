import RowStore.Proofs.Table.Alone

/-!
# The Points of a Call

What each point of a call's work makes of the table's map.

There is one rule for a point, or one for each way in which the work can go on from it.
A rule says what has to be shown of the point that comes next, and of the outcomes with
which the call may end where it is. Most points leave the map alone. Only an append, a
claim and a removal change it, and where they are refused they do not.

A page that the call works on can be refused for want of a frame or by the device. So the
rules of the points that fetch a page ask that the call may end with such an error there.

## Theorems

* `Engine.leads_append`: The table grows.
* `Engine.leads_inspect`, `Engine.leads_claim`: A page is looked at, and a row is put on it.
* `Engine.leads_remove`: A row is taken off.
* `Engine.leads_drain`: A scan goes through the pages that are left.
-/

namespace RowStore

/-- The rows that are read on a page are those of the map. -/
theorem Pool.pageRows_eq {ρ : Type} (P : Pool ρ) (f : TableFile) (page : Nat) :
    pageRows f.layout ⟨f.table, page⟩ (P.shown ⟨f.table, page⟩) =
      (P.tableMap f).rowsOn f page := by
  unfold pageRows TableMap.rowsOn SlotPage.rows
  rw [List.map_filterMap]
  refine List.filterMap_congr fun slot hslot => ?_
  have hget : (P.tableMap f).rows page slot =
      SlotPage.get? f.layout (P.shown ⟨f.table, page⟩) slot := rfl
  rw [hget, SlotPage.get?_eq, SlotPage.used, decide_eq_true (List.mem_range.1 hslot),
    Bool.true_and]
  split <;> rfl

namespace Engine

variable {ρ : Type} [EvictionOrder ρ] {t : TxnId} {f : TableFile} {w : Means} {M : TableMap}
  {post : Outcome → TableMap → Prop} {fuel : Nat} {job : Insertion} {row : Bytes} {page count : Nat}

/-! ## Insertions, point by point -/

theorem leads_placed (hrows : job.rows = []) (h : post (job.outcome none) M) :
    Leads ρ t f w 1 (.insert job) M post :=
  Leads.step fun P hP hM _ => by
    refine ⟨P, .inr (job.outcome none), ?_, hP, hM ▸ h⟩
    simp only [Task.run, hrows]

theorem leads_row (ht : job.table = f.table) (hrows : job.rows = [row])
    (hsize : row.size = f.layout.rowWidth)
    (h : Leads ρ t f w fuel (.survey job f row 0) M post) :
    Leads ρ t f w (fuel + 1) (.insert job) M post :=
  Leads.step fun P hP hM _ => by
    refine ⟨P, .inl (.survey job f row 0), ?_, hP, hM ▸ h⟩
    simp only [Task.run, hrows, ht, Pool.table, hP.known, TableFile.checkRow, hsize, if_true]

theorem leads_misfit (ht : job.table = f.table) (hrows : job.rows = [row])
    (hsize : row.size ≠ f.layout.rowWidth)
    (h : post (job.outcome (some (.invalidArgument
      (.rowForTable row.size f.table f.layout.rowWidth)))) M) :
    Leads ρ t f w 1 (.insert job) M post :=
  Leads.step fun P hP hM _ => by
    refine ⟨P, .inr _, ?_, hP, hM ▸ h⟩
    simp only [Task.run, hrows, ht, Pool.table, hP.known, TableFile.checkRow, hsize, if_false]

/-- The pages are counted. -/
theorem leads_survey (hcount : M.pages < UInt32.size)
    (h : Leads ρ t f w fuel (.seek job f row page M.pages) M post) :
    Leads ρ t f w (fuel + 1) (.survey job f row page) M post :=
  Leads.step fun P hP hM _ => by
    subst hM
    refine ⟨P, .inl (.seek job f row page (P.tableMap f).pages), ?_, hP, h⟩
    simp only [Task.run, Pool.pageCount_tableMap hcount]

theorem leads_seek (hlt : page < count)
    (h : Leads ρ t f w fuel (.inspect job f row page count) M post) :
    Leads ρ t f w (fuel + 1) (.seek job f row page count) M post :=
  Leads.step fun P hP hM _ => by
    refine ⟨P, .inl (.inspect job f row page count), ?_, hP, hM ▸ h⟩
    simp only [Task.run, if_pos hlt]

/-- The table grows, unless its file would be too long. -/
theorem leads_append (hle : count ≤ page) (hcount : M.pages < UInt32.size)
    (hfail : w.limit < (M.pages + 1) * f.layout.pageSize →
      post (job.outcome (some (.io .invalidInput))) M)
    (h : Leads ρ t f w fuel (.survey job f row page) M.grown post) :
    Leads ρ t f w (fuel + 1) (.seek job f row page count) M post :=
  Leads.step fun P hP hM _ => by
    subst hM
    have happend := f.append_eq hcount
    by_cases hlimit : (f.pagesOn P.disk + 1) * f.layout.pageSize ≤ P.disk.limit
    · rw [if_pos hlimit] at happend
      have hp := Pool.performs_grown hP.coherent hP.known t
      have hmap : Pool.tableMap { P with disk := f.grown P.disk } f = (P.tableMap f).grown := by
        unfold Pool.tableMap TableMap.grown
        rw [hp.shown, f.pagesOn_grown]
        rfl
      refine ⟨_, .inl (.survey job f row page), ?_, hP.congr hp.coherent rfl rfl rfl, hmap ▸ h⟩
      simp only [Task.run, if_neg (Nat.not_lt.2 hle), happend]
    · rw [if_neg hlimit] at happend
      have hw : w.limit = P.disk.limit := by rw [← hP.means]; rfl
      refine ⟨P, .inr _, ?_, hP, hfail (hw ▸ Nat.lt_of_not_le hlimit)⟩
      simp only [Task.run, if_neg (Nat.not_lt.2 hle), happend]

/-- The page is looked at. It has a free place, or none, or cannot be had. -/
theorem leads_inspect (hcount : M.pages < UInt32.size) (hpage : page < M.pages)
    (hfail : ∀ e, w.Refuses f e → post (job.outcome (some e)) M)
    (hroom : ∀ slot, M.First f.layout page slot →
      Leads ρ t f w fuel (.claim job f row page) M post)
    (hfull : (∀ slot, slot < f.layout.slots → M.rows page slot ≠ none) →
      Leads ρ t f w fuel (.seek job f row (page + 1) count) M post) :
    Leads ρ t f w (fuel + 1) (.inspect job f row page count) M post :=
  Leads.step fun P hP hM _ => by
    subst hM
    rcases hP.fetched_page hcount hpage .readOnly with
      ⟨Q, hQ, hmap, _, _, ⟨frame, hfetch, _, hb⟩ | ⟨e, hfetch, hrefuses⟩⟩
    · have hsize := hP.coherent.size_shown (p := ⟨f.table, page⟩) hP.known
      cases hfree : SlotPage.firstFree f.layout (P.shown ⟨f.table, page⟩) with
      | some slot =>
          rcases SlotPage.firstFree_eq_some hfree with ⟨hlt, hnone, hbefore⟩
          refine ⟨Q, .inl (.claim job f row page), ?_, hQ, hmap ▸ hroom slot ⟨hlt, hnone, hbefore⟩⟩
          simp only [Task.run, hfetch, Task.hasRoom, SlotPage.checkBytes, hb, hsize, if_true, bind,
            Except.bind, hfree, Option.isSome_some]
      | none =>
          have hall := SlotPage.firstFree_eq_none hfree
          refine ⟨Q, .inl (.seek job f row (page + 1) count), ?_, hQ, hmap ▸ hfull hall⟩
          simp only [Task.run, hfetch, Task.hasRoom, SlotPage.checkBytes, hb, hsize, if_true, bind,
            Except.bind, hfree, Option.isSome_none]
    · refine ⟨Q, .inr (job.outcome (some e)), ?_, hQ, hmap ▸ hfail e hrefuses⟩
      simp only [Task.run, hfetch]

/-- The row is put on the page, in its first free place. -/
theorem leads_claim (hcount : M.pages < UInt32.size) (hpage : page < M.pages)
    (hsize : row.size = f.layout.rowWidth) {slot : Nat} (hfirst : M.First f.layout page slot)
    (hfail : ∀ e, w.Refuses f e → post (job.outcome (some e)) M)
    (h : Leads ρ t f w fuel (.insert (job.place ⟨⟨f.table, page⟩, slot⟩))
      (M.put page slot (some row)) post) :
    Leads ρ t f w (fuel + 1) (.claim job f row page) M post :=
  Leads.step fun P hP hM henough => by
    subst hM
    rcases hP.fetched_page hcount hpage .readWrite with
      ⟨Q, hQ, hmap, hshown, hlocks, ⟨frame, hfetch, hr, _⟩ | ⟨e, hfetch, hrefuses⟩⟩
    · have hx : Q.locks.mode? t ⟨f.table, page⟩ = some .exclusive := by
        rw [hlocks]
        exact (henough _ rfl).exclusive rfl
      rcases SlotPage.rowIn_first (hP.coherent.size_shown (p := ⟨f.table, page⟩) hP.known) hsize
        hfirst.lt hfirst.free hfirst.before with ⟨b, hin, hget⟩
      rw [← hshown] at hin hget
      rcases hQ.altered hr hx (fun _ _ _ => Task.size_rowIn) hin hget with
        ⟨R, halter, hR, hput⟩
      refine ⟨R, .inl (.insert (job.place ⟨⟨f.table, page⟩, slot⟩)), ?_, hR, ?_⟩
      · simp only [Task.run, hfetch, Task.putRow_eq, halter]
      · rw [hput, hmap]
        exact h
    · refine ⟨Q, .inr (job.outcome (some e)), ?_, hQ, hmap ▸ hfail e hrefuses⟩
      simp only [Task.run, hfetch]

/-! ## Deletions, point by point -/

theorem leads_delete {r : RowId} (ht : r.page.table = f.table)
    (h : Leads ρ t f w fuel (.remove f r) M post) :
    Leads ρ t f w (fuel + 1) (.delete (some r)) M post :=
  Leads.step fun P hP hM _ => by
    refine ⟨P, .inl (.remove f r), ?_, hP, hM ▸ h⟩
    simp only [Task.run, ht, Pool.table, hP.known, TableFile.checkPage, if_true]

/-- The row is taken off its page, if there is one. -/
theorem leads_remove {slot : Nat} (hcount : M.pages < UInt32.size)
    (hfail : ∀ e, w.Refuses f e → post (.failed e) M)
    (hpast : M.pages ≤ page →
      post (.failed (.pageOutOfRange ⟨f.table, page⟩ M.pages)) M)
    (hslot : page < M.pages → f.layout.slots ≤ slot →
      post (.failed (.invalidSlot slot (f.layout.slots - 1))) M)
    (hnone : page < M.pages → slot < f.layout.slots → M.rows page slot = none →
      post (.failed (.rowNotFound slot)) M)
    (hsome : ∀ row, M.rows page slot = some row → post .deleted (M.put page slot none)) :
    Leads ρ t f w 1 (.remove f ⟨⟨f.table, page⟩, slot⟩) M post :=
  Leads.step fun P hP hM henough => by
    subst hM
    rcases hP.fetched hcount page .readWrite with
      ⟨Q, hQ, hmap, hshown, hlocks, ⟨frame, hfetch, hr, hhere, hb⟩ | ⟨e, hfetch, hwhy⟩⟩
    · have hx : Q.locks.mode? t ⟨f.table, page⟩ = some .exclusive := by
        rw [hlocks]
        exact (henough _ rfl).exclusive rfl
      rcases SlotPage.checkRowAt_cases
        (hP.coherent.size_shown (p := ⟨f.table, page⟩) hP.known) slot with
        ⟨hle, hcheck⟩ | ⟨hlt, hget, hcheck⟩ | ⟨⟨row, hrow⟩, hcheck, b, hout, hget⟩
      · refine ⟨Q, .inr _, ?_, hQ, hmap ▸ hslot hhere hle⟩
        simp only [Task.run, hfetch, hb, hcheck]
      · refine ⟨Q, .inr _, ?_, hQ, hmap ▸ hnone hhere hlt hget⟩
        simp only [Task.run, hfetch, hb, hcheck]
      · rw [← hshown] at hout hget
        rcases hQ.altered hr hx (fun _ _ _ => Task.size_rowOut) hout hget with
          ⟨R, halter, hR, hput⟩
        refine ⟨R, .inr .deleted, ?_, hR, ?_⟩
        · simp only [Task.run, hfetch, hb, hcheck, Task.dropRow_eq, halter]
        · rw [hput, hmap]
          exact hsome row hrow
    · refine ⟨Q, .inr (.failed e), ?_, hQ, hmap ▸ ?_⟩
      · simp only [Task.run, hfetch]
      · rcases hwhy with hrefuses | ⟨hle, rfl⟩
        · exact hfail e hrefuses
        · exact hpast hle

/-! ## Scans, point by point -/

/-- The cursor goes to its next page. -/
theorem leads_turn {cursor : Cursor} {goal : Cursor.Goal} (hfile : cursor.file = f)
    (hrows : cursor.rows = some []) (hcount : M.pages < UInt32.size)
    (hlt : cursor.nextPage < M.pages) (h : Leads ρ t f w fuel (.load cursor goal) M post) :
    Leads ρ t f w (fuel + 1) (.advance cursor goal) M post :=
  Leads.step fun P hP hM _ => by
    subst hM
    refine ⟨P, .inl (.load cursor goal), ?_, hP, h⟩
    simp [Task.run, hrows, hfile, Pool.pageCount_tableMap hcount, hlt]

/-- There is no next page. -/
theorem leads_end {cursor : Cursor} {taken : List Row} (hfile : cursor.file = f)
    (hrows : cursor.rows = some []) (hcount : M.pages < UInt32.size)
    (hle : M.pages ≤ cursor.nextPage) (h : post (.moved cursor (.ok (.rows taken))) M) :
    Leads ρ t f w 1 (.advance cursor (.drain taken)) M post :=
  Leads.step fun P hP hM _ => by
    subst hM
    refine ⟨P, .inr _, ?_, hP, h⟩
    simp [Task.run, hrows, hfile, Pool.pageCount_tableMap hcount, Nat.not_lt.2 hle, Cursor.answer]

/-- The rows that the cursor has are taken. -/
theorem leads_take {cursor : Cursor} {taken : List Row} {r : Row} {rest : List Row}
    (h : Leads ρ t f w fuel
      (.advance { cursor with rows := some [] } (.drain (taken ++ r :: rest))) M post) :
    Leads ρ t f w (fuel + 1)
      (.advance { cursor with rows := some (r :: rest) } (.drain taken)) M post :=
  Leads.step fun P hP hM _ => ⟨P, .inl _, rfl, hP, hM ▸ h⟩

/-- The rows of the next page are read. -/
theorem leads_load {cursor : Cursor} {goal : Cursor.Goal} (hfile : cursor.file = f)
    (hcount : M.pages < UInt32.size) (hlt : cursor.nextPage < M.pages)
    (hfail : ∀ e, w.Refuses f e → post (.moved (cursor.refuse goal) (.error e)) M)
    (h : Leads ρ t f w fuel
      (.advance (cursor.load (M.rowsOn f cursor.nextPage)) goal) M post) :
    Leads ρ t f w (fuel + 1) (.load cursor goal) M post :=
  Leads.step fun P hP hM _ => by
    subst hM
    have hpage : cursor.page = ⟨f.table, cursor.nextPage⟩ := by rw [Cursor.page, hfile]
    rcases hP.fetched_page hcount hlt .readOnly with
      ⟨Q, hQ, hmap, _, _, ⟨frame, hfetch, _, hb⟩ | ⟨e, hfetch, hrefuses⟩⟩
    · have hbytes := hP.coherent.size_shown (p := ⟨f.table, cursor.nextPage⟩) hP.known
      have hrows : pageRows f.layout ⟨f.table, cursor.nextPage⟩
          (P.shown ⟨f.table, cursor.nextPage⟩) = (P.tableMap f).rowsOn f cursor.nextPage :=
        P.pageRows_eq f cursor.nextPage
      refine ⟨Q, .inl (.advance (cursor.load ((P.tableMap f).rowsOn f cursor.nextPage)) goal), ?_,
        hQ, hmap ▸ h⟩
      simp only [Task.run, hpage, hfetch, hb, hfile, Task.rowsOn_eq _ hbytes, hrows]
    · refine ⟨Q, .inr (.moved (cursor.refuse goal) (.error e)), ?_, hQ, hmap ▸ hfail e hrefuses⟩
      simp only [Task.run, hpage, hfetch]

/-- From any page on, a scan takes the rows of the pages that are left. -/
theorem leads_drain (hcount : M.pages < UInt32.size)
    (hfail : ∀ cursor e, w.Refuses f e → post (.moved cursor (.error e)) M)
    (left : Nat) (cursor : Cursor) (taken : List Row) (hfile : cursor.file = f)
    (hleft : cursor.nextPage + left = M.pages)
    (hdone : ∀ cursor, post (.moved cursor
      (.ok (.rows (taken ++ M.listing f (M.pages - left) left)))) M) :
    Leads ρ t f w (3 * left + 1)
      (.advance { cursor with rows := some [] } (.drain taken)) M post := by
  induction left generalizing cursor taken with
  | zero =>
      refine leads_end hfile rfl hcount (by simp only; omega) ?_
      simpa [TableMap.listing] using hdone { cursor with rows := some [] }
  | succ left ih =>
      have hlisting : M.listing f (M.pages - (left + 1)) (left + 1) =
          M.rowsOn f cursor.nextPage ++ M.listing f (M.pages - left) left := by
        have hhere : M.pages - (left + 1) = cursor.nextPage := by omega
        have hnext : M.pages - left = cursor.nextPage + 1 := by omega
        rw [hhere, hnext, TableMap.listing, List.range'_succ, List.flatMap_cons]
        rfl
      rw [hlisting] at hdone
      -- To the page, then onto it, then past its rows if it has any.
      refine leads_turn hfile rfl hcount (by simp only; omega) ?_
      refine leads_load hfile hcount (by simp only; omega) (hfail _) ?_
      have hrest := ih { cursor with nextPage := cursor.nextPage + 1 }
      cases hrows : M.rowsOn f cursor.nextPage with
      | nil =>
          refine (hrest taken hfile (by simp only; omega) fun c => ?_).mono (Nat.le_succ _)
          simpa [hrows] using hdone c
      | cons r rest =>
          refine leads_take (hrest (taken ++ r :: rest) hfile (by simp only; omega) fun c => ?_)
          simpa [hrows] using hdone c

end Engine

end RowStore
