import RowStore.Proofs.Catalog

/-!
# Tables Known by Name and by Id

The tables of a database, held against those of its pool.

A table is known twice: to the database by its name, and to the pool by its id. The id is
computed from what the table's path stands for, and nothing is assumed here of how. Two
paths may well have one id. Then the second table is refused, for otherwise it would take
the first one's place in the pool, and the pages of the first would be looked for in the
file of the second.

A call for a table has many ways to be refused, and whichever it is happens before
anything is done. What a call does if it is not refused is said by `Changes`: at most one
table is made known, under a name that none had, and at most one file is made, at a place
where nothing was.

## Main definitions

* `CatalogEvent.isCall`, `Database.outcome`: The calls for a table, and what one brings.
* `Database.Changes`: What an event makes of a database.
* `Database.Agrees`: The tables known by name are those known by id.
* `Database.KeepsFiles`: What was in the directories before is there as it was.

## Theorems

* `Database.changes_exec`: Every event makes one of these changes.
* `Database.exec_of_refused`: A call that is refused makes none.
* `Database.Changes.agrees`, `Database.agrees_run`: Tables and pool go on agreeing.
* `Database.Changes.table?`, `Database.table?_run`: A name stays with its table.
* `Database.Changes.keepsFiles`: A call leaves alone what there is.
* `Database.tables_and_pool_agree`: All of it, after any calls.
-/

namespace RowStore

/-- Whether an event is a call for a table. -/
def CatalogEvent.isCall : CatalogEvent → Bool
  | .create _ _ | .take _ _ => true
  | .engine _ => false

namespace Database

variable {ρ : Type}

/-- The table that a call brings, or why the call is refused. -/
def outcome (db : Database ρ) : CatalogEvent → Except CatalogError (Option TableFile)
  | .create name rowWidth => (db.makeTable name rowWidth).2.map some
  | .take name rowWidth => (db.takeTable name rowWidth).2.map some
  | .engine _ => .ok none

/-- What an event makes of a database. A table that is made known has a new name, and an id that no
    other table has; if it is created, so is its file. -/
inductive Changes [EvictionOrder ρ] (db : Database ρ) : CatalogEvent → Database ρ → Prop
  | worked (ev : Event) : Changes db (.engine ev) { db with engine := (db.engine.exec ev).1 }
  | refused {call : CatalogEvent} {e : CatalogError} (h : db.outcome call = .error e) :
      Changes db call db
  | again {name : String} {rowWidth : Nat} {f : TableFile} (h : db.table? name = some f) :
      Changes db (.take name rowWidth) db
  | taken {name : String} {rowWidth : Nat} {f : TableFile} (new : db.table? name = none)
      (id : db.tableId name = .ok f.table) :
      Changes db (.take name rowWidth) (db.register name f)
  | made {name : String} {rowWidth : Nat} {f : TableFile} {tree : Tree}
      (new : db.table? name = none) (id : db.tableId name = .ok f.table)
      (vacant : db.tree.exists? (db.tablePath name) = false)
      (file : db.tree.createFile (db.tablePath name) = .ok (tree, f.file)) :
      Changes db (.create name rowWidth) ((db.withFile tree f).register name f)

/-- The tables known by name are those known by id: the pool finds each of them by its id, and no
    other ones. Every file has a number that was given out. -/
structure Agrees (db : Database ρ) : Prop where
  numbered : db.tree.Numbered
  told : ∀ a b f g, db.table? a = some f → db.table? b = some g → f.table = g.table → a = b
  kept : ∀ a f, db.table? a = some f → db.engine.pool.tables.get? f.table = some f
  known : ∀ t f, db.engine.pool.tables.get? t = some f → f.table = t ∧ ∃ a, db.table? a = some f

/-- What was in the directories of a database before is there afterwards, and the files among it
    have the same contents. -/
structure KeepsFiles (db db' : Database ρ) : Prop where
  places : ∀ place node, db.tree.node? place = some node → db'.tree.node? place = some node
  contents : ∀ place n, db.tree.node? place = some (.file n) →
    db'.engine.pool.disk.image n = db.engine.pool.disk.image n

theorem KeepsFiles.refl (db : Database ρ) : db.KeepsFiles db := ⟨fun _ _ h => h, fun _ _ _ => rfl⟩

theorem run_append [EvictionOrder ρ] (db : Database ρ) (evs more : List CatalogEvent) :
    db.run (evs ++ more) = (db.run evs).run more := by
  induction evs generalizing db with
  | nil => rfl
  | cons ev rest ih => exact ih (db.exec ev)

/-! ## One table more -/

/-- A table with a new name and an id of its own is known by both afterwards. -/
theorem Agrees.register {db : Database ρ} (h : db.Agrees) {name : String} {f : TableFile}
    (hnew : db.table? name = none)
    (hid : ∀ b g, db.table? b = some g → g.table = f.table → b = name) :
    (db.register name f).Agrees where
  numbered := h.numbered
  told := told_register hid h.told
  kept a g ha := by
    have hpool : (db.register name f).engine.pool.tables.get? g.table =
        if g.table = f.table then some f else db.engine.pool.tables.get? g.table :=
      Assoc.get?_insert _ _ _ _
    rw [table?_register] at ha
    rw [hpool]
    split at ha
    · cases ha
      rw [if_pos rfl]
    · -- Had the other table this id, the call would have been refused.
      have hne : g.table ≠ f.table := fun heq => absurd (hid a g ha heq) ‹_›
      rw [if_neg hne, h.kept a g ha]
  known := known_register hnew h.known

/-- A new file changes nothing of what is known. -/
theorem Agrees.withFile {db : Database ρ} (h : db.Agrees) {tree : Tree} (hn : tree.Numbered)
    (f : TableFile) : (db.withFile tree f).Agrees :=
  ⟨hn, h.told, h.kept, h.known⟩

/-- A new file is none of those that are there, and neither is its place. -/
theorem keepsFiles_withFile {db : Database ρ} (hn : db.tree.Numbered) {path : String} {tree : Tree}
    {f : TableFile} (hfile : db.tree.createFile path = .ok (tree, f.file))
    (hno : db.tree.exists? path = false) : db.KeepsFiles (db.withFile tree f) := by
  rcases Tree.createFile_new hfile hno with ⟨hnum, place, hne, hnone, rfl, _⟩
  refine ⟨fun q node hq => ?_, fun q n hq => ?_⟩
  · have hother : q ≠ place := by
      rintro rfl
      rw [hnone] at hq
      cases hq
    have hnode := Tree.node?_insert (t := db.tree) hne (.file ⟨db.tree.nextFile⟩)
      (db.tree.nextFile + 1) q
    rw [if_neg hother, hq] at hnode
    exact hnode
  · refine Disk.image_put_other _ _ ?_
    rintro rfl
    have hlt := hn q _ hq
    have heq : f.pages.file = ⟨db.tree.nextFile⟩ := hnum
    rw [heq] at hlt
    exact Nat.lt_irrefl _ hlt

/-! ## Events -/

section events

variable [EvictionOrder ρ] {db : Database ρ}

/-- Every event makes one of these changes. -/
theorem changes_exec (db : Database ρ) (ev : CatalogEvent) : db.Changes ev (db.exec ev) := by
  cases ev with
  | create name rowWidth =>
      simp only [exec]
      rcases db.makeTable_cases name rowWidth with
        ⟨e, heq⟩ | ⟨f, tree, hnew, hno, hid, hfile, heq⟩
      · rw [heq]
        exact .refused (e := e) (by rw [outcome, heq]; rfl)
      · rw [heq]
        exact .made hnew hid hno hfile
  | take name rowWidth =>
      simp only [exec]
      rcases db.takeTable_cases name rowWidth with
        ⟨e, heq⟩ | ⟨f, hopen, heq⟩ | ⟨f, hnew, hid, _, _, heq⟩
      · rw [heq]
        exact .refused (e := e) (by rw [outcome, heq]; rfl)
      · rw [heq]
        exact .again hopen
      · rw [heq]
        exact .taken hnew hid
  | engine ev => exact .worked ev

/-- A call that is refused leaves the database as it was, whichever of its checks has failed. -/
theorem exec_of_refused {ev : CatalogEvent} {e : CatalogError} (h : db.outcome ev = .error e) :
    db.exec ev = db := by
  cases ev with
  | create name rowWidth =>
      simp only [exec]
      simp only [outcome] at h
      rcases db.makeTable_cases name rowWidth with ⟨_, heq⟩ | ⟨_, _, _, _, _, _, heq⟩
      · rw [heq]
      · rw [heq] at h
        cases h
  | take name rowWidth =>
      simp only [exec]
      simp only [outcome] at h
      rcases db.takeTable_cases name rowWidth with ⟨_, heq⟩ | ⟨_, _, heq⟩ | ⟨_, _, _, _, _, heq⟩
      · rw [heq]
      · rw [heq] at h
        cases h
      · rw [heq] at h
        cases h
  | engine ev => cases h

omit [EvictionOrder ρ] in
/-- The table that a call brings is the one that its name leads to. -/
theorem table?_of_createTable {db' : Database ρ} {name : String} {rowWidth : Nat} {f : TableFile}
    (h : db.createTable name rowWidth = .ok (f, db')) : db'.table? name = some f := by
  unfold createTable at h
  rcases db.makeTable_cases name rowWidth with ⟨_, heq⟩ | ⟨_, _, _, _, _, _, heq⟩
  · rw [heq] at h
    cases h
  · rw [heq] at h
    cases h
    rw [table?_register, if_pos rfl]

omit [EvictionOrder ρ] in
theorem table?_of_openTable {db' : Database ρ} {name : String} {rowWidth : Nat} {f : TableFile}
    (h : db.openTable name rowWidth = .ok (f, db')) : db'.table? name = some f := by
  unfold openTable at h
  rcases db.takeTable_cases name rowWidth with ⟨_, heq⟩ | ⟨_, hopen, heq⟩ | ⟨_, _, _, _, _, heq⟩
  · rw [heq] at h
    cases h
  · rw [heq] at h
    cases h
    exact hopen
  · rw [heq] at h
    cases h
    rw [table?_register, if_pos rfl]

section changes

variable {db' : Database ρ} {ev : CatalogEvent} (hc : db.Changes ev db')

include hc

theorem Changes.agrees (h : db.Agrees) : db'.Agrees := by
  cases hc with
  | worked ev =>
      have hsame := db.engine.tables_exec ev
      exact ⟨h.numbered, h.told,
        fun a f ha => (congrArg (·.get? f.table) hsame).trans (h.kept a f ha),
        fun t f hf => h.known t f (hsame ▸ hf)⟩
  | refused _ => exact h
  | again _ => exact h
  | taken hnew hid => exact h.register hnew (tableId_eq_ok hid).2
  | made hnew hid hno hfile =>
      have hn := Tree.numbered_createFile h.numbered hfile hno
      exact (h.withFile hn _).register hnew (tableId_eq_ok hid).2

/-- A name stays with its table, because it is not given to another one. -/
theorem Changes.table? {a : String} {f : TableFile} (ha : db.table? a = some f) :
    db'.table? a = some f := by
  have hother : ∀ {name}, db.table? name = none → a ≠ name := by
    rintro name hnew rfl
    rw [hnew] at ha
    cases ha
  cases hc with
  | worked _ => exact ha
  | refused _ => exact ha
  | again _ => exact ha
  | taken hnew _ => rw [table?_register, if_neg (hother hnew), ha]
  | made hnew _ _ _ =>
      rw [table?_register, if_neg (hother hnew)]
      exact ha

/-- A call leaves alone what there is. -/
theorem Changes.keepsFiles (hcall : ev.isCall = true) (hn : db.tree.Numbered) :
    db.KeepsFiles db' := by
  cases hc with
  | worked _ => cases hcall
  | refused _ => exact .refl db
  | again _ => exact .refl db
  | taken _ _ => exact ⟨fun _ _ h => h, fun _ _ _ => rfl⟩
  | made _ _ hno hfile =>
      have hkeep := keepsFiles_withFile hn hfile hno
      exact ⟨hkeep.places, hkeep.contents⟩

end changes

theorem agrees_run (h : db.Agrees) (evs : List CatalogEvent) : (db.run evs).Agrees := by
  induction evs generalizing db with
  | nil => exact h
  | cons ev rest ih => exact ih ((changes_exec db ev).agrees h)

theorem table?_run {a : String} {f : TableFile} (ha : db.table? a = some f)
    (evs : List CatalogEvent) : (db.run evs).table? a = some f := by
  induction evs generalizing db with
  | nil => exact ha
  | cons ev rest ih => exact ih ((changes_exec db ev).table? ha)

end events

theorem agrees_openAt {idOf : List String → TableId} {order : ρ} {tree : Tree} {disk : Disk}
    {dir : String} {sizing : Sizing} {db : Database ρ} (hn : tree.Numbered)
    (h : openAt idOf order tree disk dir sizing = .ok db) : db.Agrees := by
  unfold openAt at h
  split at h
  · cases h
  rename_i tree' hdirs
  split at h
  · cases h
  split at h
  · cases h
  cases h
  exact {
    numbered := hn.of_files (Tree.filesOf_makeDirs hdirs)
    told := fun a b f g ha => by cases ha
    kept := fun a f ha => by cases ha
    known := fun t f hf => by cases hf }

/-- Whatever ids are computed by, and whatever calls for tables there have been in a database,
    refused or not, with any work of its engine in between: no two tables have one id; the pool
    finds a table by its id just when a name leads to the table; and whatever comes later, the name
    will lead to it still. A table that a call hands out is the one that its name leads to from then
    on. A call that is refused changes nothing, and no call changes a file that was there before it.
    -/
theorem tables_and_pool_agree [EvictionOrder ρ] {idOf : List String → TableId} {order : ρ}
    {tree : Tree} {disk : Disk} {dir : String} {sizing : Sizing} {start : Database ρ}
    (hn : tree.Numbered) (hopen : openAt idOf order tree disk dir sizing = .ok start)
    (evs : List CatalogEvent) :
    let db := start.run evs
    (∀ a b f g, a ≠ b → db.table? a = some f → db.table? b = some g → f.table ≠ g.table) ∧
    (∀ a f, db.table? a = some f → db.engine.pool.table f.table = .ok f) ∧
    (∀ t f, db.engine.pool.table t = .ok f → f.table = t ∧ ∃ a, db.table? a = some f) ∧
    (∀ a f more, db.table? a = some f → (start.run (evs ++ more)).table? a = some f) ∧
    (∀ name rowWidth f db', db.createTable name rowWidth = .ok (f, db') ∨
      db.openTable name rowWidth = .ok (f, db') → db'.table? name = some f) ∧
    (∀ call e, db.outcome call = .error e → db.exec call = db) ∧
    (∀ call, call.isCall = true → db.KeepsFiles (db.exec call)) := by
  intro db
  have h : db.Agrees := agrees_run (agrees_openAt hn hopen) evs
  refine ⟨fun a b f g hne ha hb heq => hne (h.told a b f g ha hb heq), fun a f ha => ?_,
    fun t f hf => ?_, fun a f more ha => ?_, fun name rowWidth f db' hcall => ?_,
    fun call e he => exec_of_refused he,
    fun call hcall => (changes_exec db call).keepsFiles hcall h.numbered⟩
  · rw [Pool.table, h.kept a f ha]
  · unfold Pool.table at hf
    split at hf
    · cases hf
      exact h.known t f ‹_›
    · cases hf
  · rw [run_append]
    exact table?_run ha more
  · exact hcall.elim table?_of_createTable table?_of_openTable

/-- A database in which every table would have the same id. -/
def oneId : Database Recency := { plain with idOf := fun _ => ⟨7⟩ }

/-- The first table is created in it, and the second is refused and changes nothing. -/
theorem tables_and_pool_agree_oneId :
    plainTree.Numbered ∧
      openAt (fun _ => ⟨7⟩) ({} : Recency) plainTree {} "/data" {} = .ok oneId ∧
      (oneId.run [.create "a" 4]).outcome (.create "b" 4) = .error (.idTaken "b" ⟨7⟩) ∧
      (oneId.run [.create "a" 4]).exec (.create "b" 4) = oneId.run [.create "a" 4] ∧
      ∃ f, (oneId.run [.create "a" 4]).table? "a" = some f ∧
        (oneId.run [.create "a" 4]).engine.pool.table ⟨7⟩ = .ok f := by
  have hn : plainTree.Numbered := sound_plainTree.numbered
  rcases tables_and_pool_agree hn (openAt_plainTree fun _ => ⟨7⟩) [.create "a" 4] with
    ⟨_, hpool, _, _, _, hrefused, _⟩
  have hb : (oneId.run [.create "a" 4]).outcome (.create "b" 4) = .error (.idTaken "b" ⟨7⟩) := rfl
  have ha : ((oneId.run [.create "a" 4]).table? "a").map TableFile.table = some ⟨7⟩ := by
    decide +kernel
  rcases Option.map_eq_some_iff.1 ha with ⟨f, hf, hid⟩
  exact ⟨hn, openAt_plainTree _, hb, hrefused _ _ hb, f, hf, hid ▸ hpool "a" f hf⟩

end Database

end RowStore
