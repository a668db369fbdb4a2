import RowStore.Database
import RowStore.File.Fingerprint
import RowStore.Proofs.File.Places
import RowStore.Proofs.KnownTables
import RowStore.Recency

/-!
# One Table for Each File

Whether two open tables can be in one file.

The pool tells physical pages apart by their ids, so a file has to be open under one
id only. The id of a table is computed from what its path stands for, and a table
whose id is taken is refused. For a file that is there the path stands for the place
of the file, so a second name is found out however it is spelled.

A table that is created has its id computed before the file is made, when its path
leads nowhere and stands for its names. If no name of the path is ".." they spell
the place that the file will have, and the id is right. If the path goes up it may
not be: the file is then known by an id that nobody who opens it by another path
will compute, and it can be opened once more. This is the only way for a file to
come by two names, and it cannot come by a third.

The transactions of a database and their calls do not matter here, whatever they do,
because they leave alone which tables are known.

## Main definitions

* `CatalogEvent`, `Database.run`: What can happen to a database, and the database after it.
* `Database.created`: The names of the tables that are created on the way.
* `Database.Filed`: What is true of every such database.

## Theorems

* `Database.makeTable_cases`, `Database.takeTable_cases`: What comes of a call for a table.
* `Database.filed_openAt`, `Database.filed_exec`, `Database.filed_run`: It stays true.
* `Database.two_names_of_a_file`: A file with two names was created by a path that goes up.
* `Database.one_file_two_tables`: There is such a file.
-/

namespace RowStore

/-- What can happen to a database. -/
inductive CatalogEvent
  /-- A new table. -/
  | create (name : String) (rowWidth : Nat)
  /-- A table whose file is there. -/
  | take (name : String) (rowWidth : Nat)
  /-- Anything that happens to the engine. -/
  | engine (ev : Event)

namespace Database

variable {ρ : Type}

/-- Have an event happen. -/
def exec [EvictionOrder ρ] (db : Database ρ) : CatalogEvent → Database ρ
  | .create name rowWidth => (db.makeTable name rowWidth).1
  | .take name rowWidth => (db.takeTable name rowWidth).1
  | .engine ev => { db with engine := (db.engine.exec ev).1 }

/-- The names of the tables that an event creates. -/
def creates (db : Database ρ) : CatalogEvent → List String
  | .create name rowWidth => if (db.makeTable name rowWidth).2.isOk then [name] else []
  | .take _ _ | .engine _ => []

/-- The database after some events. -/
def run [EvictionOrder ρ] (db : Database ρ) : List CatalogEvent → Database ρ
  | [] => db
  | ev :: rest => (db.exec ev).run rest

/-- The names of the tables that some events create. -/
def created [EvictionOrder ρ] (db : Database ρ) : List CatalogEvent → List String
  | [] => []
  | ev :: rest => db.creates ev ++ (db.exec ev).created rest

/-- What is true of a database in which some tables were created. The id of a table belongs to the
    place of its file unless the table was created by a path that goes up. All ids differ, and so do
    the files of all tables that were created. -/
structure Filed (db : Database ρ) (made : List String) : Prop where
  tree : db.tree.Sound
  rooted : Path.isAbsolute db.dir = true
  level : ¬ Path.Climbs db.dir
  placed : ∀ a f, db.table? a = some f → ∃ place, db.tree.node? place = some (.file f.file) ∧
    (f.table = db.idOf place ∨ a ∈ made ∧ Path.Climbs a)
  told : ∀ a b f g, db.table? a = some f → db.table? b = some g → f.table = g.table → a = b
  alone : ∀ a b f g, a ∈ made → b ∈ made → db.table? a = some f → db.table? b = some g →
    f.file = g.file → a = b
  present : ∀ a ∈ made, db.table? a ≠ none
  known : ∀ t f, db.engine.pool.tables.get? t = some f → f.table = t ∧ ∃ a, db.table? a = some f

/-- An id that a table is given belongs to what its path stands for, and to no other table. -/
theorem tableId_eq_ok {db : Database ρ} {name : String} {id : TableId}
    (h : db.tableId name = .ok id) :
    id = db.idOf (db.tree.identity (db.tablePath name)) ∧
      ∀ b g, db.table? b = some g → g.table = id → b = name := by
  unfold tableId at h
  simp only at h
  split at h
  · cases h
  · rename_i hno
    cases h
    refine ⟨rfl, fun b g hb hg => ?_⟩
    by_cases hne : b = name
    · exact hne
    · refine absurd (List.any_eq_true.2 ⟨(b, g), (Assoc.mem_entries_iff _ _ _).2 hb, ?_⟩) hno
      simp [hne, hg]

/-- The database with a new file in it, which is empty and belongs to a table. -/
def withFile (db : Database ρ) (tree : Tree) (f : TableFile) : Database ρ :=
  { db.mapPool fun P => { P with disk := f.pages.create P.disk } with tree }

theorem prepare_eq_ok {db : Database ρ} {name : String} {rowWidth : Nat} {layout : Layout}
    {id : TableId} (h : db.prepare name rowWidth = .ok (layout, id)) :
    db.tableId name = .ok id := by
  rcases bind_eq_ok h with ⟨layout', _, h⟩
  rcases bind_eq_ok h with ⟨id', hid, h⟩
  cases h
  exact hid

theorem makeFile_eq_ok {db db' : Database ρ} {id : TableId} {path : String} {layout : Layout}
    {f : TableFile} (h : db.makeFile id path layout = .ok (f, db')) :
    f.table = id ∧ ∃ tree, db.tree.createFile path = .ok (tree, f.file) ∧
      db' = db.withFile tree f := by
  unfold makeFile at h
  split at h
  · cases h
  · rename_i tree file hfile
    cases h
    exact ⟨rfl, tree, hfile, rfl⟩

theorem takeFile_eq_ok {db : Database ρ} {id : TableId} {path : String} {layout : Layout}
    {f : TableFile} (h : db.takeFile id path layout = .ok f) :
    f.table = id ∧ db.tree.openFile path = .ok f.file := by
  unfold takeFile at h
  split at h
  · cases h
  · rename_i file hfile
    cases hw : PageFile.openFile ⟨file, layout.pageSize, path⟩ db.engine.pool.disk with
    | error e =>
        simp only [TableFile.pages, hw] at h
        cases h
    | ok u =>
        simp only [TableFile.pages, hw] at h
        cases h
        exact ⟨rfl, hfile⟩

/-- A table that is to be made is refused, and then nothing was done; or it is in a new file. -/
theorem makeTable_cases (db : Database ρ) (name : String) (rowWidth : Nat) :
    (∃ e, db.makeTable name rowWidth = (db, .error e)) ∨
    ∃ f tree, db.table? name = none ∧ db.tree.exists? (db.tablePath name) = false ∧
      db.tableId name = .ok f.table ∧
      db.tree.createFile (db.tablePath name) = .ok (tree, f.file) ∧
      db.makeTable name rowWidth = ((db.withFile tree f).register name f, .ok f) := by
  unfold makeTable
  simp only
  split
  -- Every exit before the last one hands the database back as it was.
  · exact Or.inl ⟨_, rfl⟩
  rename_i hno
  rw [Bool.not_eq_true, Bool.or_eq_false_iff] at hno
  have hnew : db.table? name = none := by
    rw [table?, ← Option.isSome_eq_false_iff.trans Option.isNone_iff_eq_none]
    exact hno.1
  split
  · exact Or.inl ⟨_, rfl⟩
  rename_i layout id hprepare
  split
  · exact Or.inl ⟨_, rfl⟩
  rename_i f db' hmake
  rcases makeFile_eq_ok hmake with ⟨rfl, tree, hfile, rfl⟩
  exact Or.inr ⟨f, tree, hnew, hno.2, prepare_eq_ok hprepare, hfile, rfl⟩

/-- A table that is to be taken up is refused, and then nothing was done; or it is open already; or
    its file is there. -/
theorem takeTable_cases (db : Database ρ) (name : String) (rowWidth : Nat) :
    (∃ e, db.takeTable name rowWidth = (db, .error e)) ∨
    (∃ f, db.table? name = some f ∧ db.takeTable name rowWidth = (db, .ok f)) ∨
    ∃ f, db.table? name = none ∧ db.tableId name = .ok f.table ∧
      db.tree.exists? (db.tablePath name) = true ∧
      db.tree.openFile (db.tablePath name) = .ok f.file ∧
      db.takeTable name rowWidth = (db.register name f, .ok f) := by
  unfold takeTable
  split
  · rename_i f hopen
    exact Or.inr (Or.inl ⟨f, hopen, rfl⟩)
  rename_i hnew
  simp only
  split
  · exact Or.inl ⟨_, rfl⟩
  rename_i hyes
  rw [Bool.not_eq_true, Bool.not_eq_false'] at hyes
  split
  · exact Or.inl ⟨_, rfl⟩
  rename_i layout id hprepare
  split
  · exact Or.inl ⟨_, rfl⟩
  rename_i f htake
  rcases takeFile_eq_ok htake with ⟨rfl, hfile⟩
  exact Or.inr (Or.inr ⟨f, hnew, prepare_eq_ok hprepare, hyes, hfile, rfl⟩)

/-! ## What stays true -/

/-- The directory is named without "..", so if the path of a table goes up its name does. -/
theorem Filed.climbs {db : Database ρ} {made : List String} (h : db.Filed made) {name : String}
    (hc : Path.Climbs (db.tablePath name)) : Path.Climbs name :=
  Path.climbs_extended ((Path.climbs_join hc).resolve_left h.level)

/-- A disk that changes and a tree that gains files change nothing of this. -/
theorem Filed.grown {db : Database ρ} {made : List String} (h : db.Filed made) {tree : Tree}
    (disk : Disk) (ht : tree.Sound)
    (hkeep : ∀ p n, db.tree.node? p = some (.file n) → tree.node? p = some (.file n)) :
    ({ db.mapPool fun P => { P with disk } with tree } : Database ρ).Filed made where
  tree := ht
  rooted := h.rooted
  level := h.level
  placed a f ha := by
    rcases h.placed a f ha with ⟨place, hp, hid⟩
    exact ⟨place, hkeep _ _ hp, hid⟩
  told := h.told
  alone := h.alone
  present := h.present
  known := h.known

theorem table?_register (db : Database ρ) (name : String) (f : TableFile) (a : String) :
    (db.register name f).table? a = if a = name then some f else db.table? a :=
  Assoc.get?_insert _ _ _ _

/-- The ids of all tables differ if that of the table that is made known is no other's. -/
theorem told_register {db : Database ρ} {name : String} {f : TableFile}
    (hid : ∀ b g, db.table? b = some g → g.table = f.table → b = name)
    (h : ∀ a b g k, db.table? a = some g → db.table? b = some k → g.table = k.table → a = b)
    (a b : String) (g k : TableFile) (ha : (db.register name f).table? a = some g)
    (hb : (db.register name f).table? b = some k) (heq : g.table = k.table) : a = b := by
  rw [table?_register] at ha hb
  split at ha <;> split at hb
  · rw [‹a = name›, ‹b = name›]
  · cases ha
    exact (‹a = name›).trans (hid b k hb heq.symm).symm
  · cases hb
    exact (hid a g ha heq).trans (‹b = name›).symm
  · exact h a b g k ha hb heq

/-- The pool knows no file but those of the tables, if the name of the table that is made known is
    no other's. -/
theorem known_register {db : Database ρ} {name : String} {f : TableFile}
    (hnew : db.table? name = none)
    (h : ∀ t g, db.engine.pool.tables.get? t = some g → g.table = t ∧ ∃ a, db.table? a = some g)
    (t : TableId) (g : TableFile)
    (hg : (db.register name f).engine.pool.tables.get? t = some g) :
    g.table = t ∧ ∃ a, (db.register name f).table? a = some g := by
  have hg' : (db.engine.pool.tables.insert f.table f).get? t = some g := hg
  rw [Assoc.get?_insert] at hg'
  split at hg'
  · cases hg'
    exact ⟨(‹t = f.table›).symm, name, by rw [table?_register, if_pos rfl]⟩
  · rcases h t g hg' with ⟨ht, a, ha⟩
    have hne : a ≠ name := by
      rintro rfl
      rw [hnew] at ha
      cases ha
    exact ⟨ht, a, by rw [table?_register, if_neg hne, ha]⟩

/-- A table with a new name and an id of its own may be made known, if its id belongs to its place
    or its file is nobody else's. -/
theorem Filed.register {db : Database ρ} {made made' : List String} (h : db.Filed made)
    {name : String} {f : TableFile} (hnew : db.table? name = none)
    (hid : ∀ b g, db.table? b = some g → g.table = f.table → b = name)
    (hmade : ∀ a, a ∈ made' ↔ a ∈ made ∨ a = name ∧ name ∈ made')
    (hplace : ∃ place, db.tree.node? place = some (.file f.file) ∧
      (f.table = db.idOf place ∨ name ∈ made' ∧ Path.Climbs name))
    (hown : name ∈ made' → ∀ b g, db.table? b = some g → g.file ≠ f.file) :
    (db.register name f).Filed made' := by
  refine ⟨h.tree, h.rooted, h.level, ?_, told_register hid h.told, ?_, ?_,
    known_register hnew h.known⟩
  · intro a g ha
    rw [table?_register] at ha
    split at ha
    · cases ha
      subst a
      exact hplace
    · rcases h.placed a g ha with ⟨place, hp, hg⟩
      exact ⟨place, hp, hg.imp_right (And.imp_left fun hm => (hmade a).2 (Or.inl hm))⟩
  · intro a b g k ham hbm ha hb hfile
    rw [table?_register] at ha hb
    have hold : ∀ {c}, c ∈ made' → c ≠ name → c ∈ made := fun hc hne =>
      ((hmade _).1 hc).resolve_right fun heq => hne heq.1
    split at ha <;> split at hb
    · rw [‹a = name›, ‹b = name›]
    · cases ha
      subst a
      exact absurd hfile.symm (hown ham b k hb)
    · cases hb
      subst b
      exact absurd hfile (hown hbm a g ha)
    · exact h.alone a b g k (hold ham ‹_›) (hold hbm ‹_›) ha hb hfile
  · intro a ha
    rw [table?_register]
    split
    · exact Option.some_ne_none f
    · exact h.present a (((hmade a).1 ha).resolve_right fun heq => absurd heq.1 ‹_›)

section events

variable {db : Database ρ} {made : List String}

theorem filed_create (h : db.Filed made) {name : String} {f : TableFile} {tree : Tree}
    (hnew : db.table? name = none) (hno : db.tree.exists? (db.tablePath name) = false)
    (hid : db.tableId name = .ok f.table)
    (hfile : db.tree.createFile (db.tablePath name) = .ok (tree, f.file)) :
    ((db.withFile tree f).register name f).Filed (made ++ [name]) := by
  rcases tableId_eq_ok hid with ⟨hident, htold⟩
  rcases Tree.createFile_new hfile hno with ⟨hnum, place, hne, hnone, htree, hspelled⟩
  have hkeep : ∀ p n, db.tree.node? p = some (.file n) → tree.node? p = some (.file n) := by
    intro p n hp
    rw [htree, Tree.node?_insert hne, if_neg fun heq => by rw [heq, hnone] at hp; cases hp]
    exact hp
  refine (h.grown _ (Tree.sound_createFile h.tree hfile hno) hkeep).register hnew htold ?_ ?_ ?_
  · intro a
    simp
  · refine ⟨place, ?_, ?_⟩
    · rw [hnum]
      simp only [htree, Tree.node?_insert hne, if_true]
    · -- A path that does not go up stood for the place before the file was there.
      by_cases hup : Path.Climbs (db.tablePath name)
      · exact Or.inr ⟨by simp, h.climbs hup⟩
      · refine Or.inl ?_
        rw [hident, hspelled (Path.isAbsolute_join h.rooted _) hup]
        rfl
  · -- No table has the file, because its number is new.
    intro _ b g hb hsame
    rcases h.placed b g hb with ⟨q, hq, _⟩
    have hlt := h.tree.numbered q _ hq
    rw [hsame, hnum] at hlt
    exact Nat.lt_irrefl _ hlt

theorem filed_take (h : db.Filed made) {name : String} {f : TableFile}
    (hnew : db.table? name = none) (hid : db.tableId name = .ok f.table)
    (hfile : db.tree.openFile (db.tablePath name) = .ok f.file) :
    (db.register name f).Filed made := by
  rcases tableId_eq_ok hid with ⟨hident, htold⟩
  have hout : name ∉ made := fun hm => h.present name hm hnew
  refine h.register hnew htold (fun a => ?_) ?_ fun hm => absurd hm hout
  · exact (or_iff_left fun heq => hout heq.2).symm
  · -- The path leads to the file, so the id belongs to the place of the file.
    rcases bind_eq_ok hfile with ⟨place, hfind, hnode⟩
    refine ⟨place, ?_, Or.inl ?_⟩
    · split at hnode
      · cases hnode
        assumption
      · cases hnode
      · cases hnode
    · rw [hident, Tree.identity, Tree.locate_of_find hfind]

variable [EvictionOrder ρ]

theorem filed_exec (h : db.Filed made) (ev : CatalogEvent) :
    (db.exec ev).Filed (made ++ db.creates ev) := by
  cases ev with
  | create name rowWidth =>
      simp only [exec, creates]
      rcases db.makeTable_cases name rowWidth with
        ⟨e, heq⟩ | ⟨f, tree, hnew, hno, hid, hfile, heq⟩
      · simp only [heq, Except.isOk, Except.toBool, if_neg Bool.false_ne_true, List.append_nil]
        exact h
      · simp only [heq, Except.isOk, Except.toBool, if_true]
        exact filed_create h hnew hno hid hfile
  | take name rowWidth =>
      simp only [exec, creates, List.append_nil]
      rcases db.takeTable_cases name rowWidth with
        ⟨e, heq⟩ | ⟨f, _, heq⟩ | ⟨f, hnew, hid, _, hfile, heq⟩
      · rw [heq]
        exact h
      · rw [heq]
        exact h
      · rw [heq]
        exact filed_take h hnew hid hfile
  | engine ev =>
      rw [creates, List.append_nil]
      refine ⟨h.tree, h.rooted, h.level, h.placed, h.told, h.alone, h.present, fun t f hf => ?_⟩
      exact h.known t f (db.engine.tables_exec ev ▸ hf)

theorem filed_run (h : db.Filed made) (evs : List CatalogEvent) :
    (db.run evs).Filed (made ++ db.created evs) := by
  induction evs generalizing db made with
  | nil =>
      rw [created, List.append_nil]
      exact h
  | cons ev rest ih =>
      rw [created, ← List.append_assoc]
      exact ih (filed_exec h ev)

end events

theorem filed_openAt {idOf : List String → TableId} {order : ρ} {tree : Tree} {disk : Disk}
    {dir : String} {sizing : Sizing} {db : Database ρ} (hs : tree.Sound)
    (h : openAt idOf order tree disk dir sizing = .ok db) : db.Filed [] := by
  unfold openAt at h
  split at h
  · cases h
  rename_i tree' hdirs
  split at h
  · cases h
  rename_i place hplace
  split at h
  · cases h
  cases h
  have ht := Tree.sound_makeDirs hs hdirs
  exact {
    tree := ht
    rooted := Path.isAbsolute_ofNames place
    level := Tree.not_climbs_of_locate ht hplace
    placed := fun a f ha => by cases ha
    told := fun a b f g ha => by cases ha
    alone := fun a b f g ha => by cases ha
    present := fun a ha => by cases ha
    known := fun t f hf => by cases hf }

/-! ## A small database -/

/-- A directory with nothing in it. -/
def plainTree : Tree := { nodes := (∅ : Assoc (List String) Node).insert ["data"] .directory }

theorem sound_plainTree : plainTree.Sound := by
  have hno : ∀ p n, plainTree.node? p ≠ some (.file n) := by
    intro p n h
    unfold Tree.node? plainTree at h
    split at h
    · cases h
    rw [Assoc.get?_insert] at h
    split at h
    · cases h
    · cases h
  exact ⟨fun p _ n hp => absurd hp (hno p n), fun p n hp => absurd hp (hno p n),
    fun n hn => by cases hn⟩

/-- A database in it. -/
def plain : Database Recency where
  sizing := {}
  dir := Path.ofNames ["data"]
  idOf := fingerprint
  tree := plainTree
  engine := { pool := Pool.ofFrames 50 {} {} }

/-- Whatever the ids of tables are computed by. -/
theorem openAt_plainTree (idOf : List String → TableId) :
    openAt idOf ({} : Recency) plainTree {} "/data" {} = .ok { plain with idOf } := by
  have hdirs : plainTree.makeDirs "/data" = .ok plainTree := by
    have hnames : (plainTree.names "/data").reverse = ["data"] := by decide +kernel
    unfold Tree.makeDirs
    rw [hnames, Tree.makeDirsFrom]
    rfl
  unfold openAt
  rw [hdirs]
  rfl

theorem openAt_plain : openAt fingerprint ({} : Recency) plainTree {} "/data" {} = .ok plain :=
  openAt_plainTree fingerprint

/-! ## Names and ids of a file -/

section Filed

variable {db : Database ρ} {made : List String} (h : db.Filed made)

include h

/-- Of two names of one file, one was created by a path that goes up, and the other was not
    created. -/
theorem Filed.shared {a b : String} {f g : TableFile} (hne : a ≠ b) (ha : db.table? a = some f)
    (hb : db.table? b = some g) (hfile : f.file = g.file) :
    (a ∈ made ∧ Path.Climbs a ∧ b ∉ made) ∨ (b ∈ made ∧ Path.Climbs b ∧ a ∉ made) := by
  have hnot : ¬ (a ∈ made ∧ b ∈ made) := fun hm => hne (h.alone a b f g hm.1 hm.2 ha hb hfile)
  rcases h.placed a f ha with ⟨p, hp, hf⟩
  rcases h.placed b g hb with ⟨q, hq, hg⟩
  have hplace : p = q := h.tree.single p q f.file hp (hfile ▸ hq)
  subst hplace
  rcases hf with hf | ⟨hm, hup⟩
  · rcases hg with hg | ⟨hm, hup⟩
    · exact absurd (h.told a b f g ha hb (hf.trans hg.symm)) hne
    · exact Or.inr ⟨hm, hup, fun hm' => hnot ⟨hm', hm⟩⟩
  · exact Or.inl ⟨hm, hup, fun hm' => hnot ⟨hm, hm'⟩⟩

/-- Two ids of one physical page are those of two such names. -/
theorem Filed.shared_page {p q : PageId} {f g : TableFile} (hne : p ≠ q)
    (hp : db.engine.pool.tables.get? p.table = some f)
    (hq : db.engine.pool.tables.get? q.table = some g) (hfile : f.file = g.file)
    (hnumber : p.number = q.number) :
    ∃ a ∈ made, Path.Climbs a ∧ (db.table? a = some f ∨ db.table? a = some g) := by
  rcases h.known p.table f hp with ⟨hpt, a, ha⟩
  rcases h.known q.table g hq with ⟨hqt, b, hb⟩
  have hab : a ≠ b := by
    rintro rfl
    have hfg : f = g := Option.some.inj (ha.symm.trans hb)
    have htable : p.table = q.table := by rw [← hpt, ← hqt, hfg]
    cases p
    cases q
    simp_all
  rcases h.shared hab ha hb hfile with ⟨hm, hup, _⟩ | ⟨hm, hup, _⟩
  · exact ⟨a, hm, hup, Or.inl ha⟩
  · exact ⟨b, hm, hup, Or.inr hb⟩

end Filed

/-- Whatever tables are created and opened in a database, under whatever names: if one file goes by
    two names, one of the two was created under a name that goes up, and the other was opened. Nor
    does a physical page go by two ids unless a table was so created. -/
theorem two_names_of_a_file [EvictionOrder ρ] {idOf : List String → TableId} {order : ρ}
    {tree : Tree} {disk : Disk} {dir : String} {sizing : Sizing} {start : Database ρ}
    (hs : tree.Sound) (hopen : openAt idOf order tree disk dir sizing = .ok start)
    (evs : List CatalogEvent) :
    (∀ a b f g, a ≠ b → (start.run evs).table? a = some f → (start.run evs).table? b = some g →
      f.file = g.file →
      (a ∈ start.created evs ∧ Path.Climbs a ∧ b ∉ start.created evs) ∨
        (b ∈ start.created evs ∧ Path.Climbs b ∧ a ∉ start.created evs)) ∧
    (∀ (p q : PageId) f g, p ≠ q → (start.run evs).engine.pool.tables.get? p.table = some f →
      (start.run evs).engine.pool.tables.get? q.table = some g → f.file = g.file →
      p.number = q.number →
      ∃ a ∈ start.created evs, Path.Climbs a ∧
        ((start.run evs).table? a = some f ∨ (start.run evs).table? a = some g)) := by
  have h := filed_run (filed_openAt hs hopen) evs
  rw [List.nil_append] at h
  exact ⟨fun _ _ _ _ hne ha hb hf => h.shared hne ha hb hf,
    fun _ _ _ _ hne hp hq hf hn => h.shared_page hne hp hq hf hn⟩

/-- Two tables with plain names. They are in different files. -/
theorem two_names_of_a_file_plain :
    plainTree.Sound ∧
      openAt fingerprint ({} : Recency) plainTree {} "/data" {} = .ok plain ∧
      ∃ f g, (plain.run [.create "a" 4, .create "./b" 4]).table? "a" = some f ∧
        (plain.run [.create "a" 4, .create "./b" 4]).table? "./b" = some g ∧ f.file ≠ g.file := by
  have hboth : ((plain.run [.create "a" 4, .create "./b" 4]).table? "a").isSome = true ∧
      ((plain.run [.create "a" 4, .create "./b" 4]).table? "./b").isSome = true := by
    decide +kernel
  rcases Option.isSome_iff_exists.1 hboth.1 with ⟨f, hf⟩
  rcases Option.isSome_iff_exists.1 hboth.2 with ⟨g, hg⟩
  refine ⟨sound_plainTree, openAt_plain, f, g, hf, hg, fun hfile => ?_⟩
  rcases (two_names_of_a_file sound_plainTree openAt_plain _).1 _ _ f g (by decide) hf hg hfile with
    ⟨_, hup, _⟩ | ⟨_, hup, _⟩
  · revert hup
    decide +kernel
  · revert hup
    decide +kernel

/-- A table is created by way of the parent of its directory, and then opened by its plain name. -/
def detour : List CatalogEvent := [.create "../data/a" 4, .take "a" 4]

/-- Then the file has two names and two ids, though the ids of the two paths differ. -/
theorem one_file_two_tables :
    openAt fingerprint ({} : Recency) plainTree {} "/data" {} = .ok plain ∧
      ∃ f g, (plain.run detour).table? "../data/a" = some f ∧
        (plain.run detour).table? "a" = some g ∧ f.file = g.file ∧
        f.table = fingerprint ["data", "..", "data", "a.tbl"] ∧
        g.table = fingerprint ["data", "a.tbl"] ∧ f.table ≠ g.table ∧
        (plain.run detour).engine.pool.tables.get? f.table = some f ∧
        (plain.run detour).engine.pool.tables.get? g.table = some g := by
  have hboth : ((plain.run detour).table? "../data/a").isSome = true ∧
      ((plain.run detour).table? "a").isSome = true := by decide +kernel
  rcases Option.isSome_iff_exists.1 hboth.1 with ⟨f, hf⟩
  rcases Option.isSome_iff_exists.1 hboth.2 with ⟨g, hg⟩
  have hfile : ((plain.run detour).table? "../data/a").map TableFile.file =
      ((plain.run detour).table? "a").map TableFile.file := by decide +kernel
  have hids : ((plain.run detour).table? "../data/a").map TableFile.table =
        some (fingerprint ["data", "..", "data", "a.tbl"]) ∧
      ((plain.run detour).table? "a").map TableFile.table =
        some (fingerprint ["data", "a.tbl"]) := by decide +kernel
  have hknown : (((plain.run detour).table? "../data/a").bind fun f =>
        (plain.run detour).engine.pool.tables.get? f.table) =
        (plain.run detour).table? "../data/a" ∧
      (((plain.run detour).table? "a").bind fun f =>
        (plain.run detour).engine.pool.tables.get? f.table) =
        (plain.run detour).table? "a" := by decide +kernel
  have hdiff : fingerprint ["data", "..", "data", "a.tbl"] ≠ fingerprint ["data", "a.tbl"] := by
    decide +kernel
  rw [hf, hg] at hfile hids hknown
  have htf := Option.some.inj hids.1
  have htg := Option.some.inj hids.2
  exact ⟨openAt_plain, f, g, hf, hg, Option.some.inj hfile, htf, htg, by rwa [htf, htg],
    hknown.1, hknown.2⟩

end Database

end RowStore
