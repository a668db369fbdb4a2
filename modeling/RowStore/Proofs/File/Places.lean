import RowStore.File.Tree

/-!
# Places and Paths

Where a path leads, and what its names say about it.

A path has two ways to tell apart what it stands for: the place that it leads to,
and its own names. The names are all there is as long as the path leads nowhere.
When a file has been made there, the path leads to it, and the place need not be
spelled like the path was: every ".." of the path has taken a name away. A path
without ".." leads, if anywhere, to the place that its names spell, so whoever asks
before the file is made and whoever asks afterwards get the same answer.

A file is made at a place where nothing was, and its number is a new one. So a
file keeps its place, and no two places have one file.

## Main definitions

* `Path.Climbs`: A path goes up.
* `Tree.Numbered`: Every file has a number that was given out.
* `Tree.Sound`: Every file has one place as well.
* `Tree.FilesOf`: A tree has no files but those of another one.

## Theorems

* `Path.climbs_join`, `Path.climbs_extended`, `Path.not_climbs_ofNames`: Which paths go up.
* `Tree.walk_append`: A path is followed part by part.
* `Tree.walk_spelled`: A path that does not go up leads to the place that its names spell.
* `Tree.createFile_new`: A file that is made is new, and so is its place.
* `Tree.filesOf_makeDirs`: Making directories makes no file.
* `Tree.sound_createFile`, `Tree.sound_makeDirs`: Making files and directories keeps a tree sound.
-/

namespace RowStore

/-- A computation in two parts that succeeds has succeeded in both. -/
theorem bind_eq_ok {ε α β : Type} {x : Except ε α} {f : α → Except ε β} {b : β}
    (h : (x >>= f) = .ok b) : ∃ a, x = .ok a ∧ f a = .ok b := by
  cases x with
  | error e => cases h
  | ok a => exact ⟨a, rfl, h⟩

namespace Path

/-- A path goes up a directory somewhere on its way. -/
def Climbs (path : String) : Prop := ".." ∈ names path

instance (path : String) : Decidable (Climbs path) :=
  inferInstanceAs (Decidable (".." ∈ names path))

/-! ## Parts -/

theorem parts_ne_nil (l : List Char) : parts l ≠ [] := by
  cases l with
  | nil => exact List.cons_ne_nil _ _
  | cons c rest =>
      unfold parts
      split
      · exact List.cons_ne_nil _ _
      · split <;> exact List.cons_ne_nil _ _

/-- A character that is no slash goes to the first part. -/
theorem parts_cons {c : Char} (hc : c ≠ '/') {rest p : List Char} {ps : List (List Char)}
    (h : parts rest = p :: ps) : parts (c :: rest) = (c :: p) :: ps := by
  rw [parts, if_neg hc, h]

theorem parts_append_slash (these those : List Char) :
    parts (these ++ '/' :: those) = parts these ++ parts those := by
  induction these with
  | nil => rfl
  | cons c rest ih =>
      by_cases hc : c = '/'
      · subst hc
        rw [List.cons_append, parts, if_pos rfl, parts, if_pos rfl, ih, List.cons_append]
      · rcases List.exists_cons_of_ne_nil (parts_ne_nil rest) with ⟨p, ps, hp⟩
        rw [hp, List.cons_append] at ih
        rw [List.cons_append, parts_cons hc ih, parts_cons hc hp, List.cons_append]

theorem parts_of_no_slash {l : List Char} (h : '/' ∉ l) : parts l = [l] := by
  induction l with
  | nil => rfl
  | cons c rest ih =>
      rw [List.mem_cons, not_or] at h
      exact parts_cons (Ne.symm h.1) (ih h.2)

theorem no_slash_of_mem_parts {l p : List Char} (h : p ∈ parts l) : '/' ∉ p := by
  induction l generalizing p with
  | nil =>
      rw [parts, List.mem_singleton] at h
      rw [h]
      exact List.not_mem_nil
  | cons c rest ih =>
      by_cases hc : c = '/'
      · rw [parts, if_pos hc, List.mem_cons] at h
        rcases h with rfl | h
        · exact List.not_mem_nil
        · exact ih h
      · rcases List.exists_cons_of_ne_nil (parts_ne_nil rest) with ⟨q, qs, hq⟩
        rw [parts_cons hc hq, List.mem_cons] at h
        rcases h with rfl | h
        · rw [List.mem_cons, not_or]
          exact ⟨Ne.symm hc, ih (hq ▸ List.mem_cons_self)⟩
        · exact ih (hq ▸ List.mem_cons_of_mem q h)

/-- What is put after a text goes to its last part. -/
theorem parts_append (l : List Char) {tail : List Char} (ht : '/' ∉ tail) :
    ∃ ps p, parts l = ps ++ [p] ∧ parts (l ++ tail) = ps ++ [p ++ tail] := by
  induction l with
  | nil => exact ⟨[], [], rfl, parts_of_no_slash ht⟩
  | cons c rest ih =>
      rcases ih with ⟨ps, p, hp, htail⟩
      by_cases hc : c = '/'
      · refine ⟨[] :: ps, p, ?_, ?_⟩
        · rw [parts, if_pos hc, hp, List.cons_append]
        · rw [List.cons_append, parts, if_pos hc, htail, List.cons_append]
      · cases ps with
        | nil => exact ⟨[], c :: p, parts_cons hc hp, parts_cons hc htail⟩
        | cons q qs => exact ⟨(c :: q) :: qs, p, parts_cons hc hp, parts_cons hc htail⟩

theorem parts_intercalate {ls : List (List Char)} (hne : ls ≠ []) (h : ∀ l ∈ ls, '/' ∉ l) :
    parts (['/'].intercalate ls) = ls := by
  induction ls with
  | nil => exact absurd rfl hne
  | cons l rest ih =>
      cases rest with
      | nil =>
          rw [List.intercalate_singleton]
          exact parts_of_no_slash (h l List.mem_cons_self)
      | cons m rest =>
          rw [List.intercalate_cons_cons, List.append_assoc, List.singleton_append,
            parts_append_slash, parts_of_no_slash (h l List.mem_cons_self),
            ih (List.cons_ne_nil _ _) fun k hk => h k (List.mem_cons_of_mem l hk),
            List.singleton_append]

/-! ## Names -/

theorem mem_names (path n : String) : n ∈ names path ↔ n ≠ "" ∧ n.toList ∈ parts path.toList := by
  unfold names
  simp only [List.mem_map, List.mem_filter, Bool.not_eq_true', List.isEmpty_eq_false_iff]
  constructor
  · rintro ⟨p, ⟨hp, hne⟩, rfl⟩
    rw [String.toList_ofList]
    exact ⟨fun h => hne (String.ofList_eq_empty_iff.1 h), hp⟩
  · rintro ⟨hne, hp⟩
    exact ⟨n.toList, ⟨hp, fun h => hne (String.toList_eq_nil_iff.1 h)⟩, String.ofList_toList⟩

theorem climbs_iff (path : String) : Climbs path ↔ ['.', '.'] ∈ parts path.toList := by
  unfold Climbs
  rw [mem_names]
  exact and_iff_right (by decide)

theorem no_slash_of_mem_names {path n : String} (h : n ∈ names path) : '/' ∉ n.toList :=
  no_slash_of_mem_parts ((mem_names path n).1 h).2

theorem parts_slash (l : List Char) : parts (l ++ ['/']) = parts l ++ [[]] :=
  parts_append_slash l []

/-- A path that is taken up from a directory goes up only if one of the two does. -/
theorem climbs_join {dir path : String} (h : Climbs (join dir path)) :
    Climbs dir ∨ Climbs path := by
  rw [climbs_iff, climbs_iff]
  rw [climbs_iff, join] at h
  split at h
  · exact Or.inr h
  split at h
  · rename_i hslash
    rcases List.getLast?_eq_some_iff.1 (of_decide_eq_true hslash) with ⟨l, hl⟩
    rw [String.toList_append, hl, List.append_assoc, List.singleton_append, parts_append_slash,
      List.mem_append] at h
    rw [hl, parts_slash, List.mem_append]
    exact h.imp_left Or.inl
  · have hslash : "/".toList = ['/'] := rfl
    rw [String.toList_append, String.toList_append, hslash, List.append_assoc,
      List.singleton_append, parts_append_slash, List.mem_append] at h
    exact h

/-- The name of a file with something after it goes up only on the way to the file. -/
theorem climbs_extended {name : String} (h : Climbs (name ++ ".tbl")) : Climbs name := by
  rw [climbs_iff] at h ⊢
  rw [String.toList_append] at h
  have hslash : '/' ∉ ".tbl".toList := by decide
  rcases parts_append name.toList hslash with ⟨ps, p, hp, htail⟩
  rw [htail, List.mem_append, List.mem_singleton] at h
  rw [hp, List.mem_append]
  refine h.imp_right fun heq => ?_
  -- The last part has become too long.
  have hlen := congrArg List.length heq
  rw [List.length_append] at hlen
  have htbl : ".tbl".toList.length = 4 := by decide
  simp only [List.length_cons, List.length_nil, htbl] at hlen
  omega

/-- The path of some names goes up only if one of them is "..". -/
theorem not_climbs_ofNames {names : List String} (hslash : ∀ n ∈ names, '/' ∉ n.toList)
    (hup : ".." ∉ names) : ¬ Climbs (ofNames names) := by
  intro h
  have hfirst : "/".toList = ['/'] := rfl
  rw [climbs_iff, ofNames, String.toList_append, String.toList_intercalate, hfirst,
    List.singleton_append, parts, if_pos rfl, List.mem_cons] at h
  rcases h with h | h
  · cases h
  cases names with
  | nil => revert h; decide
  | cons n rest =>
      rw [parts_intercalate (by simp) (by simpa using hslash), List.mem_map] at h
      rcases h with ⟨m, hm, heq⟩
      have hdots : m = ".." := String.toList_inj.1 heq
      exact hup (hdots ▸ hm)

theorem isAbsolute_append {dir : String} (h : isAbsolute dir = true) (tail : String) :
    isAbsolute (dir ++ tail) = true := by
  rw [isAbsolute, decide_eq_true_eq] at h ⊢
  rw [String.toList_append, List.head?_append, h, Option.some_or]

theorem isAbsolute_join {dir : String} (h : isAbsolute dir = true) (path : String) :
    isAbsolute (join dir path) = true := by
  unfold join
  split
  · assumption
  split
  · exact isAbsolute_append h path
  · exact isAbsolute_append (isAbsolute_append h "/") path

theorem isAbsolute_ofNames (names : List String) : isAbsolute (ofNames names) = true :=
  isAbsolute_append (by decide) _

/-- The names of a path from the root tell it apart by the names it goes through. -/
theorem key_of_isAbsolute {path : String} (h : isAbsolute path = true) :
    key path = (names path).filter (· ≠ ".") := by
  unfold key
  cases names path with
  | nil => rfl
  | cons n rest =>
      by_cases hn : n = "."
      · simp [hn, h]
      · simp [hn]

end Path

namespace Tree

/-! ## Walks -/

variable {t : Tree}

theorem walk_nil_eq_ok {place q : List String} (h : t.walk place [] = .ok q) :
    q = place ∧ (t.node? place).isSome = true := by
  rw [walk] at h
  split at h
  · cases h
    exact ⟨rfl, ‹_›⟩
  · cases h

/-- A walk that gets anywhere takes its first step, whatever follows. -/
theorem walk_cons_eq_ok {place q : List String} {name : String} {rest : List String}
    (h : t.walk place (name :: rest) = .ok q) :
    ∃ next, (∀ more, t.walk place (name :: more) = t.walk next more) ∧ t.walk next rest = .ok q ∧
      (name = "." ∧ next = place ∨ name = ".." ∧ next = place.dropLast ∨
        name ≠ "." ∧ name ≠ ".." ∧ next = place ++ [name]) := by
  suffices hstep : ∃ next, (∀ more, t.walk place (name :: more) = t.walk next more) ∧
      (name = "." ∧ next = place ∨ name = ".." ∧ next = place.dropLast ∨
        name ≠ "." ∧ name ≠ ".." ∧ next = place ++ [name]) by
    rcases hstep with ⟨next, hw, hn⟩
    exact ⟨next, hw, (hw rest).symm.trans h, hn⟩
  simp only [walk] at h ⊢
  rcases bind_eq_ok h with ⟨u, hd, h⟩
  have hbind : ∀ f : Unit → Except IoFault (List String), (t.checkDirectory place >>= f) = f u := by
    intro f
    rw [hd]
    rfl
  simp only [hbind]
  by_cases hdot : name = "."
  · exact ⟨place, fun _ => if_pos hdot, Or.inl ⟨hdot, rfl⟩⟩
  by_cases hup : name = ".."
  · refine ⟨place.dropLast, fun _ => ?_, Or.inr (Or.inl ⟨hup, rfl⟩)⟩
    rw [if_neg hdot, if_pos hup]
  rw [if_neg hdot, if_neg hup] at h
  split at h
  · cases h
  · rename_i hshort
    refine ⟨place ++ [name], fun _ => ?_, Or.inr (Or.inr ⟨hdot, hup, rfl⟩)⟩
    rw [if_neg hdot, if_neg hup, if_neg hshort]

/-- A walk goes on from where its first part ends. -/
theorem walk_append {place q : List String} {names : List String} (h : t.walk place names = .ok q)
    (more : List String) : t.walk place (names ++ more) = t.walk q more := by
  induction names generalizing place with
  | nil =>
      rcases walk_nil_eq_ok h with ⟨rfl, _⟩
      rfl
  | cons name rest ih =>
      rcases walk_cons_eq_ok h with ⟨next, hstep, hrest, _⟩
      rw [List.cons_append, hstep, ih hrest]

/-- A walk that does not go up leads to the place that its names spell. -/
theorem walk_spelled {place q : List String} {names : List String}
    (h : t.walk place names = .ok q) (hup : ".." ∉ names) :
    q = place ++ names.filter (· ≠ ".") := by
  induction names generalizing place with
  | nil =>
      rcases walk_nil_eq_ok h with ⟨rfl, _⟩
      simp
  | cons name rest ih =>
      rw [List.mem_cons, not_or] at hup
      rcases walk_cons_eq_ok h with ⟨next, _, hrest, ⟨rfl, rfl⟩ | ⟨rfl, _⟩ | ⟨hdot, _, rfl⟩⟩
      · rw [ih hrest hup.2]
        simp
      · exact absurd rfl hup.1
      · rw [ih hrest hup.2]
        simp [hdot]

/-- The names of the place that a walk leads to are those it went through, without "..". -/
theorem mem_of_walk {place q : List String} {names : List String} (h : t.walk place names = .ok q)
    {n : String} (hn : n ∈ q) : n ∈ place ∨ n ∈ names ∧ n ≠ ".." := by
  induction names generalizing place with
  | nil =>
      rcases walk_nil_eq_ok h with ⟨rfl, _⟩
      exact Or.inl hn
  | cons name rest ih =>
      rcases walk_cons_eq_ok h with ⟨next, _, hrest, hnext⟩
      rcases ih hrest with hp | ⟨hr, hne⟩
      · rcases hnext with ⟨_, rfl⟩ | ⟨_, rfl⟩ | ⟨_, hup, rfl⟩
        · exact Or.inl hp
        · exact Or.inl (List.dropLast_subset _ hp)
        · rw [List.mem_append, List.mem_singleton] at hp
          refine hp.imp_right ?_
          rintro rfl
          exact ⟨List.mem_cons_self, hup⟩
      · exact Or.inr ⟨List.mem_cons_of_mem name hr, hne⟩

/-! ## Files and directories that are made -/

/-- Every file has a number that was given out. -/
def Numbered (t : Tree) : Prop := ∀ p n, t.node? p = some (.file n) → n.val < t.nextFile

/-- Every file has one place and a number that was given out, and the names of the place that paths
    begin at are names. -/
structure Sound (t : Tree) : Prop where
  single : ∀ p q n, t.node? p = some (.file n) → t.node? q = some (.file n) → p = q
  numbered : ∀ p n, t.node? p = some (.file n) → n.val < t.nextFile
  spelled : ∀ n ∈ t.here, '/' ∉ n.toList

/-- A place for something new is one step from a directory, and nothing is there yet. -/
theorem vacancy_eq_ok {names place : List String} (h : t.vacancy names = .ok place)
    (hno : t.walk [] names = .error .notFound) :
    place ≠ [] ∧ t.node? place = none ∧ (".." ∉ names → place = names.filter (· ≠ ".")) := by
  rcases bind_eq_ok h with ⟨q, hw, h⟩
  rcases bind_eq_ok h with ⟨u, hd, h⟩
  -- The last name, neither "." nor "..", and not too long.
  obtain ⟨name, hl, hdot, hup, hshort, rfl⟩ : ∃ name, names.getLast? = some name ∧ name ≠ "." ∧
      name ≠ ".." ∧ ¬ 255 < name.utf8ByteSize ∧ q ++ [name] = place := by
    split at h
    · cases h
    · cases h
    · cases h
    · rename_i name hdot hup hl
      split at h
      · cases h
      · rename_i hshort
        exact ⟨name, hl, fun heq => hdot (heq ▸ rfl), fun heq => hup (heq ▸ rfl), hshort,
          Except.ok.inj h⟩
  rcases List.getLast?_eq_some_iff.1 hl with ⟨way, rfl⟩
  rw [List.dropLast_concat] at hw
  refine ⟨by simp, ?_, fun hplain => ?_⟩
  · have hstep : t.walk [] (way ++ [name]) = t.walk (q ++ [name]) [] := by
      rw [walk_append hw]
      simp only [walk, hd, bind, Except.bind, if_neg hdot, if_neg hup, if_neg hshort]
    rw [hstep, walk] at hno
    split at hno
    · cases hno
    · rename_i hnone
      rwa [Option.not_isSome_iff_eq_none] at hnone
  · rw [List.mem_append, not_or] at hplain
    rw [walk_spelled hw hplain.1, List.nil_append, List.filter_append]
    simp [hdot]

theorem node?_insert {place : List String} (hne : place ≠ []) (x : Node) (number : Nat)
    (q : List String) :
    ({ t with nodes := t.nodes.insert place x, nextFile := number } : Tree).node? q =
      if q = place then some x else t.node? q := by
  unfold node?
  by_cases hq : q = []
  · rw [if_pos hq, if_neg (hq ▸ hne.symm), if_pos hq]
  · rw [if_neg hq, if_neg hq, Assoc.get?_insert]

/-- There is something at a path if it leads anywhere. -/
theorem exists?_cases (t : Tree) (path : String) :
    (t.exists? path = true ∧ ∃ place, t.find path = .ok place) ∨
      (t.exists? path = false ∧ ∃ fault, t.find path = .error fault) := by
  unfold exists?
  cases t.find path with
  | error fault => exact Or.inr ⟨rfl, fault, rfl⟩
  | ok place => exact Or.inl ⟨rfl, place, rfl⟩

theorem locate_of_find {path : String} {place : List String} (h : t.find path = .ok place) :
    t.locate path = .ok place := by
  rcases bind_eq_ok h with ⟨_, _, h⟩
  exact h

/-- If all that is wrong with a path is that something is not there, the walk says so. -/
theorem walk_of_find {path : String} (h : t.find path = .error .notFound)
    (hempty : path ≠ "") (hslash : ¬ Path.endsInSlash path = true) :
    t.locate path = .error .notFound ∧ t.walk [] (t.names path) = .error .notFound := by
  have hl : t.locate path = .error .notFound := by
    unfold find checkPath at h
    split at h
    · cases h
    split at h
    · cases h
    exact h
  refine ⟨hl, ?_⟩
  unfold locate at hl
  split at hl
  · cases hl
  rwa [Path.steps, if_neg hslash] at hl

/-- A file that is made where nothing was is new, and so is its place. A path from the root that
    does not go up stood for that place already. -/
theorem createFile_new {path : String} {t' : Tree} {n : FileNo}
    (h : t.createFile path = .ok (t', n)) (hno : t.exists? path = false) :
    n = ⟨t.nextFile⟩ ∧ ∃ place, place ≠ [] ∧ t.node? place = none ∧
      t' = { t with
        nodes := t.nodes.insert place (.file ⟨t.nextFile⟩)
        nextFile := t.nextFile + 1 } ∧
      (Path.isAbsolute path = true → ¬ Path.Climbs path → t.identity path = place) := by
  unfold createFile at h
  split at h
  · rcases bind_eq_ok h with ⟨_, _, h⟩
    rcases bind_eq_ok h with ⟨_, _, h⟩
    rcases bind_eq_ok h with ⟨_, _, h⟩
    cases h
  rename_i hslash
  split at h
  · cases h
  rename_i hempty
  rcases t.exists?_cases path with ⟨hyes, _⟩ | ⟨_, fault, hf⟩
  · rw [hno] at hyes
    cases hyes
  have hopen : t.openFile path = .error fault := by
    rw [openFile, hf]
    rfl
  rw [hopen] at h
  split at h
  · rename_i heq
    cases heq
  · rename_i heq
    cases heq
    rcases bind_eq_ok h with ⟨place, hv, h⟩
    cases h
    rcases walk_of_find hf hempty hslash with ⟨hl, hw⟩
    rcases vacancy_eq_ok hv hw with ⟨hne, hnone, hspelled⟩
    refine ⟨rfl, place, hne, hnone, rfl, fun habs hclimbs => ?_⟩
    have hnames : t.names path = Path.names path := by
      rw [names, origin, if_pos habs, List.nil_append]
    rw [hnames] at hspelled
    rw [identity, hl, Path.key_of_isAbsolute habs, hspelled hclimbs]
  · cases h

theorem numbered_createFile (hn : t.Numbered) {path : String} {t' : Tree} {n : FileNo}
    (h : t.createFile path = .ok (t', n)) (hno : t.exists? path = false) : t'.Numbered := by
  rcases createFile_new h hno with ⟨rfl, place, hne, _, rfl, _⟩
  intro p m hp
  rw [node?_insert hne] at hp
  split at hp
  · cases hp
    exact Nat.lt_succ_self _
  · exact Nat.lt_succ_of_lt (hn p m hp)

theorem sound_createFile (hs : t.Sound) {path : String} {t' : Tree} {n : FileNo}
    (h : t.createFile path = .ok (t', n)) (hno : t.exists? path = false) : t'.Sound := by
  have hnumbered := numbered_createFile hs.numbered h hno
  rcases createFile_new h hno with ⟨rfl, place, hne, hnone, rfl, _⟩
  -- The number is new, so the file that was made is none of those that had a place.
  have hnew : ∀ q, t.node? q ≠ some (.file ⟨t.nextFile⟩) :=
    fun q hq => Nat.lt_irrefl _ (hs.numbered q _ hq)
  refine ⟨?_, hnumbered, hs.spelled⟩
  intro p q m hp hq
  rw [node?_insert hne] at hp hq
  split at hp <;> split at hq
  · rw [‹p = place›, ‹q = place›]
  · cases hp
    exact absurd hq (hnew q)
  · cases hq
    exact absurd hp (hnew p)
  · exact hs.single p q m hp hq

/-- A tree has no files but those of another one, and paths begin at the same place. -/
structure FilesOf (t t' : Tree) : Prop where
  files : ∀ p n, t'.node? p = some (.file n) → t.node? p = some (.file n)
  nextFile : t'.nextFile = t.nextFile
  here : t'.here = t.here

theorem FilesOf.refl (t : Tree) : t.FilesOf t := ⟨fun _ _ h => h, rfl, rfl⟩

theorem FilesOf.trans {t t' t'' : Tree} (h : t.FilesOf t') (h' : t'.FilesOf t'') : t.FilesOf t'' :=
  ⟨fun p n hp => h.files p n (h'.files p n hp), h'.nextFile.trans h.nextFile,
    h'.here.trans h.here⟩

theorem Numbered.of_files (hn : t.Numbered) {t' : Tree} (h : t.FilesOf t') : t'.Numbered :=
  fun p n hp => h.nextFile ▸ hn p n (h.files p n hp)

theorem Sound.of_files (hs : t.Sound) {t' : Tree} (h : t.FilesOf t') : t'.Sound :=
  ⟨fun p q n hp hq => hs.single p q n (h.files p n hp) (h.files q n hq),
    Numbered.of_files hs.numbered h, h.here ▸ hs.spelled⟩

theorem filesOf_makeDirAt {names : List String} {t' : Tree} (h : t.makeDirAt names = .ok t') :
    t.FilesOf t' := by
  unfold makeDirAt at h
  split at h
  · cases h
  · rename_i hw
    rcases bind_eq_ok h with ⟨place, hv, h⟩
    cases h
    refine ⟨fun p n hp => ?_, rfl, rfl⟩
    rw [node?_insert (vacancy_eq_ok hv hw).1 .directory t.nextFile] at hp
    split at hp
    · cases hp
    · exact hp
  · cases h

/-- Making a directory, and those on the way to it, makes no file. -/
theorem filesOf_makeDirsFrom {names : List String} {t' : Tree}
    (h : t.makeDirsFrom names = .ok t') : t.FilesOf t' := by
  fun_induction makeDirsFrom t names generalizing t' with
  | case1 =>
      cases h
      exact .refl _
  | case2 name rest made hm =>
      cases h
      exact filesOf_makeDirAt hm
  | case3 name rest hm ih =>
      rcases bind_eq_ok h with ⟨t₁, hbefore, h⟩
      have hway := ih hbefore
      split at h
      · rename_i t₂ hm₂
        cases h
        exact hway.trans (filesOf_makeDirAt hm₂)
      · split at h
        · cases h
          exact hway
        · cases h
  | case4 =>
      cases h
      exact .refl _
  | case5 => cases h

theorem filesOf_makeDirs {path : String} {t' : Tree} (h : t.makeDirs path = .ok t') :
    t.FilesOf t' := by
  rcases bind_eq_ok h with ⟨_, _, h⟩
  exact filesOf_makeDirsFrom h

theorem sound_makeDirs (hs : t.Sound) {path : String} {t' : Tree} (h : t.makeDirs path = .ok t') :
    t'.Sound :=
  hs.of_files (filesOf_makeDirs h)

/-- The place that a path leads to is spelled by names other than "..", so the path of the place
    does not go up. -/
theorem not_climbs_of_locate (hs : t.Sound) {path : String} {place : List String}
    (h : t.locate path = .ok place) : ¬ Path.Climbs (Path.ofNames place) := by
  have hnames : ∀ n ∈ place, '/' ∉ n.toList ∧ n ≠ ".." := by
    intro n hn
    unfold locate at h
    split at h
    · cases h
    split at h
    · cases h
    rcases mem_of_walk h hn with hno | ⟨hmem, hup⟩
    · cases hno
    refine ⟨?_, hup⟩
    rw [List.mem_append] at hmem
    rcases hmem with ho | hstep
    · unfold origin at ho
      split at ho
      · cases ho
      · exact hs.spelled n ho
    · unfold Path.steps at hstep
      split at hstep
      · rw [List.mem_append, List.mem_singleton] at hstep
        rcases hstep with hstep | rfl
        · exact Path.no_slash_of_mem_names hstep
        · decide
      · exact Path.no_slash_of_mem_names hstep
  exact Path.not_climbs_ofNames (fun n hn => (hnames n hn).1) fun h => (hnames _ h).2 rfl

end Tree

end RowStore
