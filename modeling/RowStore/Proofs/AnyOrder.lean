import RowStore.Proofs.Moves
import RowStore.Proofs.Rounds
import RowStore.Recency

/-!
# Endings in Any Order

In whichever order an ending visits its pages, it succeeds or fails alike, and leaves the
same if it succeeds.

The pages of a transaction come in the order in which a table of locks happens to list
them. A visit changes the copy of its page and perhaps the disk, and asks for no other
copy. So two visits could meet only on the disk, where those of a rollback do nothing
and those of a commit write, each to the place of its own page. Writes to files of
different tables have nothing to do with each other, and two writes to one file can
change places, whatever length the file has (`RowStore.Proofs.File.PageWrites`).

A page that was visited is clean, and if it was brought back, it agrees with its image
as long as nobody writes the image. So nothing comes of a second visit.

Nothing is asked here of the files, which others may have cut or extended, nor of the
tables but that no two are in one file.

## Main definitions

* `Pool.Separate`: No two tables are in one file.
* `Pool.transfer`: What a visit transfers.
* `Pool.settled`: The pool after a visit.

## Theorems

* `transfer_congr`, `transfer_swap`, `transfer_again`: What is transferred does not depend on the
  visits before.
* `orderless_settle`: The visits of an ending can be made in any order and more than once.
* `Engine.ending_in_any_order`: So an ending does not depend on the order of its pages.
-/

namespace RowStore

theorem PageId.eq_of {p q : PageId} (ht : p.table = q.table) (hn : p.number = q.number) : p = q := by
  cases p
  cases q
  exact congr (congrArg _ ht) hn

theorem Cache.updatePage_apart {ρ : Type} (c : Cache ρ) (p : PageId) (change : Page → Page) :
    ∃ frames, c.updatePage p change = { c with frames } := by
  unfold updatePage
  split
  · exact ⟨_, rfl⟩
  · exact ⟨c.frames, rfl⟩

namespace Pool

variable {ρ : Type}

/-- No two tables are in one file. -/
def Separate (P : Pool ρ) : Prop :=
  ∀ t f, P.tables.get? t = some f → ∀ u g, P.tables.get? u = some g → f.file = g.file → t = u

instance (P : Pool ρ) : Decidable P.Separate :=
  decidable_of_iff
    (∀ e ∈ P.tables.entries, ∀ e' ∈ P.tables.entries, e.2.file = e'.2.file → e.1 = e'.1) <| by
    simp only [← Assoc.forall_iff P.tables fun t f => ∀ e' ∈ P.tables.entries, f.file = e'.2.file →
      t = e'.1]
    constructor
    · exact fun h t f hf u g hg => h t f hf (u, g) ((P.tables.mem_entries_iff u g).2 hg)
    · exact fun h t f hf e he => h t f hf e.1 e.2 ((P.tables.mem_entries_iff e.1 e.2).1 he)

/-! ## Transfers -/

theorem storeImage_ok_iff (P : Pool ρ) (page : Page) (d : Disk) :
    P.storeImage page = .ok d ↔ ∃ f, P.tables.get? page.id.table = some f ∧
      P.faults.onWrite page.id = none ∧ f.write P.disk page = .ok d := by
  unfold storeImage table
  cases hf : P.tables.get? page.id.table with
  | none => simp [bind, Except.bind]
  | some f =>
      cases hw : P.faults.onWrite page.id with
      | some fault => simp [bind, Except.bind]
      | none => simp [bind, Except.bind]

theorem loadImage_ok_iff (P : Pool ρ) (p : PageId) (image : Page) :
    P.loadImage p = .ok image ↔ ∃ f, P.tables.get? p.table = some f ∧
      P.faults.onRead p = none ∧ f.read P.disk p = .ok image := by
  unfold loadImage table
  cases hf : P.tables.get? p.table with
  | none => simp [bind, Except.bind]
  | some f =>
      cases hr : P.faults.onRead p with
      | some fault => simp [bind, Except.bind]
      | none => simp [bind, Except.bind]

/-- The copy of a page that has to be written out. -/
def dirty? (P : Pool ρ) (p : PageId) : Option Page := (P.cache.page? p).filter Page.isDirty

theorem dirty?_eq_none_iff (P : Pool ρ) (p : PageId) : P.dirty? p = none ↔ P.owner? p = none := by
  unfold dirty? owner?
  cases P.cache.page? p with
  | none => simp
  | some page => simp [Page.isDirty, Option.filter_eq_none_iff]

/-- The disk after a copy was written out, if there is one to write. -/
def deposit (P : Pool ρ) : Option Page → Except StoreError Disk
  | none => .ok P.disk
  | some page => P.storeImage page

/-- What a visit transfers: what becomes of the copy of the page, and the disk after it. -/
def transfer (P : Pool ρ) (e : Ending) (p : PageId) : Except StoreError ((Page → Page) × Disk) :=
  match e with
  | .commit => (P.deposit (P.dirty? p)).map fun disk => ((Page.mark · none), disk)
  | .rollback =>
    if P.cache.isResident p then (P.loadImage p).map fun image => ((Page.restore · image), P.disk)
    else .ok (id, P.disk)

/-- The pool after a visit. -/
def settled (P : Pool ρ) (p : PageId) (change : Page → Page) (disk : Disk) : Pool ρ :=
  { P with disk, cache := P.cache.updatePage p change }

theorem transfer_commit (P : Pool ρ) (p : PageId) (change : Page → Page) (disk : Disk) :
    P.transfer .commit p = .ok (change, disk) ↔
      change = (Page.mark · none) ∧ P.deposit (P.dirty? p) = .ok disk := by
  unfold transfer
  cases P.deposit (P.dirty? p) with
  | error e => simp [Except.map]
  | ok d => simp [Except.map, eq_comm]

theorem transfer_rollback (P : Pool ρ) (p : PageId) (change : Page → Page) (disk : Disk) :
    P.transfer .rollback p = .ok (change, disk) ↔ disk = P.disk ∧
      ((P.cache.isResident p = true ∧ ∃ image, P.loadImage p = .ok image ∧
          change = (Page.restore · image)) ∨
        P.cache.isResident p = false ∧ change = id) := by
  unfold transfer
  cases hr : P.cache.isResident p with
  | false => simp [eq_comm, and_comm]
  | true =>
      cases P.loadImage p with
      | error e => simp [Except.map]
      | ok image => simp [Except.map, eq_comm, and_comm]

/-- A visit leaves a copy one of its page, and nothing comes of a second change. -/
theorem change_of_transfer {P : Pool ρ} {e : Ending} {p : PageId} {change : Page → Page}
    {disk : Disk} (h : P.transfer e p = .ok (change, disk)) (page : Page) :
    (change page).id = page.id ∧ change (change page) = change page := by
  cases e with
  | commit =>
      rcases (P.transfer_commit p change disk).1 h with ⟨rfl, _⟩
      exact ⟨rfl, rfl⟩
  | rollback =>
      rcases (P.transfer_rollback p change disk).1 h with ⟨_, ⟨_, image, _, rfl⟩ | ⟨_, rfl⟩⟩
      · exact ⟨rfl, rfl⟩
      · exact ⟨rfl, rfl⟩

/-! ## Visits as transfers -/

/-- A change that leaves the copy of the page as it is leaves the pool as it is. -/
theorem matches_settled_idle {P : Pool ρ} {p : PageId} {change : Page → Page}
    (h : ∀ page, P.cache.page? p = some page → change page = page) :
    (P.settled p change P.disk).Matches P := by
  rcases P.cache.updatePage_apart p change with ⟨frames, heq⟩
  refine ⟨⟨P.cache.frames, P.disk, by simp only [settled, heq]⟩, fun f => ?_, .refl _⟩
  simp only [settled, Cache.frame?_updatePage]
  split
  · rename_i hr
    cases hf : P.cache.frame? f with
    | none => rfl
    | some page => rw [Option.map_some, h page ((Cache.page?_of_resident hr).trans hf)]
  · rfl

/-- A visit that succeeds leaves the copy changed as its transfer says, and the disk after it. -/
theorem transfer_of_settle {P Q : Pool ρ} {e : Ending} {p : PageId} (h : P.settle e p = .ok Q) :
    ∃ change disk, P.transfer e p = .ok (change, disk) ∧ (P.settled p change disk).Matches Q := by
  cases settles_of_settle h with
  | clean ho =>
      have hd : P.deposit (P.dirty? p) = .ok P.disk := by
        rw [(P.dirty?_eq_none_iff p).2 ho]
        rfl
      refine ⟨_, P.disk, (P.transfer_commit p _ _).2 ⟨rfl, hd⟩, ?_⟩
      -- The copy is marked clean, which it is.
      refine matches_settled_idle fun page hp => ?_
      rw [owner?_of_page hp] at ho
      rw [Page.mark, ← ho]
  | stored hp hd hs =>
      have hdirty := Option.filter_eq_some_iff.2 ⟨hp, hd⟩
      refine ⟨_, _, (P.transfer_commit p _ _).2 ⟨rfl, ?_⟩, .refl _⟩
      rw [dirty?, hdirty]
      exact hs
  | absent hr =>
      exact ⟨_, _, (P.transfer_rollback p _ _).2 ⟨rfl, Or.inr ⟨hr, rfl⟩⟩,
        matches_settled_idle fun _ _ => rfl⟩
  | loaded hr hl =>
      exact ⟨_, _, (P.transfer_rollback p _ _).2 ⟨rfl, Or.inl ⟨hr, _, hl, rfl⟩⟩, .refl _⟩

/-- A visit succeeds if its transfer does. -/
theorem settle_of_transfer {P : Pool ρ} {e : Ending} {p : PageId} {change : Page → Page}
    {disk : Disk} (h : P.transfer e p = .ok (change, disk)) :
    ∃ Q, P.settle e p = .ok Q ∧ (P.settled p change disk).Matches Q := by
  suffices hsettles : ∃ Q, P.Settles p e Q by
    rcases hsettles with ⟨Q, hQ⟩
    rcases transfer_of_settle hQ.settle_eq with ⟨change', disk', ht, hm⟩
    cases h.symm.trans ht
    exact ⟨Q, hQ.settle_eq, hm⟩
  cases e with
  | commit =>
      rcases (P.transfer_commit p change disk).1 h with ⟨_, hd⟩
      cases hp : P.dirty? p with
      | none => exact ⟨P, .clean ((P.dirty?_eq_none_iff p).1 hp)⟩
      | some page =>
          rcases Option.filter_eq_some_iff.1 hp with ⟨hpage, hdirty⟩
          rw [hp] at hd
          exact ⟨_, .stored hpage hdirty hd⟩
  | rollback =>
      rcases (P.transfer_rollback p change disk).1 h with ⟨_, ⟨hr, image, hl, _⟩ | ⟨hr, _⟩⟩
      · exact ⟨_, .loaded hr hl⟩
      · exact ⟨_, .absent hr⟩

/-! ## What a transfer depends on -/

/-- From pools that match the same is transferred. -/
theorem transfer_congr {P P' : Pool ρ} (hm : P.Matches P') {e : Ending} {p : PageId}
    {change : Page → Page} {disk : Disk} (h : P.transfer e p = .ok (change, disk)) :
    ∃ disk', P'.transfer e p = .ok (change, disk') ∧ disk.Same disk' := by
  cases e with
  | commit =>
      rcases (P.transfer_commit p change disk).1 h with ⟨rfl, hd⟩
      have hdirty : P'.dirty? p = P.dirty? p := by
        unfold dirty?
        rw [hm.page?]
      simp only [transfer_commit, hdirty, true_and]
      cases hp : P.dirty? p with
      | none =>
          rw [hp] at hd
          cases hd
          exact ⟨P'.disk, rfl, hm.disk⟩
      | some page =>
          rw [hp] at hd
          rcases (P.storeImage_ok_iff page disk).1 hd with ⟨f, hf, hw, hstore⟩
          rcases TableFile.write_congr hm.disk hstore with ⟨disk', hstore', hs⟩
          refine ⟨disk', (P'.storeImage_ok_iff page disk').2 ⟨f, ?_, ?_, hstore'⟩, hs⟩
          · rw [hm.tables]
            exact hf
          · rw [hm.faults]
            exact hw
  | rollback =>
      rcases (P.transfer_rollback p change disk).1 h with ⟨rfl, hcase⟩
      have hr : P'.cache.isResident p = P.cache.isResident p := by
        unfold Cache.isResident
        rw [hm.resident]
      refine ⟨P'.disk, (P'.transfer_rollback p change _).2 ⟨rfl, ?_⟩, hm.disk⟩
      rw [hr]
      refine hcase.imp (And.imp id fun ⟨image, hl, hc⟩ => ⟨image, ?_, hc⟩) id
      rcases (P.loadImage_ok_iff p image).1 hl with ⟨f, hf, hread, himage⟩
      refine (P'.loadImage_ok_iff p image).2 ⟨f, hm.tables ▸ hf, hm.faults ▸ hread, ?_⟩
      rw [TableFile.read_same hm.disk]
      exact himage

section Tidy

variable {P : Pool ρ} (ht : P.cache.Tidy)

include ht

/-- What is transferred for a page depends on the visit of another only by way of the disk. -/
theorem transfer_settled_other {p q : PageId} (hne : q ≠ p) (change : Page → Page) (disk : Disk)
    (e : Ending) :
    (P.settled p change disk).transfer e q = transfer { P with disk } e q := by
  have hpage : (P.settled p change disk).cache.page? q = P.cache.page? q :=
    (Cache.page?_updatePage ht p change q).trans (if_neg hne)
  have hres : (P.settled p change disk).cache.isResident q = P.cache.isResident q := by
    simp only [settled, Cache.isResident, resident_updatePage]
  cases e with
  | commit =>
      simp only [transfer, dirty?, hpage]
      cases (P.cache.page? q).filter Page.isDirty with
      | none => rfl
      | some page => rfl
  | rollback =>
      simp only [transfer, hres]
      rfl

theorem id_of_dirty? {p : PageId} {page : Page} (h : P.dirty? p = some page) : page.id = p := by
  rcases Option.filter_eq_some_iff.1 h with ⟨hp, _⟩
  rcases ht.resident_of_page hp with ⟨_, _, _, hid⟩
  exact hid

omit ht in
/-- Copies of different pages have different places. -/
theorem clear_of_ne (hs : P.Separate) {page other : Page} (hne : other.id ≠ page.id)
    {f g : TableFile} (hf : P.tables.get? page.id.table = some f)
    (hg : P.tables.get? other.id.table = some g) : f.Clear g page other := by
  by_cases htable : other.id.table = page.id.table
  · rw [htable, hf] at hg
    refine Or.inr ⟨(Option.some.inj hg).symm, fun hnumber => hne ?_⟩
    exact PageId.eq_of htable hnumber
  · exact Or.inl fun hfile => htable (hs _ f hf _ g hg hfile).symm

/-- Two visits transfer the same whichever is made first. -/
theorem transfer_swap (hs : P.Separate) {e : Ending} {p q : PageId} (hne : p ≠ q)
    {change change' : Page → Page} {d₁ d₂ : Disk} (hp : P.transfer e p = .ok (change, d₁))
    (hq : (P.settled p change d₁).transfer e q = .ok (change', d₂)) :
    ∃ e₁ e₂, P.transfer e q = .ok (change', e₁) ∧
      (P.settled q change' e₁).transfer e p = .ok (change, e₂) ∧ d₂.Same e₂ := by
  rw [transfer_settled_other ht (Ne.symm hne)] at hq
  simp only [transfer_settled_other ht hne]
  cases e with
  | commit =>
      rcases (P.transfer_commit p change d₁).1 hp with ⟨rfl, hd₁⟩
      rcases (transfer_commit _ q change' d₂).1 hq with ⟨rfl, hd₂⟩
      simp only [transfer_commit, true_and]
      have hdirty : ∀ d r, dirty? { P with disk := d } r = P.dirty? r := fun _ _ => rfl
      simp only [hdirty] at hd₂ ⊢
      -- Only if both copies have to be written do the visits meet.
      cases hpd : P.dirty? p with
      | none =>
          rw [hpd] at hd₁
          cases hd₁
          exact ⟨d₂, d₂, hd₂, rfl, .refl _⟩
      | some page =>
          rw [hpd] at hd₁
          cases hqd : P.dirty? q with
          | none =>
              rw [hqd] at hd₂
              cases hd₂
              exact ⟨P.disk, d₁, rfl, hd₁, .refl _⟩
          | some other =>
              rw [hqd] at hd₂
              rcases (P.storeImage_ok_iff page d₁).1 hd₁ with ⟨f, hf, hw, hstore⟩
              rcases (storeImage_ok_iff _ other d₂).1 hd₂ with ⟨g, hg, hw', hstore'⟩
              have hids : other.id ≠ page.id := by
                rw [id_of_dirty? ht hpd, id_of_dirty? ht hqd]
                exact Ne.symm hne
              rcases TableFile.write_swap (clear_of_ne hs hids hf hg) hstore hstore' with
                ⟨e₁, e₂, he₁, he₂, hsame⟩
              exact ⟨e₁, e₂, (P.storeImage_ok_iff other e₁).2 ⟨g, hg, hw', he₁⟩,
                (storeImage_ok_iff _ page e₂).2 ⟨f, hf, hw, he₂⟩, hsame⟩
  | rollback =>
      -- Nothing is written, so both find the disk as it is.
      rcases (P.transfer_rollback p change d₁).1 hp with ⟨rfl, _⟩
      rcases (transfer_rollback _ q change' d₂).1 hq with ⟨rfl, _⟩
      exact ⟨P.disk, P.disk, hq, hp, .refl _⟩

/-- A second visit transfers nothing new. -/
theorem transfer_again {e : Ending} {p : PageId} {change : Page → Page} {disk : Disk}
    (h : P.transfer e p = .ok (change, disk)) :
    (P.settled p change disk).transfer e p = .ok (change, disk) := by
  cases e with
  | commit =>
      rcases (P.transfer_commit p change disk).1 h with ⟨rfl, _⟩
      refine (transfer_commit _ p _ disk).2 ⟨rfl, ?_⟩
      have hclean : (P.settled p (Page.mark · none) disk).dirty? p = none := by
        simp only [dirty?, settled, Cache.page?_updatePage ht, if_true]
        cases P.cache.page? p with
        | none => rfl
        | some page => rfl
      rw [hclean]
      rfl
  | rollback =>
      rcases (P.transfer_rollback p change disk).1 h with ⟨rfl, hcase⟩
      refine (transfer_rollback _ p change _).2 ⟨rfl, ?_⟩
      have hres : (P.settled p change P.disk).cache.isResident p = P.cache.isResident p := by
        simp only [settled, Cache.isResident, resident_updatePage]
      rw [hres]
      exact hcase

end Tidy

/-! ## Visits in any order -/

theorem settled_congr {P P' : Pool ρ} (hm : P.Matches P') (p : PageId) (change : Page → Page)
    {disk disk' : Disk} (hd : disk.Same disk') :
    (P.settled p change disk).Matches (P'.settled p change disk') := by
  refine ⟨?_, fun f => ?_, hd⟩
  · rcases hm.apart with ⟨frames, d, rfl⟩
    rcases P.cache.updatePage_apart p change with ⟨frames₁, heq₁⟩
    rcases Cache.updatePage_apart { P.cache with frames } p change with ⟨frames₂, heq₂⟩
    exact ⟨frames₂, disk', by simp only [settled, heq₁, heq₂]⟩
  · simp only [settled, Cache.frame?_updatePage, hm.resident, hm.frames]

theorem settled_swap {P : Pool ρ} (ht : P.cache.Tidy) {p q : PageId} (hne : p ≠ q)
    (change change' : Page → Page) (d₁ e₁ : Disk) {d₂ e₂ : Disk} (hd : d₂.Same e₂) :
    ((P.settled p change d₁).settled q change' d₂).Matches
      ((P.settled q change' e₁).settled p change e₂) := by
  refine ⟨?_, fun f => ?_, hd⟩
  · rcases P.cache.updatePage_apart p change with ⟨frames₁, heq₁⟩
    rcases P.cache.updatePage_apart q change' with ⟨frames₂, heq₂⟩
    rcases Cache.updatePage_apart { P.cache with frames := frames₁ } q change' with ⟨frames₃, heq₃⟩
    rcases Cache.updatePage_apart { P.cache with frames := frames₂ } p change with ⟨frames₄, heq₄⟩
    exact ⟨frames₄, e₂, by simp only [settled, heq₁, heq₂, heq₃, heq₄]⟩
  · simp only [settled, Cache.frame?_updatePage, resident_updatePage]
    -- No frame is the frame of both pages.
    by_cases hp : P.cache.resident.get? p = some f
    · have hq : P.cache.resident.get? q ≠ some f := fun hq => hne (ht.frame_inj hp hq)
      simp only [if_pos hp, if_neg hq]
    · simp only [if_neg hp]

theorem settled_again {P : Pool ρ} {p : PageId} {change : Page → Page} (disk : Disk)
    (h : ∀ page, change (change page) = change page) :
    (P.settled p change disk).Matches ((P.settled p change disk).settled p change disk) := by
  refine (matches_settled_idle (P := P.settled p change disk) fun page hpage => ?_).symm
  rcases Option.bind_eq_some_iff.1 hpage with ⟨f, hr, hf⟩
  simp only [settled, resident_updatePage] at hr
  simp only [settled, Cache.frame?_updatePage, if_pos hr] at hf
  rcases Option.map_eq_some_iff.1 hf with ⟨page', _, rfl⟩
  exact h page'

theorem settle_congr {P P' Q : Pool ρ} (hm : P.Matches P') {e : Ending} {p : PageId}
    (h : P.settle e p = .ok Q) : ∃ Q', P'.settle e p = .ok Q' ∧ Q.Matches Q' := by
  rcases transfer_of_settle h with ⟨change, disk, ht, hQ⟩
  rcases transfer_congr hm ht with ⟨disk', ht', hd⟩
  rcases settle_of_transfer ht' with ⟨Q', hok, hQ'⟩
  exact ⟨Q', hok, (hQ.symm.trans (settled_congr hm p change hd)).trans hQ'⟩

/-- The visits of an ending can be made in any order, and more than once. -/
theorem orderless_settle (e : Ending) :
    Orderless (fun (P : Pool ρ) p => P.settle e p) fun P => P.cache.Tidy ∧ P.Separate where
  good hg h := by
    have hv := visited_settle hg.1 h
    refine ⟨hv.tidy, ?_⟩
    rcases hv.apart with ⟨_, _, rfl⟩
    exact hg.2
  alike hg hm := by
    refine ⟨hm.tidy hg.1, ?_⟩
    unfold Separate
    rw [hm.tables]
    exact hg.2
  congr _ hm h := settle_congr hm h
  swap := by
    rintro P Q R p q ⟨ht, hs⟩ hne hp hq
    rcases transfer_of_settle hp with ⟨change, d₁, hp, hQ⟩
    rcases settle_congr hQ.symm hq with ⟨S, hq, hS⟩
    rcases transfer_of_settle hq with ⟨change', d₂, hq, hR⟩
    rcases transfer_swap ht hs hne hp hq with ⟨e₁, e₂, hq', hp', hd⟩
    rcases settle_of_transfer hq' with ⟨Q', hq', hQ'⟩
    rcases settle_of_transfer hp' with ⟨S', hp', hS'⟩
    rcases settle_congr hQ' hp' with ⟨R', hp', hR'⟩
    have hswap := settled_swap ht hne change change' d₁ e₁ hd
    exact ⟨Q', R', hq', hp', hS.trans (hR.symm.trans (hswap.trans (hS'.trans hR')))⟩
  again := by
    rintro P Q p ⟨ht, _⟩ hp
    rcases transfer_of_settle hp with ⟨change, disk, hp, hQ⟩
    rcases settle_of_transfer (transfer_again ht hp) with ⟨S, hagain, hS⟩
    rcases settle_congr hQ hagain with ⟨R, hR, hm⟩
    have hidle := settled_again (P := P) (p := p) disk fun page => (change_of_transfer hp page).2
    exact ⟨R, hR, hQ.symm.trans (hidle.trans (hS.trans hm))⟩

/-- An ending comes out as its round does, and gives the locks back if that succeeds. -/
theorem finishIn_eq (P : Pool ρ) (order : List PageId) (t : TxnId) (e : Ending) :
    (∃ Q, P.forEach (fun Q p => Q.settle e p) order = (Q, .ok ()) ∧
      P.finishIn order t e = (Q.setLocks (Q.locks.releaseAll t), .ok ())) ∨
    ∃ Q cause, P.forEach (fun Q p => Q.settle e p) order = (Q, .error cause) ∧
      P.finishIn order t e = (Q, .error cause) := by
  unfold finishIn
  rcases P.forEach (fun Q p => Q.settle e p) order with ⟨Q, cause | u⟩
  · exact Or.inr ⟨Q, cause, rfl, rfl⟩
  · exact Or.inl ⟨Q, rfl, rfl⟩

/-- Endings come out alike if their rounds do. -/
theorem concur_finishIn {P P' : Pool ρ} {order order' : List PageId} (t : TxnId) {e : Ending}
    (h : Concur (P.forEach (fun Q p => Q.settle e p) order)
      (P'.forEach (fun Q p => Q.settle e p) order')) :
    Concur (P.finishIn order t e) (P'.finishIn order' t e) := by
  rcases P.finishIn_eq order t e with ⟨Q, hr, heq⟩ | ⟨Q, cause, hr, heq⟩ <;>
    rcases P'.finishIn_eq order' t e with ⟨Q', hr', heq'⟩ | ⟨Q', cause', hr', heq'⟩ <;>
    rw [hr, hr'] at h <;> rw [heq, heq']
  · have hm := h.pools rfl
    refine ⟨rfl, fun _ => ?_⟩
    rw [hm.locks]
    exact hm.setLocks _
  · cases h.isOk
  · cases h.isOk
  · exact ⟨rfl, Bool.noConfusion⟩

end Pool

namespace Engine

variable {ρ : Type} [EvictionOrder ρ]

/-- Whatever has happened, to the files too, as long as no two tables are in one file: in whichever
    order an ending visits the pages that its transaction holds to write, it succeeds or fails
    alike. If it succeeds it leaves the same copies in the same frames, each with the same mark, the
    same locks, and files of the same lengths with the same bytes. -/
theorem ending_in_any_order {ok : Engine ρ → Move ρ → Prop} {E : Engine ρ} (h : E.Arises ok)
    (hs : E.pool.Separate) {t : TxnId} (e : Ending) {order order' : List PageId}
    (horder : order.Perm (E.pool.locks.exclusivePages t))
    (horder' : order'.Perm (E.pool.locks.exclusivePages t)) :
    Pool.Concur (E.pool.finishIn order t e) (E.pool.finishIn order' t e) :=
  Pool.concur_finishIn t
    ((Pool.orderless_settle e).concur_perm (horder.trans horder'.symm) ⟨h.tidy, hs⟩)

/-- A transaction writes two pages of one table and holds a page of another table, which has none.
    Then others cut the file in the middle of the first page. -/
def cutShort : List (Move Recency) :=
  [.register ⟨⟨2⟩, ⟨1⟩, "other.tbl", Layout.tiny⟩,
    .event (.submit ⟨1⟩ (.fetch ⟨⟨1⟩, 0⟩ .readWrite true)), .event (.step ⟨0⟩),
    .event (.act (.write ⟨0⟩ (.fill 5))),
    .event (.submit ⟨1⟩ (.fetch ⟨⟨1⟩, 1⟩ .readWrite true)), .event (.step ⟨1⟩),
    .event (.act (.write ⟨1⟩ (.fill 7))),
    .event (.submit ⟨1⟩ (.lock ⟨⟨2⟩, 0⟩ .readWrite)), .event (.step ⟨2⟩),
    .outside (Disk.put {} ⟨0⟩ (FileImage.empty.resize 1))]

/-- Committed in the one order, the file has both pages again, and so it has in the other. -/
theorem ending_in_any_order_cutShort :
    ((((tiny 2 ({} : Recency)).moves cutShort).pool.finishIn
      [⟨⟨1⟩, 1⟩, ⟨⟨2⟩, 0⟩, ⟨⟨1⟩, 0⟩] ⟨1⟩ .commit).1.disk.image ⟨0⟩).contents = #[5, 5, 7, 7] ∧
    Pool.Concur
      (((tiny 2 ({} : Recency)).moves cutShort).pool.finishIn
        [⟨⟨1⟩, 1⟩, ⟨⟨2⟩, 0⟩, ⟨⟨1⟩, 0⟩] ⟨1⟩ .commit)
      (((tiny 2 ({} : Recency)).moves cutShort).pool.finishIn
        [⟨⟨1⟩, 0⟩, ⟨⟨1⟩, 1⟩, ⟨⟨2⟩, 0⟩] ⟨1⟩ .commit) := by
  have harises : ((tiny 2 ({} : Recency)).moves cutShort).Arises fun _ _ => True :=
    (Arises.fresh (fresh_tiny 2 ({} : Recency))).moves (by decide +kernel)
  exact ⟨by decide +kernel, ending_in_any_order harises (by decide +kernel) .commit
    (by decide +kernel) (by decide +kernel)⟩

end Engine

end RowStore
