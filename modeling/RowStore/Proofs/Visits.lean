import RowStore.Proofs.Coherence
import RowStore.Transaction

/-!
# Visiting Pages

What an ending leaves of the pages that it visits, whatever state the pool is in.

An ending goes through a list of pages and stops at the first that it can neither write
out nor bring back. A page that it has visited is clean. Who cannot roll back has pages
leave, and a page that has left has no copy at all. Either way its copy, if there is
one, is nobody's. All the locks of a transaction are given back at once, and only after
the last of its pages.

Nothing is asked here of tables and files: they may be other ones than those which the
copies were loaded from. What the files have afterwards can be told only if copies and
images go together (`RowStore.Proofs.Endings`).

## Main definitions

* `Pool.Cleaned`: The copies of some pages are clean or have left.
* `Pool.Visited`: Some pages were visited by an ending.
* `Pool.Settles`: What a visit does that succeeds.
* `Pool.setLocks`: A change of the locks alone.
* `Attempt`: An order of the pages, and what the device refuses meanwhile.
* `Pool.leaveBy`, `Pool.closeBy`: Endings for good in which every attempt is another one.

## Theorems

* `forEach_visits`: A round over a list does what its visits do.
* `visited_settle`, `cleaned_discard`: Every way to visit a page leaves it clean.
* `finishIn_visited`, `giveUp_cleaned`, `leaveBy_cleaned`, `closeBy_cleaned`: What is left of a
  transaction that ends.
* `abandon_eq_leaveBy`, `close_eq_closeBy`: The endings of a pool are such endings.
-/

namespace RowStore

/-- A result without a value that is no error. -/
theorem ok_of_isOk {ε : Type} {r : Except ε Unit} (h : r.isOk = true) : r = .ok () := by
  cases r with
  | error e => cases h
  | ok u => rfl

/-- What is not settled about an attempt to end a transaction: the transfers that the device refuses
    meanwhile, and the order in which pages are visited. -/
structure Attempt where
  faults : Faults
  order : List PageId

namespace Pool

variable {ρ : Type}

/-! ## Rounds -/

/-- What each visit does, and can be joined, is what a round over a list does for the part of the
    list that it visits. Without a failure that is all of it. -/
theorem forEach_visits {act : Pool ρ → PageId → Except StoreError (Pool ρ)} {G : Pool ρ → Prop}
    {V : Pool ρ → Pool ρ → List PageId → Prop} (hgood : ∀ P Q l, V P Q l → G Q)
    (hnil : ∀ P, G P → V P P [])
    (happend : ∀ P Q R l l', V P Q l → V Q R l' → V P R (l ++ l'))
    (hact : ∀ P p Q, G P → act P p = .ok Q → V P Q [p]) (l : List PageId)
    {P : Pool ρ} (hg : G P) :
    ∃ Q visited, V P Q visited ∧ visited <+: l ∧
      (P.forEach act l = (Q, .ok ()) ∧ visited = l ∨ ∃ e, P.forEach act l = (Q, .error e)) := by
  -- Along the list: the first visit is joined with what the rest visits. A failure ends the round.
  induction l generalizing P with
  | nil => exact ⟨P, [], hnil P hg, List.prefix_rfl, Or.inl ⟨rfl, rfl⟩⟩
  | cons p rest ih =>
      unfold forEach
      cases ha : act P p with
      | error e => exact ⟨P, [], hnil P hg, List.nil_prefix, Or.inr ⟨e, rfl⟩⟩
      | ok R =>
          have hp := hact P p R hg ha
          rcases ih (hgood P R [p] hp) with ⟨Q, visited, hrel, hpre, hres⟩
          refine ⟨Q, p :: visited, happend P R Q [p] visited hp hrel,
            (List.prefix_cons_inj p).2 hpre, ?_⟩
          rcases hres with ⟨heq, hv⟩ | ⟨e, heq⟩
          · exact Or.inl ⟨heq, congrArg _ hv⟩
          · exact Or.inr ⟨e, heq⟩

/-- A round over a list succeeds if every visit does. -/
theorem forEach_ok {act : Pool ρ → PageId → Except StoreError (Pool ρ)} {G : Pool ρ → Prop}
    (hact : ∀ P p, G P → ∃ Q, act P p = .ok Q ∧ G Q) (l : List PageId) {P : Pool ρ}
    (hg : G P) : (P.forEach act l).2 = .ok () := by
  induction l generalizing P with
  | nil => rfl
  | cons p rest ih =>
      rcases hact P p hg with ⟨Q, heq, hq⟩
      unfold forEach
      rw [heq]
      exact ih hq

/-- A round that fails has come to a visit that fails, and its pool is that of the visits before. -/
theorem forEach_error {act : Pool ρ → PageId → Except StoreError (Pool ρ)} (l : List PageId)
    {P Q : Pool ρ} {e : StoreError} (h : P.forEach act l = (Q, .error e)) :
    ∃ done q rest, l = done ++ q :: rest ∧ P.forEach act done = (Q, .ok ()) ∧
      act Q q = .error e := by
  induction l generalizing P with
  | nil => cases h
  | cons p rest ih =>
      unfold forEach at h
      cases hp : act P p with
      | error e' =>
          rw [hp] at h
          cases h
          exact ⟨[], p, rest, rfl, rfl, hp⟩
      | ok R =>
          rw [hp] at h
          rcases ih h with ⟨done, q, rest', rfl, hdone, hq⟩
          refine ⟨p :: done, q, rest', rfl, ?_, hq⟩
          unfold forEach
          rw [hp]
          exact hdone

/-- What no visit changes, a round does not change, wherever it stops. -/
theorem forEach_const {α : Type} (get : Pool ρ → α)
    {act : Pool ρ → PageId → Except StoreError (Pool ρ)}
    (hact : ∀ P Q p, act P p = .ok Q → get Q = get P) (P : Pool ρ) (l : List PageId) :
    get (P.forEach act l).1 = get P := by
  induction l generalizing P with
  | nil => rfl
  | cons p rest ih =>
      unfold forEach
      split
      · rename_i Q hq
        rw [ih, hact P Q p hq]
      · rfl

/-- A change of the locks alone. -/
def setLocks (P : Pool ρ) (locks : LockTable) : Pool ρ := { P with locks }

/-- An attempt to end a transaction. -/
def attempt (P : Pool ρ) (a : Attempt) (t : TxnId) (e : Ending) : Pool ρ × Except StoreError Unit :=
  finishIn { P with faults := a.faults } a.order t e

/-! ## What is clean afterwards -/

theorem resident_updatePage (c : Cache ρ) (p : PageId) (change : Page → Page) :
    (c.updatePage p change).resident = c.resident := by
  unfold Cache.updatePage
  split <;> rfl

theorem handles_updatePage (c : Cache ρ) (p : PageId) (change : Page → Page) :
    (c.updatePage p change).handles = c.handles ∧
      (c.updatePage p change).nextHandle = c.nextHandle ∧
      (c.updatePage p change).capacity = c.capacity := by
  unfold Cache.updatePage
  split <;> exact ⟨rfl, rfl, rfl⟩

theorem order_updatePage (c : Cache ρ) (p : PageId) (change : Page → Page) :
    (c.updatePage p change).order = c.order := by
  unfold Cache.updatePage
  split <;> rfl

/-- The copies of some pages are clean or have left, and those of the others are as they were.
    Nothing but the cache and the disk has changed. -/
structure Cleaned (P Q : Pool ρ) (pages : List PageId) : Prop where
  tidy : Q.cache.Tidy
  apart : ∃ cache disk, Q = { P with cache, disk }
  owner : ∀ q, Q.owner? q = if q ∈ pages then none else P.owner? q

/-- Some pages were visited by an ending: they are clean, and none has come or left. -/
structure Visited (P Q : Pool ρ) (pages : List PageId) : Prop extends Cleaned P Q pages where
  resident : Q.cache.resident = P.cache.resident
  order : Q.cache.order = P.cache.order
  capacity : Q.cache.capacity = P.cache.capacity
  handles : Q.cache.handles = P.cache.handles

theorem Cleaned.locks {P Q : Pool ρ} {l : List PageId} (h : Cleaned P Q l) :
    Q.locks = P.locks := by
  rcases h.apart with ⟨_, _, rfl⟩
  rfl

theorem Cleaned.faults {P Q : Pool ρ} {l : List PageId} (h : Cleaned P Q l) :
    Q.faults = P.faults := by
  rcases h.apart with ⟨_, _, rfl⟩
  rfl

/-- The device may be of another mind by now. -/
theorem Cleaned.withFaults {P Q : Pool ρ} {l : List PageId} (h : Cleaned P Q l) (faults : Faults) :
    Cleaned { P with faults } { Q with faults } l where
  tidy := h.tidy
  apart := by
    rcases h.apart with ⟨c, d, rfl⟩
    exact ⟨c, d, rfl⟩
  owner := h.owner

theorem Visited.nil {P : Pool ρ} (ht : P.cache.Tidy) : Visited P P [] :=
  ⟨⟨ht, ⟨P.cache, P.disk, rfl⟩, fun q => by simp⟩, rfl, rfl, rfl, rfl⟩

theorem Cleaned.append {P Q R : Pool ρ} {l l' : List PageId} (h : Cleaned P Q l)
    (h' : Cleaned Q R l') : Cleaned P R (l ++ l') where
  tidy := h'.tidy
  apart := by
    rcases h.apart with ⟨_, _, rfl⟩
    rcases h'.apart with ⟨c, d, rfl⟩
    exact ⟨c, d, rfl⟩
  owner q := by
    rw [h'.owner, h.owner]
    by_cases hq : q ∈ l <;> by_cases hq' : q ∈ l' <;> simp [hq, hq']

theorem Visited.append {P Q R : Pool ρ} {l l' : List PageId} (h : Visited P Q l)
    (h' : Visited Q R l') : Visited P R (l ++ l') where
  toCleaned := h.toCleaned.append h'.toCleaned
  resident := h'.resident.trans h.resident
  order := h'.order.trans h.order
  capacity := h'.capacity.trans h.capacity
  handles := h'.handles.trans h.handles

/-- A page whose copy is clean already. -/
theorem Visited.idle {P : Pool ρ} (ht : P.cache.Tidy) {p : PageId} (hp : P.owner? p = none) :
    Visited P P [p] := by
  refine ⟨⟨ht, ⟨P.cache, P.disk, rfl⟩, fun q => ?_⟩, rfl, rfl, rfl, rfl⟩
  by_cases hq : q = p
  · rw [hq, if_pos List.mem_cons_self, hp]
  · rw [if_neg (by simpa using hq)]

/-- A change that leaves the copy of one page clean. -/
theorem visited_updatePage {P : Pool ρ} (ht : P.cache.Tidy) (p : PageId) (disk : Disk)
    {change : Page → Page} (hid : ∀ page, (change page).id = page.id)
    (hclean : ∀ page, (change page).dirtiedBy = none) :
    Visited P { P with disk, cache := P.cache.updatePage p change } [p] := by
  rcases handles_updatePage P.cache p change with ⟨hh, _, hcap⟩
  refine ⟨⟨Cache.tidy_updatePage ht p hid, ⟨_, disk, rfl⟩, fun q => ?_⟩,
    resident_updatePage _ p change, order_updatePage _ p change, hcap, hh⟩
  unfold owner?
  simp only [Cache.page?_updatePage ht, List.mem_singleton]
  by_cases hq : q = p
  · rw [if_pos hq, if_pos hq]
    cases P.cache.page? q with
    | none => rfl
    | some page => exact hclean page
  · rw [if_neg hq, if_neg hq]

/-- What a visit does that succeeds. One for a commit passes over a page without a dirty copy, or
    writes the copy out; one for a rollback passes over a page that is not resident, or brings its
    image back. -/
inductive Settles (P : Pool ρ) (p : PageId) : Ending → Pool ρ → Prop
  | clean (ho : P.owner? p = none) : Settles P p .commit P
  | stored {page : Page} {disk : Disk} (hp : P.cache.page? p = some page)
      (hd : page.isDirty = true) (hs : P.storeImage page = .ok disk) :
      Settles P p .commit { P with disk, cache := P.cache.updatePage p (Page.mark · none) }
  | absent (hr : P.cache.isResident p = false) : Settles P p .rollback P
  | loaded {image : Page} (hr : P.cache.isResident p = true) (hl : P.loadImage p = .ok image) :
      Settles P p .rollback { P with cache := P.cache.updatePage p (Page.restore · image) }

theorem settles_of_settle {P Q : Pool ρ} {e : Ending} {p : PageId} (h : P.settle e p = .ok Q) :
    P.Settles p e Q := by
  cases e with
  | commit =>
      simp only [settle, flush] at h
      cases hp : P.cache.page? p with
      | none =>
          rw [hp] at h
          cases h
          exact .clean (owner?_of_absent hp)
      | some page =>
          simp only [hp] at h
          split at h
          · rename_i hd
            cases hs : P.storeImage page with
            | error cause =>
                rw [hs] at h
                cases h
            | ok disk =>
                rw [hs] at h
                cases h
                exact .stored hp hd hs
          · rename_i hd
            cases h
            exact .clean ((owner?_of_page hp).trans (by simpa [Page.isDirty] using hd))
  | rollback =>
      simp only [settle, restore] at h
      split at h
      · rename_i hr
        cases hl : P.loadImage p with
        | error cause =>
            rw [hl] at h
            cases h
        | ok image =>
            rw [hl] at h
            cases h
            exact .loaded hr hl
      · rename_i hr
        cases h
        exact .absent (Bool.eq_false_iff.2 hr)

theorem Settles.settle_eq {P Q : Pool ρ} {e : Ending} {p : PageId} (h : P.Settles p e Q) :
    P.settle e p = .ok Q := by
  cases h with
  | clean ho =>
      simp only [settle, flush]
      cases hp : P.cache.page? p with
      | none => rfl
      | some page =>
          rw [owner?_of_page hp] at ho
          simp only [Page.isDirty, ho]
          rfl
  | stored hp hd hs =>
      simp only [settle, flush, hp, if_pos hd, hs]
      rfl
  | absent hr =>
      simp only [settle, restore, hr]
      rfl
  | loaded hr hl =>
      simp only [settle, restore, if_pos hr, hl]
      rfl

theorem owner?_of_isResident {P : Pool ρ} {p : PageId} (h : P.cache.isResident p = false) :
    P.owner? p = none := by
  refine owner?_of_absent (Cache.page?_of_absent ?_)
  simpa [Cache.isResident, Assoc.contains] using h

/-- A page that was flushed or restored is clean, whatever its table's file has. -/
theorem visited_settle {P Q : Pool ρ} (ht : P.cache.Tidy) {e : Ending} {p : PageId}
    (h : P.settle e p = .ok Q) : Visited P Q [p] := by
  cases settles_of_settle h with
  | clean ho => exact .idle ht ho
  | stored hp hd hs => exact visited_updatePage ht p _ (fun _ => rfl) fun _ => rfl
  | absent hr => exact .idle ht (owner?_of_isResident hr)
  | loaded hr hl => exact visited_updatePage ht p P.disk (fun _ => rfl) fun _ => rfl

/-- What no visit changes, an ending does not change, wherever it stops, unless it is about locks.
    -/
theorem finishIn_const {α : Type} (get : Pool ρ → α) {e : Ending}
    (hvisit : ∀ {P Q : Pool ρ} {p : PageId}, P.Settles p e Q → get Q = get P)
    (hlocks : ∀ (P : Pool ρ) locks, get (P.setLocks locks) = get P) (P : Pool ρ)
    (order : List PageId) (t : TxnId) : get (P.finishIn order t e).1 = get P := by
  have hact : ∀ P Q p, P.settle e p = .ok Q → get Q = get P :=
    fun _ _ _ h => hvisit (settles_of_settle h)
  have hround := forEach_const get hact P order
  unfold finishIn
  split
  · rename_i heq
    rw [heq] at hround
    exact (hlocks _ _).trans hround
  · rename_i heq
    rw [heq] at hround
    exact hround

/-- A round of an ending visits the pages that it gets to. -/
theorem forEach_settle (e : Ending) (l : List PageId) {P : Pool ρ} (ht : P.cache.Tidy) :
    ∃ Q visited, Visited P Q visited ∧ visited <+: l ∧
      (P.forEach (fun R p => R.settle e p) l = (Q, .ok ()) ∧ visited = l ∨
        ∃ cause, P.forEach (fun R p => R.settle e p) l = (Q, .error cause)) :=
  forEach_visits (fun _ _ _ h => h.tidy) (fun _ => Visited.nil) (fun _ _ _ _ _ => Visited.append)
    (fun _ _ _ ht h => visited_settle ht h) l ht

/-- So does a round of flushes. -/
theorem visited_forEach_flush (l : List PageId) {P : Pool ρ} (ht : P.cache.Tidy) :
    ∃ visited, Visited P (P.forEach flush l).1 visited := by
  have hact : (fun (Q : Pool ρ) p => Q.settle .commit p) = flush := rfl
  rw [← hact]
  rcases forEach_settle .commit l ht with ⟨Q, visited, hv, _, ⟨heq, _⟩ | ⟨cause, heq⟩⟩
  · rw [heq]
    exact ⟨visited, hv⟩
  · rw [heq]
    exact ⟨visited, hv⟩

/-- An attempt to end a transaction visits its pages up to one that fails, and gives all the locks
    back if none does. -/
theorem finishIn_visited {P : Pool ρ} (ht : P.cache.Tidy) (order : List PageId) (t : TxnId)
    (e : Ending) :
    ∃ Q visited, Visited P Q visited ∧ visited <+: order ∧
      (P.finishIn order t e = (Q.setLocks (P.locks.releaseAll t), .ok ()) ∧ visited = order ∨
        ∃ cause, P.finishIn order t e = (Q, .error cause)) := by
  rcases forEach_settle e order ht with ⟨Q, visited, hv, hpre, hres⟩
  refine ⟨Q, visited, hv, hpre, ?_⟩
  unfold finishIn
  rcases hres with ⟨heq, hall⟩ | ⟨cause, heq⟩
  · rw [heq]
    exact Or.inl ⟨by rw [← hv.locks]; rfl, hall⟩
  · rw [heq]
    exact Or.inr ⟨cause, rfl⟩

section const

variable {α : Type} (get : Pool ρ → α)
  (hvisit : ∀ {e : Ending} {P Q : Pool ρ} {p : PageId}, P.Settles p e Q → get Q = get P)

include hvisit

/-- What no visit changes, a round of flushes does not change. -/
theorem forEach_flush_const (P : Pool ρ) (l : List PageId) :
    get (P.forEach flush l).1 = get P :=
  forEach_const get (fun _ _ _ h => hvisit (settles_of_settle (e := .commit) h)) P l

variable (hlocks : ∀ (P : Pool ρ) locks, get (P.setLocks locks) = get P)
  [EvictionOrder ρ] (hleave : ∀ (P : Pool ρ) p, get (P.discard p) = get P)

include hlocks hleave

omit hvisit in
/-- What a discard does not change either is not changed when a transaction is given up, or left
    alone, or ended for good. -/
theorem giveUp_const (P : Pool ρ) (t : TxnId) : get (P.giveUp t) = get P := by
  have hall : ∀ (l : List PageId) (Q : Pool ρ), get (l.foldl discard Q) = get Q := by
    intro l
    induction l with
    | nil => exact fun _ => rfl
    | cons p rest ih => exact fun Q => (ih (Q.discard p)).trans (hleave Q p)
  exact (hlocks _ _).trans (hall _ P)

theorem abandon_const (P : Pool ρ) (t : TxnId) : get (P.abandon t) = get P := by
  have hfin := finishIn_const get (e := .rollback) hvisit hlocks P (P.locks.exclusivePages t) t
  unfold abandon finish
  split
  · rename_i heq
    rw [heq] at hfin
    exact hfin
  · rename_i Q _ heq
    rw [heq] at hfin
    exact (giveUp_const get hlocks hleave Q t).trans hfin

theorem close_const (P : Pool ρ) (t : TxnId) (e : Ending) : get (P.close t e).1 = get P := by
  have hfin := finishIn_const get (e := e) hvisit hlocks P (P.locks.exclusivePages t) t
  unfold close finish
  split
  · rename_i heq
    rw [heq] at hfin
    exact hfin
  · rename_i Q _ heq
    rw [heq] at hfin
    exact (abandon_const get hvisit hlocks hleave Q t).trans hfin

end const

section leaving

variable [EvictionOrder ρ] {P : Pool ρ} (ht : P.cache.Tidy)

include ht

/-- A page that was made to leave has no copy. -/
theorem cleaned_discard (p : PageId) : Cleaned P (P.discard p) [p] := by
  refine ⟨Cache.tidy_discard ht p, ⟨_, P.disk, rfl⟩, fun q => ?_⟩
  unfold owner? discard
  simp only [Cache.page?_discard, List.mem_singleton]
  split <;> rfl

omit ht in
theorem cleaned_foldl_discard (l : List PageId) {P : Pool ρ} (ht : P.cache.Tidy) :
    Cleaned P (l.foldl discard P) l := by
  induction l generalizing P with
  | nil => exact (Visited.nil ht).toCleaned
  | cons p rest ih =>
      have hp := cleaned_discard ht p
      exact hp.append (ih hp.tidy)

/-- Who gives up has all pages leave that it holds to write, and gives the locks back. -/
theorem giveUp_cleaned (t : TxnId) :
    ∃ Q, Cleaned P Q (P.locks.exclusivePages t) ∧
      P.giveUp t = Q.setLocks (P.locks.releaseAll t) := by
  have hc := cleaned_foldl_discard (P.locks.exclusivePages t) ht
  refine ⟨_, hc, ?_⟩
  unfold giveUp releaseLocks
  rw [hc.locks]
  rfl

/-! ## Endings for good -/

/-- A transaction is left alone: one attempt is made to roll it back, and if that fails it is given
    up. -/
def leaveBy (P : Pool ρ) (a : Attempt) (t : TxnId) : Pool ρ :=
  match P.attempt a t .rollback with
  | (Q, .ok ()) => Q
  | (Q, .error _) => Q.giveUp t

/-- A transaction is ended by one attempt, and if that fails it is left alone with another. -/
def closeBy (P : Pool ρ) (a b : Attempt) (t : TxnId) (e : Ending) :
    Pool ρ × Except StoreError Unit :=
  match P.attempt a t e with
  | (Q, .ok ()) => (Q, .ok ())
  | (Q, .error cause) => (Q.leaveBy b t, .error cause)

omit ht in
theorem abandon_eq_leaveBy (P : Pool ρ) (t : TxnId) :
    P.abandon t = P.leaveBy ⟨P.faults, P.locks.exclusivePages t⟩ t :=
  rfl

/-- The second attempt finds the locks and the device as the first one did. -/
theorem close_eq_closeBy (t : TxnId) (e : Ending) :
    P.close t e = P.closeBy ⟨P.faults, P.locks.exclusivePages t⟩
      ⟨P.faults, P.locks.exclusivePages t⟩ t e := by
  unfold close closeBy finish attempt
  rcases finishIn_visited ht (P.locks.exclusivePages t) t e with
    ⟨Q, _, hv, _, ⟨heq, _⟩ | ⟨cause, heq⟩⟩
  · rw [heq]
  · rw [heq]
    simp only [abandon_eq_leaveBy, hv.locks, hv.faults]

/-- However a transaction is left alone, the pages that it holds to write are clean or have left,
    and its locks are given back. -/
theorem leaveBy_cleaned {a : Attempt} {t : TxnId}
    (ha : ∀ p ∈ P.locks.exclusivePages t, p ∈ a.order) :
    ∃ Q l, Cleaned { P with faults := a.faults } Q l ∧
      (∀ p ∈ P.locks.exclusivePages t, p ∈ l) ∧
      P.leaveBy a t = Q.setLocks (P.locks.releaseAll t) := by
  unfold leaveBy attempt
  rcases finishIn_visited (P := { P with faults := a.faults }) ht a.order t .rollback with
    ⟨Q, visited, hv, _, ⟨heq, rfl⟩ | ⟨cause, heq⟩⟩
  · rw [heq]
    exact ⟨Q, _, hv.toCleaned, ha, rfl⟩
  · rw [heq]
    have hl : Q.locks = P.locks := hv.locks
    rcases giveUp_cleaned hv.tidy t with ⟨R, hR, hgive⟩
    rw [hl] at hR hgive
    exact ⟨R, _, hv.toCleaned.append hR, fun p hp => List.mem_append_right _ hp, hgive⟩

/-- So it is when a transaction ends for good, in whichever way. -/
theorem closeBy_cleaned {a b : Attempt} {t : TxnId} (e : Ending)
    (ha : ∀ p ∈ P.locks.exclusivePages t, p ∈ a.order)
    (hb : ∀ p ∈ P.locks.exclusivePages t, p ∈ b.order) :
    ∃ faults Q l, (faults = a.faults ∨ faults = b.faults) ∧ Cleaned { P with faults } Q l ∧
      (∀ p ∈ P.locks.exclusivePages t, p ∈ l) ∧
      (P.closeBy a b t e).1 = Q.setLocks (P.locks.releaseAll t) := by
  unfold closeBy attempt
  rcases finishIn_visited (P := { P with faults := a.faults }) ht a.order t e with
    ⟨Q, visited, hv, _, ⟨heq, rfl⟩ | ⟨cause, heq⟩⟩
  · rw [heq]
    exact ⟨a.faults, Q, _, Or.inl rfl, hv.toCleaned, ha, rfl⟩
  · rw [heq]
    have hl : Q.locks = P.locks := hv.locks
    rcases leaveBy_cleaned hv.tidy (a := b) (t := t) (by rw [hl]; exact hb) with
      ⟨R, l, hR, hall, hleave⟩
    rw [hl] at hall hleave
    exact ⟨b.faults, R, _, Or.inr rfl, (hv.toCleaned.withFaults b.faults).append hR,
      fun p hp => List.mem_append_right _ (hall p hp), hleave⟩

theorem abandon_cleaned (t : TxnId) :
    ∃ Q l, Cleaned P Q l ∧ (∀ p ∈ P.locks.exclusivePages t, p ∈ l) ∧
      P.abandon t = Q.setLocks (P.locks.releaseAll t) :=
  leaveBy_cleaned ht (a := ⟨P.faults, P.locks.exclusivePages t⟩) fun _ => id

theorem close_cleaned (t : TxnId) (e : Ending) :
    ∃ Q l, Cleaned P Q l ∧ (∀ p ∈ P.locks.exclusivePages t, p ∈ l) ∧
      (P.close t e).1 = Q.setLocks (P.locks.releaseAll t) := by
  rw [close_eq_closeBy ht]
  rcases closeBy_cleaned ht (a := ⟨P.faults, P.locks.exclusivePages t⟩)
    (b := ⟨P.faults, P.locks.exclusivePages t⟩) e (fun _ => id) (fun _ => id) with
    ⟨faults, Q, l, rfl | rfl, hc, hall, heq⟩
  · exact ⟨Q, l, hc, hall, heq⟩
  · exact ⟨Q, l, hc, hall, heq⟩

end leaving

end Pool

end RowStore
