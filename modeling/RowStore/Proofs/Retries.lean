import RowStore.Proofs.AnyOrder

/-!
# Trying an Ending Again

An ending that fails can be tried again, and what comes of it in the end is what would
have come of it if nothing had been refused the first time.

An ending stops at the first page that it can neither write out nor bring back. By then
it may have visited some of its pages, and a second try begins with these as they are
left. A page that was dirty and was visited is clean, and its bytes are on disk. A page
that was not visited is as it was. The locks are all there, so the second try is about
the same pages. It may come to them in another order and meet other refusals, and may
fail in its turn.

Whatever a try does it could have done on a device that refuses nothing. So all the
tries together are one long round on such a device, in which a page may come up again,
and it comes out as a round does in which every page comes up once
(`RowStore.Proofs.Rounds`).

## Main definitions

* `Pool.calm`: The pool with a device that refuses nothing.
* `Pool.persist`: An ending is tried until it succeeds.
* `Pool.Landed`: The copy of a page is clean and its bytes are on disk.
* `Pool.Stopped`: What an ending that fails leaves.

## Theorems

* `advanced_settle`: What a visit leaves of the copies.
* `concur_failed`: A try that fails changes nothing about how a round comes out.
* `concur_persist`: An ending that succeeds at last comes out like one that was tried once.
* `Engine.failed_ending_can_be_retried`: What a failed ending leaves, and what comes of it.
-/

namespace RowStore

namespace Pool

variable {ρ : Type}

/-- The pool with a device that refuses nothing. -/
def calm (P : Pool ρ) : Pool ρ := { P with faults := {} }

/-- An ending is tried again until it succeeds, or until no more tries are made. -/
def persist (P : Pool ρ) (t : TxnId) (e : Ending) (a : Attempt) :
    List Attempt → Pool ρ × Except StoreError Unit
  | [] => P.attempt a t e
  | b :: later =>
    match P.attempt a t e with
    | (Q, .ok ()) => (Q, .ok ())
    | (Q, .error _) => Q.persist t e b later

/-- The copy of a page is clean, and its bytes are on disk. -/
def Landed (P : Pool ρ) (p : PageId) : Prop :=
  ∃ page, P.cache.page? p = some page ∧ page.dirtiedBy = none ∧ P.Has p ∧ page.bytes = P.stored p

/-- What an ending that fails leaves: the locks and the resident pages, and of every dirty copy the
    copy as it was or one that is clean with its bytes on disk. A commit leaves the bytes of all
    copies. -/
structure Stopped (P Q : Pool ρ) (e : Ending) : Prop where
  locks : Q.locks = P.locks
  resident : Q.cache.resident = P.cache.resident
  bytes : e = .commit →
    ∀ p, (Q.cache.page? p).map Page.bytes = (P.cache.page? p).map Page.bytes
  pages : ∀ p page, P.cache.page? p = some page → page.isDirty = true →
    Q.cache.page? p = some page ∨ Q.Landed p

/-! ## What a write leaves of the images -/

section stored

variable {P : Pool ρ} {page : Page} {d : Disk} (hstore : P.storeImage page = .ok d)

include hstore

/-- A write takes no page from a file. -/
theorem has_store {q : PageId} (h : P.Has q) : Has { P with disk := d } q := by
  rcases (P.storeImage_ok_iff page d).1 hstore with ⟨f, _, _, hw⟩
  rcases h with ⟨g, hg, hn⟩
  have hle := (TableFile.wrote_of_write hw).2.size_le g.file
  exact ⟨g, hg, Nat.lt_of_lt_of_le hn (Nat.div_le_div_right hle)⟩

/-- The page that is written is there then, with its bytes. -/
theorem stored_store_self :
    Has { P with disk := d } page.id ∧ stored { P with disk := d } page.id = page.bytes := by
  rcases (P.storeImage_ok_iff page d).1 hstore with ⟨f, hf, _, hw⟩
  rcases TableFile.wrote_of_write hw with ⟨hwritable, hwrote⟩
  refine ⟨⟨f, hf, hwrote.lt_pagesOn f.layout.pageSize_pos⟩, ?_⟩
  rw [stored_of_table (P := { P with disk := d }) hf]
  exact hwrote.imageOn_self hwritable.whole

/-- Every other page keeps its image. -/
theorem stored_store_other (hs : P.Separate) {q : PageId} (hne : q ≠ page.id) :
    stored { P with disk := d } q = P.stored q := by
  rcases (P.storeImage_ok_iff page d).1 hstore with ⟨f, hf, _, hw⟩
  rcases TableFile.wrote_of_write hw with ⟨hwritable, hwrote⟩
  cases hg : P.tables.get? q.table with
  | none =>
      unfold stored
      simp only [hg]
  | some g =>
      rw [stored_of_table hg, stored_of_table (P := { P with disk := d }) hg]
      have hclear : f.Clear g page ⟨q, #[], none⟩ := clear_of_ne hs hne hf hg
      exact hwrote.imageOn_clear hclear hwritable.whole

end stored

/-! ## What visits leave of the copies -/

/-- Some pages were visited by an ending: those that were dirty are clean and on disk, and the
    copies of the others are as they were. A commit leaves the bytes of all copies. -/
structure Advanced (e : Ending) (P Q : Pool ρ) (pages : List PageId) : Prop extends
    Visited P Q pages where
  bytes : e = .commit →
    ∀ p, (Q.cache.page? p).map Page.bytes = (P.cache.page? p).map Page.bytes
  others : ∀ p, p ∉ pages → Q.cache.page? p = P.cache.page? p
  landed : ∀ p ∈ pages, P.owner? p ≠ none → Q.Landed p
  stays : ∀ p, P.Landed p → Q.Landed p

theorem Advanced.nil (e : Ending) {P : Pool ρ} (ht : P.cache.Tidy) : Advanced e P P [] where
  toVisited := .nil ht
  bytes _ _ := rfl
  others _ _ := rfl
  landed _ h := absurd h List.not_mem_nil
  stays _ := id

theorem Advanced.append {e : Ending} {P Q R : Pool ρ} {l l' : List PageId}
    (h : Advanced e P Q l) (h' : Advanced e Q R l') : Advanced e P R (l ++ l') where
  toVisited := h.toVisited.append h'.toVisited
  bytes he p := (h'.bytes he p).trans (h.bytes he p)
  others p hp := by
    rw [List.mem_append, not_or] at hp
    exact (h'.others p hp.2).trans (h.others p hp.1)
  landed p hp ho := by
    -- A page that was visited before the rest has landed already.
    by_cases hl : p ∈ l
    · exact h'.stays p (h.landed p hl ho)
    · refine h'.landed p ((List.mem_append.1 hp).resolve_left hl) ?_
      rwa [owner?_congr (h.others p hl)]
  stays p := h'.stays p ∘ h.stays p

/-- A visit that passes over a page whose copy is clean. -/
theorem Advanced.idle {e : Ending} {P : Pool ρ} (ht : P.cache.Tidy) {p : PageId}
    (ho : P.owner? p = none) : Advanced e P P [p] where
  toVisited := .idle ht ho
  bytes _ _ := rfl
  others _ _ := rfl
  landed q hq hne := by
    rw [List.mem_singleton.1 hq] at hne
    exact absurd ho hne
  stays _ := id

theorem advanced_settle {P Q : Pool ρ} (ht : P.cache.Tidy) (hs : P.Separate) {e : Ending}
    {p : PageId} (h : P.settle e p = .ok Q) : Advanced e P Q [p] := by
  have hv := visited_settle ht h
  cases settles_of_settle h with
  | clean ho => exact .idle ht ho
  | @stored page d hp hd hstore =>
      have hpage := Cache.page?_updatePage ht p (Page.mark · none)
      rcases ht.resident_of_page hp with ⟨_, _, _, hid⟩
      have hlanded : Landed { P with disk := d, cache := P.cache.updatePage p (Page.mark · none) }
          p := by
        refine ⟨page.mark none, by rw [hpage, if_pos rfl, hp]; rfl, rfl, ?_⟩
        rw [← hid]
        exact ⟨(stored_store_self hstore).1, (stored_store_self hstore).2.symm⟩
      refine ⟨hv, fun _ q => ?_, fun q hq => ?_, fun q hq _ => ?_, fun q hq => ?_⟩
      · rw [hpage]
        split
        · cases P.cache.page? q <;> rfl
        · rfl
      · rw [hpage, if_neg (by simpa using hq)]
      · rw [List.mem_singleton.1 hq]
        exact hlanded
      · by_cases hqp : q = p
        · rw [hqp]
          exact hlanded
        · rcases hq with ⟨other, hother, hclean, hhas, hbytes⟩
          refine ⟨other, by rw [hpage, if_neg hqp]; exact hother, hclean, has_store hstore hhas, ?_⟩
          exact hbytes.trans (stored_store_other hstore hs (hid.symm ▸ hqp)).symm
  | absent hr => exact .idle ht (owner?_of_isResident hr)
  | @loaded image hr hl =>
      rcases loadImage_eq_ok hl with ⟨rfl, hh, _⟩
      have hpage := Cache.page?_updatePage ht p (Page.restore · ⟨p, P.stored p, none⟩)
      have hlanded : ∀ page, P.cache.page? p = some page → Landed { P with
          cache := P.cache.updatePage p (Page.restore · ⟨p, P.stored p, none⟩) } p := by
        intro page hp
        exact ⟨page.restore ⟨p, P.stored p, none⟩, by rw [hpage, if_pos rfl, hp]; rfl, rfl, hh, rfl⟩
      refine ⟨hv, Ending.noConfusion, fun q hq => ?_, fun q hq hne => ?_, fun q hq => ?_⟩
      · rw [hpage, if_neg (by simpa using hq)]
      · rw [List.mem_singleton.1 hq] at hne ⊢
        cases hp : P.cache.page? p with
        | none => exact absurd (owner?_of_absent hp) hne
        | some page => exact hlanded page hp
      · rcases hq with ⟨other, hother, hrest⟩
        by_cases hqp : q = p
        · rw [hqp] at hother ⊢
          exact hlanded other hother
        · exact ⟨other, by rw [hpage, if_neg hqp]; exact hother, hrest⟩

/-- A round of an ending that succeeds has visited its pages. -/
theorem advanced_forEach {P Q : Pool ρ} (ht : P.cache.Tidy) (hs : P.Separate) {e : Ending}
    {l : List PageId} (h : P.forEach (fun R p => R.settle e p) l = (Q, .ok ())) :
    Advanced e P Q l := by
  have hvisit : ∀ (R : Pool ρ) (p : PageId) (S : Pool ρ), R.cache.Tidy ∧ R.Separate →
      R.settle e p = .ok S → Advanced e R S [p] ∧ S.Separate := fun R p S hg hact =>
    ⟨advanced_settle hg.1 hg.2 hact, ((orderless_settle e).good hg hact).2⟩
  rcases forEach_visits (G := fun R : Pool ρ => R.cache.Tidy ∧ R.Separate)
    (V := fun R S l => Advanced e R S l ∧ S.Separate) (fun _ _ _ h => ⟨h.1.tidy, h.2⟩)
    (fun _ hg => ⟨.nil e hg.1, hg.2⟩) (fun _ _ _ _ _ h h' => ⟨h.1.append h'.1, h'.2⟩)
    hvisit l ⟨ht, hs⟩ with ⟨R, visited, hadv, _, ⟨heq, rfl⟩ | ⟨cause, heq⟩⟩
  · cases h.symm.trans heq
    exact hadv.1
  · cases h.symm.trans heq

/-! ## Tries on a calm device -/

/-- What a visit does, it could have done on a device that refuses nothing. -/
theorem settles_calm {P Q : Pool ρ} {e : Ending} {p : PageId} (h : P.Settles p e Q) :
    P.calm.Settles p e Q.calm := by
  cases h with
  | clean ho => exact .clean ho
  | stored hp hd hs =>
      rcases (P.storeImage_ok_iff _ _).1 hs with ⟨f, hf, _, hw⟩
      exact .stored hp hd ((P.calm.storeImage_ok_iff _ _).2 ⟨f, hf, rfl, hw⟩)
  | absent hr => exact .absent hr
  | loaded hr hl =>
      rcases (P.loadImage_ok_iff p _).1 hl with ⟨f, hf, _, hread⟩
      exact .loaded hr ((P.calm.loadImage_ok_iff p _).2 ⟨f, hf, rfl, hread⟩)

theorem forEach_calm {e : Ending} (l : List PageId) {P Q : Pool ρ}
    (h : P.forEach (fun R p => R.settle e p) l = (Q, .ok ())) :
    P.calm.forEach (fun R p => R.settle e p) l = (Q.calm, .ok ()) := by
  induction l generalizing P with
  | nil =>
      cases h
      rfl
  | cons p rest ih =>
      cases hp : P.settle e p with
      | error cause =>
          rw [forEach_cons_error hp] at h
          cases h
      | ok R =>
          rw [forEach_cons_ok hp] at h
          rw [forEach_cons_ok (settles_calm (settles_of_settle hp)).settle_eq]
          exact ih h

section attempt

variable {P Q : Pool ρ} {a : Attempt} {t : TxnId} {e : Ending}

/-- A try that fails has visited some of its pages. -/
theorem attempt_error {cause : StoreError} (h : P.attempt a t e = (Q, .error cause)) :
    ∃ done, (∀ p ∈ done, p ∈ a.order) ∧
      forEach { P with faults := a.faults } (fun R p => R.settle e p) done = (Q, .ok ()) := by
  rcases finishIn_eq { P with faults := a.faults } a.order t e with
    ⟨R, _, heq⟩ | ⟨R, cause', hround, heq⟩
  · cases h.symm.trans heq
  · cases h.symm.trans heq
    rcases forEach_error a.order hround with ⟨done, q, rest, horder, hdone, _⟩
    refine ⟨done, fun p hp => ?_, hdone⟩
    rw [horder]
    exact List.mem_append_left _ hp

/-- A try that succeeds could have been made on a calm device. -/
theorem attempt_ok (h : P.attempt a t e = (Q, .ok ())) :
    P.calm.finishIn a.order t e = (Q.calm, .ok ()) := by
  rcases finishIn_eq { P with faults := a.faults } a.order t e with
    ⟨R, hround, heq⟩ | ⟨R, cause, _, heq⟩
  · cases h.symm.trans heq
    unfold finishIn
    rw [show P.calm = calm { P with faults := a.faults } from rfl, forEach_calm _ hround]
    rfl
  · cases h.symm.trans heq

variable (ht : P.cache.Tidy) (hs : P.Separate)

include ht hs

/-- What a try leaves that fails. -/
theorem stopped_of_attempt {cause : StoreError} (h : P.attempt a t e = (Q, .error cause)) :
    Stopped P Q e := by
  rcases attempt_error h with ⟨done, _, hdone⟩
  have hadv := advanced_forEach (P := { P with faults := a.faults }) ht hs hdone
  refine ⟨hadv.locks, hadv.resident, hadv.bytes, fun p page hp hd => ?_⟩
  by_cases hmem : p ∈ done
  · refine Or.inr (hadv.landed p hmem ?_)
    rw [owner?_of_page (P := { P with faults := a.faults }) hp]
    exact Option.isSome_iff_ne_none.1 hd
  · exact Or.inl ((hadv.others p hmem).trans hp)

/-- A try that fails leaves frames and files as good as they were. -/
theorem good_of_attempt {cause : StoreError} (h : P.attempt a t e = (Q, .error cause)) :
    Q.cache.Tidy ∧ Q.Separate := by
  rcases attempt_error h with ⟨done, _, hdone⟩
  have hadv := advanced_forEach (P := { P with faults := a.faults }) ht hs hdone
  refine ⟨hadv.tidy, ?_⟩
  rcases hadv.apart with ⟨_, _, rfl⟩
  exact hs

/-- It makes no difference to an ending on a calm device that a try has failed before. -/
theorem concur_failed {cause : StoreError} (h : P.attempt a t e = (Q, .error cause))
    {order : List PageId} (hsub : ∀ p ∈ a.order, p ∈ order) :
    Concur (P.calm.finishIn order t e) (Q.calm.finishIn order t e) := by
  rcases attempt_error h with ⟨done, hdone, hround⟩
  refine concur_finishIn t ((orderless_settle e).concur_resume (fun p hp => hsub p (hdone p hp))
    (P := P.calm) ⟨ht, hs⟩ ?_)
  exact forEach_calm (P := { P with faults := a.faults }) done hround

end attempt

/-- An ending that succeeds at last comes out as it would have at the first try on a calm device. -/
theorem concur_persist {P R : Pool ρ} (ht : P.cache.Tidy) (hs : P.Separate) {t : TxnId}
    {e : Ending} {pages order : List PageId} (horder : order.Perm pages) {a : Attempt}
    {later : List Attempt} (hall : ∀ b ∈ a :: later, b.order.Perm pages)
    (h : P.persist t e a later = (R, .ok ())) :
    Concur (P.calm.finishIn order t e) (R.calm, .ok ()) := by
  -- Along the tries: one that fails makes no difference, and one that succeeds is the last.
  induction later generalizing P a with
  | nil =>
      have hperm := horder.trans (hall a List.mem_cons_self).symm
      rw [← attempt_ok h]
      exact concur_finishIn t ((orderless_settle e).concur_perm hperm (P := P.calm) ⟨ht, hs⟩)
  | cons b rest ih =>
      have hperm := horder.trans (hall a List.mem_cons_self).symm
      unfold persist at h
      rcases hres : P.attempt a t e with ⟨Q, cause | u⟩
      · rw [hres] at h
        rcases good_of_attempt ht hs hres with ⟨htQ, hsQ⟩
        refine (concur_failed ht hs hres fun p => hperm.mem_iff.2).trans ?_
        exact ih htQ hsQ (fun b' hb' => hall b' (List.mem_cons_of_mem a hb')) h
      · rw [hres] at h
        cases h
        rw [← attempt_ok hres]
        exact concur_finishIn t ((orderless_settle e).concur_perm hperm (P := P.calm) ⟨ht, hs⟩)

end Pool

namespace Engine

variable {ρ : Type} [EvictionOrder ρ]

/-- Whatever has happened, to the files too, as long as no two tables are in one file: if an ending
    fails, it has given no lock back, a commit has changed the bytes of no copy, and every copy that
    was dirty is as it was, or clean with its bytes on disk. On a device that refuses nothing it
    then comes out as it would have without the failure. And if it is tried until it succeeds,
    whatever the device refuses each time and in whichever order the pages are visited, what is left
    is what a first try on such a device would have left. -/
theorem failed_ending_can_be_retried {ok : Engine ρ → Move ρ → Prop} {E : Engine ρ}
    (h : E.Arises ok) (hs : E.pool.Separate) {t : TxnId} {e : Ending} {first : Attempt}
    (hfirst : first.order.Perm (E.pool.locks.exclusivePages t)) {Q : Pool ρ} {cause : StoreError}
    (hfail : E.pool.attempt first t e = (Q, .error cause)) {order : List PageId}
    (horder : order.Perm (E.pool.locks.exclusivePages t)) :
    Pool.Stopped E.pool Q e ∧
    Pool.Concur (E.pool.attempt ⟨{}, order⟩ t e) (Q.attempt ⟨{}, order⟩ t e) ∧
    ∀ (a : Attempt) (later : List Attempt) (R : Pool ρ),
      (∀ b ∈ a :: later, b.order.Perm (E.pool.locks.exclusivePages t)) →
      Q.persist t e a later = (R, .ok ()) →
      Pool.Concur (E.pool.attempt ⟨{}, order⟩ t e) (R.calm, .ok ()) := by
  have hsub : ∀ p ∈ first.order, p ∈ order := fun p hp => horder.mem_iff.2 (hfirst.mem_iff.1 hp)
  have hconcur := Pool.concur_failed h.tidy hs hfail hsub
  rcases Pool.good_of_attempt h.tidy hs hfail with ⟨htQ, hsQ⟩
  refine ⟨Pool.stopped_of_attempt h.tidy hs hfail, hconcur, fun a later R hall hlast => ?_⟩
  exact hconcur.trans (Pool.concur_persist htQ hsQ horder hall hlast)

/-- A transaction writes two pages and holds a page that is not there. -/
def twoDirty : List (Move Recency) :=
  [.event (.submit ⟨1⟩ (.fetch ⟨⟨1⟩, 0⟩ .readWrite true)), .event (.step ⟨0⟩),
    .event (.act (.write ⟨0⟩ (.fill 5))),
    .event (.submit ⟨1⟩ (.fetch ⟨⟨1⟩, 1⟩ .readWrite true)), .event (.step ⟨1⟩),
    .event (.act (.write ⟨1⟩ (.fill 7))),
    .event (.submit ⟨1⟩ (.lock ⟨⟨1⟩, 9⟩ .readWrite)), .event (.step ⟨2⟩)]

/-- A try that visits the pages in this order while this page must not be written. -/
def refusing (p : PageId) (order : List PageId) : Attempt :=
  ⟨⟨fun _ => none, fun q => if q = p then some .notFound else none⟩, order⟩

/-- The first try writes the first page and stops at the second, the next one stops there at once,
    and the last one writes the second page. -/
theorem failed_ending_can_be_retried_twoDirty :
    ∃ Q cause R, ((tiny 2 ({} : Recency)).moves twoDirty).pool.attempt
        (refusing ⟨⟨1⟩, 1⟩ [⟨⟨1⟩, 0⟩, ⟨⟨1⟩, 1⟩, ⟨⟨1⟩, 9⟩]) ⟨1⟩ .commit = (Q, .error cause) ∧
      Q.stored ⟨⟨1⟩, 0⟩ = #[5, 5] ∧ Q.owner? ⟨⟨1⟩, 1⟩ = some ⟨1⟩ ∧
      Q.persist ⟨1⟩ .commit (refusing ⟨⟨1⟩, 1⟩ [⟨⟨1⟩, 1⟩, ⟨⟨1⟩, 9⟩, ⟨⟨1⟩, 0⟩])
        [⟨{}, [⟨⟨1⟩, 9⟩, ⟨⟨1⟩, 0⟩, ⟨⟨1⟩, 1⟩]⟩] = (R, .ok ()) ∧
      Pool.Concur (((tiny 2 ({} : Recency)).moves twoDirty).pool.attempt
        ⟨{}, [⟨⟨1⟩, 0⟩, ⟨⟨1⟩, 1⟩, ⟨⟨1⟩, 9⟩]⟩ ⟨1⟩ .commit) (R.calm, .ok ()) := by
  have harises : ((tiny 2 ({} : Recency)).moves twoDirty).Arises fun _ _ => True :=
    (Arises.fresh (fresh_tiny 2 ({} : Recency))).moves (by decide +kernel)
  rcases Pool.eq_error_of_isOk (a := ((tiny 2 ({} : Recency)).moves twoDirty).pool.attempt
    (refusing ⟨⟨1⟩, 1⟩ [⟨⟨1⟩, 0⟩, ⟨⟨1⟩, 1⟩, ⟨⟨1⟩, 9⟩]) ⟨1⟩ .commit) (by decide +kernel) with
    ⟨cause, hfail⟩
  have hlast := Pool.eq_ok_of_isOk (a := (((tiny 2 ({} : Recency)).moves twoDirty).pool.attempt
    (refusing ⟨⟨1⟩, 1⟩ [⟨⟨1⟩, 0⟩, ⟨⟨1⟩, 1⟩, ⟨⟨1⟩, 9⟩]) ⟨1⟩ .commit).1.persist ⟨1⟩ .commit
      (refusing ⟨⟨1⟩, 1⟩ [⟨⟨1⟩, 1⟩, ⟨⟨1⟩, 9⟩, ⟨⟨1⟩, 0⟩])
      [⟨{}, [⟨⟨1⟩, 9⟩, ⟨⟨1⟩, 0⟩, ⟨⟨1⟩, 1⟩]⟩]) (by decide +kernel)
  have hperm : [⟨⟨1⟩, 0⟩, ⟨⟨1⟩, 1⟩, ⟨⟨1⟩, 9⟩].Perm
      (((tiny 2 ({} : Recency)).moves twoDirty).pool.locks.exclusivePages ⟨1⟩) := by
    decide +kernel
  have hretry := failed_ending_can_be_retried harises (by decide +kernel) (by decide +kernel) hfail
    hperm
  exact ⟨_, cause, _, hfail, by decide +kernel, by decide +kernel, hlast,
    hretry.2.2 _ _ _ (by decide +kernel) hlast⟩

end Engine

end RowStore
