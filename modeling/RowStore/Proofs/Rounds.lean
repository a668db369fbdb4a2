import RowStore.Proofs.File.PageWrites
import RowStore.Proofs.Visits

/-!
# Rounds in Any Order

When it does not matter in which order a round visits its pages, nor whether it has
visited some of them before.

Three things are asked of a visit. It has to come out alike on pools that cannot be told
apart. Visits of two pages have to come out alike whichever is made first. And a page
that was visited can be visited again, and that does nothing. Then rounds over lists
with the same pages succeed or fail together, and a round that begins where another one
has stopped ends where a round from the start would have ended.

A round that fails need not stop in the same place if its order is another one. So
nothing is said here of what such rounds leave.

## Main definitions

* `Pool.Matches`: Two pools that cannot be told apart.
* `Pool.Concur`: Two outcomes that are both failures, or both successes that match.
* `Pool.Orderless`: What is asked of a visit.

## Theorems

* `Orderless.concur_congr`: Rounds from pools that match come out alike.
* `Orderless.concur_perm`: So do rounds over lists with the same pages.
* `Orderless.concur_resume`: So does a round that begins where another one has stopped.
-/

namespace RowStore

namespace Pool

variable {ρ : Type}

/-- Two pools that cannot be told apart: the same copies are in the same frames, files have the same
    lengths and bytes, and all else is the same. -/
structure Matches (P Q : Pool ρ) : Prop where
  apart : ∃ frames disk, Q = { P with cache := { P.cache with frames }, disk }
  frames : ∀ f, Q.cache.frame? f = P.cache.frame? f
  disk : P.disk.Same Q.disk

theorem Matches.refl (P : Pool ρ) : P.Matches P :=
  ⟨⟨P.cache.frames, P.disk, rfl⟩, fun _ => rfl, .refl _⟩

theorem Matches.symm {P Q : Pool ρ} (h : P.Matches Q) : Q.Matches P := by
  refine ⟨?_, fun f => (h.frames f).symm, h.disk.symm⟩
  rcases h.apart with ⟨frames, disk, rfl⟩
  exact ⟨P.cache.frames, P.disk, rfl⟩

theorem Matches.trans {P Q R : Pool ρ} (h : P.Matches Q) (h' : Q.Matches R) : P.Matches R := by
  refine ⟨?_, fun f => (h'.frames f).trans (h.frames f), h.disk.trans h'.disk⟩
  rcases h.apart with ⟨_, _, rfl⟩
  rcases h'.apart with ⟨frames, disk, rfl⟩
  exact ⟨frames, disk, rfl⟩

section Matches

variable {P Q : Pool ρ} (h : P.Matches Q)

include h

theorem Matches.tables : Q.tables = P.tables := by
  rcases h.apart with ⟨_, _, rfl⟩
  rfl

theorem Matches.faults : Q.faults = P.faults := by
  rcases h.apart with ⟨_, _, rfl⟩
  rfl

theorem Matches.locks : Q.locks = P.locks := by
  rcases h.apart with ⟨_, _, rfl⟩
  rfl

theorem Matches.resident : Q.cache.resident = P.cache.resident := by
  rcases h.apart with ⟨_, _, rfl⟩
  rfl

theorem Matches.page? (p : PageId) : Q.cache.page? p = P.cache.page? p := by
  have hf : Q.cache.frame? = P.cache.frame? := funext h.frames
  unfold Cache.page?
  rw [h.resident, hf]

theorem Matches.tidy (ht : P.cache.Tidy) : Q.cache.Tidy := by
  have hnext : Q.cache.nextFrame = P.cache.nextFrame ∧ Q.cache.handles = P.cache.handles := by
    rcases h.apart with ⟨_, _, rfl⟩
    exact ⟨rfl, rfl⟩
  refine ⟨fun p f hp => ?_, fun n hd hn => ?_, fun f page hf => ?_⟩
  · rw [h.frames]
    exact ht.framed p f (h.resident ▸ hp)
  · rw [h.frames]
    exact ht.handled n hd (hnext.2 ▸ hn)
  · rw [hnext.1]
    exact ht.numbered f page (h.frames f ▸ hf)

/-- The locks and the device may become other ones. -/
theorem Matches.setLocks (locks : LockTable) : (P.setLocks locks).Matches (Q.setLocks locks) := by
  refine ⟨?_, h.frames, h.disk⟩
  rcases h.apart with ⟨frames, disk, rfl⟩
  exact ⟨frames, disk, rfl⟩

end Matches

theorem eq_ok_of_isOk {a : Pool ρ × Except StoreError Unit} (h : a.2.isOk = true) :
    a = (a.1, .ok ()) :=
  Prod.ext rfl (ok_of_isOk h)

theorem eq_error_of_isOk {a : Pool ρ × Except StoreError Unit} (h : a.2.isOk = false) :
    ∃ cause, a = (a.1, .error cause) := by
  rcases a with ⟨P, cause | u⟩
  · exact ⟨cause, rfl⟩
  · cases h

/-- Two outcomes are both failures, or both are successes and the pools match. -/
structure Concur (a b : Pool ρ × Except StoreError Unit) : Prop where
  isOk : b.2.isOk = a.2.isOk
  pools : a.2.isOk = true → a.1.Matches b.1

theorem Concur.refl (a : Pool ρ × Except StoreError Unit) : Concur a a := ⟨rfl, fun _ => .refl _⟩

theorem Concur.symm {a b : Pool ρ × Except StoreError Unit} (h : Concur a b) : Concur b a :=
  ⟨h.isOk.symm, fun hb => (h.pools (h.isOk ▸ hb)).symm⟩

theorem Concur.trans {a b c : Pool ρ × Except StoreError Unit} (h : Concur a b)
    (h' : Concur b c) : Concur a c :=
  ⟨h'.isOk.trans h.isOk, fun ha => (h.pools ha).trans (h'.pools (h.isOk.trans ha))⟩

/-- Rounds succeed together if either's success is matched by the other. -/
theorem Concur.of_ok {a b : Pool ρ × Except StoreError Unit}
    (hab : ∀ P, a = (P, .ok ()) → ∃ Q, b = (Q, .ok ()) ∧ P.Matches Q)
    (hba : ∀ Q, b = (Q, .ok ()) → ∃ P, a = (P, .ok ())) : Concur a b := by
  rcases a with ⟨P, e | u⟩
  · rcases b with ⟨Q, e' | u'⟩
    · exact ⟨rfl, Bool.noConfusion⟩
    · rcases hba Q rfl with ⟨R, heq⟩
      cases heq
  · rcases hab P rfl with ⟨Q, rfl, hm⟩
    exact ⟨rfl, fun _ => hm⟩

theorem Concur.of_eq_ok {a b : Pool ρ × Except StoreError Unit} (h : Concur a b) {P : Pool ρ}
    (ha : a = (P, .ok ())) : ∃ Q, b = (Q, .ok ()) ∧ P.Matches Q := by
  subst ha
  rcases b with ⟨Q, e | u⟩
  · cases h.isOk
  · exact ⟨Q, rfl, h.pools rfl⟩

/-- What is asked of a visit, if it is made on pools that are good. -/
structure Orderless (act : Pool ρ → PageId → Except StoreError (Pool ρ)) (G : Pool ρ → Prop) :
    Prop where
  good : ∀ {P Q : Pool ρ} {p : PageId}, G P → act P p = .ok Q → G Q
  alike : ∀ {P Q : Pool ρ}, G P → P.Matches Q → G Q
  congr : ∀ {P P' Q : Pool ρ} {p : PageId}, G P → P.Matches P' → act P p = .ok Q →
    ∃ Q', act P' p = .ok Q' ∧ Q.Matches Q'
  swap : ∀ {P Q R : Pool ρ} {p q : PageId}, G P → p ≠ q → act P p = .ok Q → act Q q = .ok R →
    ∃ Q' R', act P q = .ok Q' ∧ act Q' p = .ok R' ∧ R.Matches R'
  again : ∀ {P Q : Pool ρ} {p : PageId}, G P → act P p = .ok Q → ∃ R, act Q p = .ok R ∧ Q.Matches R

theorem forEach_cons_ok {act : Pool ρ → PageId → Except StoreError (Pool ρ)} {P Q : Pool ρ}
    {p : PageId} (h : act P p = .ok Q) (l : List PageId) :
    P.forEach act (p :: l) = Q.forEach act l := by
  conv => lhs; unfold forEach
  rw [h]

theorem forEach_cons_error {act : Pool ρ → PageId → Except StoreError (Pool ρ)} {P : Pool ρ}
    {p : PageId} {e : StoreError} (h : act P p = .error e) (l : List PageId) :
    P.forEach act (p :: l) = (P, .error e) := by
  unfold forEach
  rw [h]

section Orderless

variable {act : Pool ρ → PageId → Except StoreError (Pool ρ)} {G : Pool ρ → Prop}
  (h : Orderless act G)

include h

/-- Rounds from pools that match come out alike. -/
theorem Orderless.concur_congr (l : List PageId) {P P' : Pool ρ} (hg : G P) (hm : P.Matches P') :
    Concur (P.forEach act l) (P'.forEach act l) := by
  induction l generalizing P P' with
  | nil => exact ⟨rfl, fun _ => hm⟩
  | cons p rest ih =>
      cases hp : act P p with
      | ok Q =>
          rcases h.congr hg hm hp with ⟨Q', hp', hm'⟩
          rw [forEach_cons_ok hp, forEach_cons_ok hp']
          exact ih (h.good hg hp) hm'
      | error e =>
          cases hp' : act P' p with
          | ok Q' =>
              rcases h.congr (h.alike hg hm) hm.symm hp' with ⟨Q, hok, _⟩
              cases hp.symm.trans hok
          | error e' =>
              rw [forEach_cons_error hp, forEach_cons_error hp']
              exact ⟨rfl, Bool.noConfusion⟩

/-- Two pages next to each other can change places. -/
theorem Orderless.concur_swap (l : List PageId) {P : Pool ρ} (hg : G P) (p q : PageId) :
    Concur (P.forEach act (p :: q :: l)) (P.forEach act (q :: p :: l)) := by
  by_cases hne : p = q
  · rw [hne]
    exact .refl _
  -- If either order gets past the two, so does the other.
  have hpast : ∀ {p q : PageId}, p ≠ q → ∀ S, P.forEach act (p :: q :: l) = (S, .ok ()) →
      ∃ S', P.forEach act (q :: p :: l) = (S', .ok ()) ∧ S.Matches S' := by
    intro p q hne S hS
    cases hp : act P p with
    | error e =>
        rw [forEach_cons_error hp] at hS
        cases hS
    | ok Q =>
        rw [forEach_cons_ok hp] at hS
        cases hq : act Q q with
        | error e =>
            rw [forEach_cons_error hq] at hS
            cases hS
        | ok R =>
            rw [forEach_cons_ok hq] at hS
            rcases h.swap hg hne hp hq with ⟨Q', R', hq', hp', hm⟩
            rw [forEach_cons_ok hq', forEach_cons_ok hp']
            exact (h.concur_congr l (h.good (h.good hg hp) hq) hm).of_eq_ok hS
  refine .of_ok (hpast hne) fun S hS => ?_
  rcases hpast (Ne.symm hne) S hS with ⟨S', hS', _⟩
  exact ⟨S', hS'⟩

/-- Rounds over lists with the same pages come out alike. -/
theorem Orderless.concur_perm {l l' : List PageId} (hl : l.Perm l') {P : Pool ρ} (hg : G P) :
    Concur (P.forEach act l) (P.forEach act l') := by
  -- On how the one list is made from the other by changing places.
  induction hl generalizing P with
  | nil => exact .refl _
  | cons p hl ih =>
      cases hp : act P p with
      | ok Q =>
          rw [forEach_cons_ok hp, forEach_cons_ok hp]
          exact ih (h.good hg hp)
      | error e =>
          rw [forEach_cons_error hp, forEach_cons_error hp]
          exact .refl _
  | swap p q l => exact h.concur_swap l hg q p
  | trans hl hl' ih ih' => exact (ih hg).trans (ih' hg)

/-- A round that visits a page comes out as it would have if the page had not been visited
    before. -/
theorem Orderless.concur_visited {l : List PageId} {p : PageId} (hmem : p ∈ l) {P Q : Pool ρ}
    (hg : G P) (hp : act P p = .ok Q) : Concur (P.forEach act l) (Q.forEach act l) := by
  have hq := h.good hg hp
  rcases h.again hg hp with ⟨R, hagain, hm⟩
  -- Both rounds may as well begin with the page.
  have hperm := List.perm_cons_erase hmem
  refine (h.concur_perm hperm hg).trans (.trans ?_ (h.concur_perm hperm hq).symm)
  rw [forEach_cons_ok hp, forEach_cons_ok hagain]
  exact h.concur_congr _ hq hm

/-- A round that begins where another one has stopped comes out as it would have from the start, if
    it visits all the pages that the other one has visited. -/
theorem Orderless.concur_resume {done l : List PageId} (hsub : ∀ p ∈ done, p ∈ l) {P Q : Pool ρ}
    (hg : G P) (hdone : P.forEach act done = (Q, .ok ())) :
    Concur (P.forEach act l) (Q.forEach act l) := by
  induction done generalizing P with
  | nil =>
      cases hdone
      exact .refl _
  | cons p rest ih =>
      cases hp : act P p with
      | error e =>
          rw [forEach_cons_error hp] at hdone
          cases hdone
      | ok R =>
          rw [forEach_cons_ok hp] at hdone
          exact (h.concur_visited (hsub p List.mem_cons_self) hg hp).trans
            (ih (fun q hq => hsub q (List.mem_cons_of_mem p hq)) (h.good hg hp) hdone)

end Orderless

end Pool

end RowStore
