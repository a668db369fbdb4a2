import RowStore.Proofs.AnyOrder
import RowStore.Proofs.Capacity
import RowStore.Proofs.Departures
import RowStore.Proofs.PartialCommit
import RowStore.Proofs.Writers

/-!
# What a Commit Does

When a commit succeeds, what it leaves of the pages of its transaction, and that it
leaves everything else alone.

A commit visits the pages that its transaction holds to write. Of these some are
resident and dirty, and they are written out. The others it passes over: a copy that is
clean has the bytes of its image, because copies and images go together, and a page
without a copy has nothing to be written. So a page that was locked and never loaded,
because its table is not known or has no such page, is in nobody's way. And the only
thing that can stop a commit is a device that refuses to write a dirty page.

## Main definitions

* `Pool.Released`: A transaction has given its locks back.
* `Pool.Committed`: What a commit leaves.

## Theorems

* `finishIn_commit_isOk_iff`: When a commit succeeds.
* `committed_finishIn`: What it leaves if it does.
* `Engine.commit_writes_its_pages`: Both, in every state that can be come to.
-/

namespace RowStore

namespace Pool

variable {ρ : Type}

/-- A transaction has no lock left, and the others have theirs. -/
structure Released (P Q : Pool ρ) (t : TxnId) : Prop where
  unlocked : Q.Unlocked t
  locks : ∀ u, u ≠ t → ∀ p, Q.locks.mode? u p = P.locks.mode? u p ∧
    (Q.locks.holdersOf p).modeOf u = (P.locks.holdersOf p).modeOf u

/-- What a commit leaves. The pages that its transaction held to write are clean, those that are
    resident with the bytes they had, and their images are what is shown of them. Copies and images
    of all other pages are as they were, as are the resident pages and the lengths of all files. The
    transaction has no lock left, and the others have theirs. -/
structure Committed (P Q : Pool ρ) (t : TxnId) : Prop extends Released P Q t where
  resident : Q.cache.resident = P.cache.resident
  copies : ∀ p page, P.locks.mode? t p = some .exclusive → P.cache.page? p = some page →
    Q.cache.page? p = some (page.mark none) ∧ Q.Has p ∧ Q.stored p = page.bytes
  images : ∀ p, P.locks.mode? t p = some .exclusive → Q.stored p = P.shown p
  others : ∀ p, P.locks.mode? t p ≠ some .exclusive →
    Q.cache.page? p = P.cache.page? p ∧ Q.stored p = P.stored p
  sizes : ∀ n, (Q.disk.image n).size = (P.disk.image n).size
  strangers : ∀ n, (∀ u f, P.tables.get? u = some f → f.file ≠ n) →
    Q.disk.image n = P.disk.image n

/-- What a flush leaves alone has its length, whether it is a table's file or not. -/
theorem Keeps.size_image {P Q : Pool ρ} (h : Keeps P Q) (n : FileNo) :
    (Q.disk.image n).size = (P.disk.image n).size := by
  by_cases hn : ∀ t f, P.tables.get? t = some f → f.file ≠ n
  · rw [h.others n hn]
  · push Not at hn
    rcases hn with ⟨t, f, hf, rfl⟩
    exact h.sizes t f hf

theorem released_releaseAll {P : Pool ρ} (hb : P.locks.Backed) (Q : Pool ρ) (t : TxnId) :
    Released P (Q.setLocks (P.locks.releaseAll t)) t where
  unlocked := unlocked_releaseAll hb Q t
  locks u hu p := by
    refine ⟨by rw [setLocks, LockTable.mode?_releaseAll, if_neg hu], ?_⟩
    rw [setLocks, hb.holdersOf_releaseAll, Holders.modeOf_release, if_neg hu]

section told

variable {P Q : Pool ρ} (hP : P.cache.Tidy) (hQ : Q.cache.Tidy)
  (hres : Q.cache.resident = P.cache.resident) {p : PageId}

include hP hQ hres

/-- A copy is told by its page, its bytes and its owner. -/
theorem page?_eq_of_shown {page : Page} (hp : P.cache.page? p = some page) :
    Q.cache.page? p = some ⟨p, Q.shown p, Q.owner? p⟩ := by
  rcases hP.resident_of_page hp with ⟨f, hr, _, _⟩
  rw [← hres] at hr
  rcases hQ.exists_page hr with ⟨page', hp', _, rfl⟩
  rw [shown_of_page hp', owner?_of_page hp']
  exact hp'

/-- So if the same pages are resident, and a page is shown alike and has the same owner, it has the
    same copy. -/
theorem page?_congr_shown (hs : Q.shown p = P.shown p) (ho : Q.owner? p = P.owner? p) :
    Q.cache.page? p = P.cache.page? p := by
  cases hp : P.cache.page? p with
  | some page => rw [page?_eq_of_shown hP hQ hres hp, hs, ho, ← page?_eq_of_shown hP hP rfl hp, hp]
  | none =>
      cases hq : Q.cache.page? p with
      | none => rfl
      | some page =>
          -- A page that is resident there is resident here.
          rw [page?_eq_of_shown hQ hP hres.symm hq] at hp
          cases hp

end told

section Coherent

variable {P : Pool ρ} (hc : P.Coherent) {order : List PageId} {t : TxnId}

include hc

omit hc in
/-- A round of flushes that succeeds has come to no dirty page that the device refuses. -/
theorem accepted_of_forEach {l : List PageId} {P Q : Pool ρ} (hc : P.Coherent)
    (h : P.forEach flush l = (Q, .ok ())) {p : PageId} (hp : p ∈ l) (ho : P.owner? p ≠ none) :
    P.faults.onWrite p = none := by
  induction l generalizing P with
  | nil => cases hp
  | cons q rest ih =>
      unfold forEach at h
      rcases flush_cases hc q with ⟨R, heq, hf, hq⟩ | ⟨fault, heq, _⟩
      · rw [heq] at h
        by_cases hpq : p = q
        · rw [hpq] at ho ⊢
          exact hq.resolve_left ho
        · -- The first visit leaves the copies of other pages as dirty as they are.
          rw [← hf.faults]
          refine ih hf.coherent h ((List.mem_cons.1 hp).resolve_left hpq) ?_
          rwa [hf.owner, if_neg (by simpa using hpq)]
      · rw [heq] at h
        cases h

/-- A commit succeeds if the device refuses none of the dirty pages that it visits. Nothing is asked
    of the other pages that it visits, not even that they are there. -/
theorem finishIn_commit_isOk_iff :
    (P.finishIn order t .commit).2.isOk = true ↔
      ∀ p ∈ order, P.owner? p ≠ none → P.faults.onWrite p = none := by
  rcases P.finishIn_eq order t .commit with ⟨Q, hround, heq⟩ | ⟨Q, cause, _, heq⟩
  · rw [heq]
    exact ⟨fun _ p hp ho => accepted_of_forEach hc hround hp ho, fun _ => rfl⟩
  · rw [heq]
    -- A commit that fails has stopped at such a page.
    rcases finishIn_commit_error hc heq with ⟨done, q, rest, rfl, _, _, hown, hfault⟩
    refine ⟨fun h => ?_, fun h => absurd (h q ?_ hown) hfault⟩
    · cases h
    · exact List.mem_append_right _ List.mem_cons_self

/-- What a commit leaves that succeeds. -/
theorem committed_finishIn (hb : P.locks.Backed)
    (horder : ∀ p, p ∈ order ↔ P.locks.mode? t p = some .exclusive) {R : Pool ρ}
    (hok : P.finishIn order t .commit = (R, .ok ())) : Committed P R t := by
  have hres := (residents_finishIn hc.tidy order t .commit).2
  rw [hok] at hres
  rcases finishIn_commit hc order t with ⟨Q, visited, hf, _, ⟨heq, rfl⟩ | ⟨e, heq⟩⟩
  · cases heq.symm.trans hok
    refine ⟨released_releaseAll hb Q t, hres, fun p page hx hp => ?_, fun p hx => ?_,
      fun p hx => ?_, hf.size_image, hf.others⟩
    · have hmem := (horder p).2 hx
      rcases hc.mirrors hp with ⟨rfl, hm⟩
      refine ⟨?_, hf.has hm.here, ?_⟩
      · refine (page?_eq_of_shown hc.tidy hf.coherent.tidy hres hp).trans ?_
        rw [hf.shown, hf.owner, if_pos hmem, shown_of_page hp]
        rfl
      · refine (hf.stored page.id).trans ?_
        rw [if_pos hmem, shown_of_page hp]
    · exact (hf.stored p).trans (if_pos ((horder p).2 hx))
    · have hnot : p ∉ visited := fun hm => hx ((horder p).1 hm)
      exact ⟨page?_congr_shown hc.tidy hf.coherent.tidy hres (congrFun hf.shown p)
        ((hf.owner p).trans (if_neg hnot)), (hf.stored p).trans (if_neg hnot)⟩
  · cases heq.symm.trans hok

end Coherent

end Pool

namespace Engine

variable {ρ : Type} [EvictionOrder ρ]

/-- Whatever has happened, as long as tables are not replaced and files are changed only through the
    pool: a commit succeeds unless the device refuses a dirty page that its transaction holds to
    write, so pages that are held and were never loaded are not in its way. If it succeeds, in
    whichever order it visits its pages, it has written out the copies of all pages that the
    transaction held to write, and has changed nothing else. -/
theorem commit_writes_its_pages {E : Engine ρ} (h : E.Arises Placed) {t : TxnId}
    {order : List PageId} (horder : order.Perm (E.pool.locks.exclusivePages t)) :
    ((E.pool.finishIn order t .commit).2.isOk = true ↔
      ∀ p, E.pool.locks.mode? t p = some .exclusive → E.pool.owner? p ≠ none →
        E.pool.faults.onWrite p = none) ∧
    ∀ Q, E.pool.finishIn order t .commit = (Q, .ok ()) → Pool.Committed E.pool Q t := by
  have hc := (h.sited fun _ _ => id).coherent
  have hmem : ∀ p, p ∈ order ↔ E.pool.locks.mode? t p = some .exclusive :=
    fun p => horder.mem_iff.trans (LockTable.mem_exclusivePages _ _ _)
  refine ⟨(Pool.finishIn_commit_isOk_iff hc).trans ?_, fun Q hok => ?_⟩
  · exact forall_congr' fun p => by rw [hmem]
  · exact Pool.committed_finishIn hc h.guarded.toBacked hmem hok

/-- A transaction holds four pages to write: one that it has changed, one that it has not, one that
    its table does not have, and one of a table that is not known. Another transaction has changed a
    page of another table. -/
def severalHeld : List (Move Recency) :=
  [.register ⟨⟨2⟩, ⟨1⟩, "other.tbl", Layout.tiny⟩, .event (.act (.grow ⟨2⟩)),
    .event (.submit ⟨1⟩ (.fetch ⟨⟨1⟩, 0⟩ .readWrite true)), .event (.step ⟨0⟩),
    .event (.act (.write ⟨0⟩ (.fill 5))),
    .event (.submit ⟨1⟩ (.fetch ⟨⟨1⟩, 1⟩ .readWrite false)), .event (.step ⟨1⟩),
    .event (.submit ⟨1⟩ (.fetch ⟨⟨1⟩, 9⟩ .readWrite false)), .event (.step ⟨2⟩),
    .event (.submit ⟨1⟩ (.fetch ⟨⟨3⟩, 0⟩ .readWrite false)), .event (.step ⟨3⟩),
    .event (.submit ⟨2⟩ (.fetch ⟨⟨2⟩, 0⟩ .readWrite true)), .event (.step ⟨4⟩),
    .event (.act (.write ⟨1⟩ (.fill 7)))]

/-- The commit succeeds and writes the page that the transaction has changed, and the page of the
    other transaction stays dirty. -/
theorem commit_writes_its_pages_severalHeld :
    ∃ Q, ((tiny 3 ({} : Recency)).moves severalHeld).pool.finishIn
        [⟨⟨3⟩, 0⟩, ⟨⟨1⟩, 1⟩, ⟨⟨1⟩, 0⟩, ⟨⟨1⟩, 9⟩] ⟨1⟩ .commit = (Q, .ok ()) ∧
      Q.cache.page? ⟨⟨1⟩, 0⟩ = some ⟨⟨⟨1⟩, 0⟩, #[5, 5], none⟩ ∧ Q.stored ⟨⟨1⟩, 0⟩ = #[5, 5] ∧
      Q.owner? ⟨⟨2⟩, 0⟩ = some ⟨2⟩ ∧
      Pool.Committed ((tiny 3 ({} : Recency)).moves severalHeld).pool Q ⟨1⟩ := by
  have harises : ((tiny 3 ({} : Recency)).moves severalHeld).Arises Placed :=
    (Arises.fresh (fresh_tiny 3 ({} : Recency))).moves (by decide +kernel)
  have hperm : [⟨⟨3⟩, 0⟩, ⟨⟨1⟩, 1⟩, ⟨⟨1⟩, 0⟩, ⟨⟨1⟩, 9⟩].Perm
      (((tiny 3 ({} : Recency)).moves severalHeld).pool.locks.exclusivePages ⟨1⟩) := by
    decide +kernel
  have hcommit := commit_writes_its_pages harises hperm
  have hok := Pool.eq_ok_of_isOk (hcommit.1.2 fun _ _ _ => rfl)
  exact ⟨_, hok, by decide +kernel, by decide +kernel, by decide +kernel, hcommit.2 _ hok⟩

end Engine

end RowStore
