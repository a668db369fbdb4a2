import RowStore.Proofs.Commits
import RowStore.Proofs.Lasting
import RowStore.Proofs.RowMap

/-!
# What a Rollback Leaves

When a transaction was rolled back, nothing of it is left but pages of zeros.

A rollback brings pages back to their images. It does not know what the transaction has
found on them, so three things have to be so. The images must still be what was found,
although others have gone on committing. The pages that the transaction holds to write
must be all that it has written, which they are not if an overtaken call is resumed. And
what others have written must not be lost.

What was found is what the others have left. So the others' changes are followed along
the run: `Engine.without` takes what was shown at the beginning and puts in what moves
of others show. As long as the transaction is under way, what the others have left is on
disk of the pages that it holds to write, and shown of all other pages. When the
transaction comes to hold a page, the page is clean, since who owns a dirty copy holds
the page. While it holds the page, nobody else shows there, and nobody writes the image.
Then a rollback has everything shown as the others have left it.

Nothing is asked of pages that are discarded in the meantime. A page that is discarded is
shown as its image, and this is what a rollback would bring back.

## Main definitions

* `Engine.Undoable`: What is asked of moves: the transaction neither leaves nor is forced out.
* `Engine.without`: What the others have left.
* `Engine.original?`: What a transaction found on a page that it wrote.
* `Engine.Revocable`: What the others have left is on disk or shown.
* `Pool.RolledBack`: What a rollback leaves.
* `Engine.Undone`: What is left of a transaction that was rolled back.

## Theorems

* `Engine.revocable_move`, `Engine.revocable_run`: What the others have left can be brought back.
* `Engine.without_original`: They have left what a transaction found before it wrote.
* `Pool.rolledBack_finishIn`: What a rollback leaves if it succeeds.
* `Engine.rollback_leaves_no_trace`: All of it, for every run without overtaken calls resumed.
* `Engine.overtaken_write_stays`: If one is resumed, a page may be left as it was written.
-/

namespace RowStore

namespace Pool

variable {ρ : Type}

instance (P : Pool ρ) (p : PageId) : Decidable (P.Has p) :=
  inferInstanceAs (Decidable (∃ f ∈ P.tables.get? p.table, p.number < f.pagesOn P.disk))

/-- What a rollback leaves. The pages that its transaction held to write are clean and shown as
    their images. Copies of all other pages are as they were, as are the resident pages and the
    disk. The transaction has no lock left, and the others have theirs. -/
structure RolledBack (P Q : Pool ρ) (t : TxnId) : Prop extends Released P Q t where
  resident : Q.cache.resident = P.cache.resident
  disk : Q.disk = P.disk
  stored : Q.stored = P.stored
  held : ∀ p, P.locks.mode? t p = some .exclusive → Q.shown p = P.stored p ∧ Q.owner? p = none
  others : ∀ p, P.locks.mode? t p ≠ some .exclusive → Q.cache.page? p = P.cache.page? p

theorem disk_finishIn_rollback (P : Pool ρ) (order : List PageId) (t : TxnId) :
    (P.finishIn order t .rollback).1.disk = P.disk :=
  finishIn_const Pool.disk (fun h => by cases h <;> rfl) (fun _ _ => rfl) P order t

section Coherent

variable {P : Pool ρ} (hc : P.Coherent)

include hc

/-- What a rollback leaves that succeeds. -/
theorem rolledBack_finishIn (hb : P.locks.Backed) {order : List PageId} {t : TxnId}
    (horder : ∀ p, p ∈ order ↔ P.locks.mode? t p = some .exclusive) {R : Pool ρ}
    (hok : P.finishIn order t .rollback = (R, .ok ())) : RolledBack P R t := by
  have hres := (residents_finishIn hc.tidy order t .rollback).2
  have hdisk := P.disk_finishIn_rollback order t
  rw [hok] at hres hdisk
  rcases finishIn_rollback hc order t with ⟨Q, visited, ⟨hr, _⟩, _, ⟨heq, rfl⟩ | ⟨e, heq⟩⟩
  · cases heq.symm.trans hok
    refine ⟨released_releaseAll hb Q t, hres, hdisk, hr.stored, fun p hx => ?_, fun p hx => ?_⟩
    · have hmem := (horder p).2 hx
      exact ⟨(hr.shown p).trans (if_pos hmem), (hr.owner p).trans (if_pos hmem)⟩
    · have hnot : p ∉ visited := fun hm => hx ((horder p).1 hm)
      exact page?_congr_shown hc.tidy hr.coherent.tidy hres ((hr.shown p).trans (if_neg hnot))
        ((hr.owner p).trans (if_neg hnot))
  · cases heq.symm.trans hok

/-- Of a page of an unknown table nothing is shown, and there is nothing on disk. -/
theorem shown_unknown {p : PageId} (hp : P.tables.get? p.table = none) :
    P.shown p = #[] ∧ P.stored p = #[] := by
  have hst : P.stored p = #[] := by
    unfold stored
    rw [hp]
  refine ⟨?_, hst⟩
  cases hr : P.cache.resident.get? p with
  | none => exact (shown_of_absent (Cache.page?_of_absent hr)).trans hst
  | some f =>
      rcases hc.known_of_resident hr with ⟨g, hg⟩
      cases hp.symm.trans hg

end Coherent

end Pool

namespace Engine

variable {ρ : Type}

/-- What is asked of moves while a transaction is under way that is to be rolled back: files are
    changed only through the pool, no lock is given back early and no overtaken call is resumed, and
    the transaction neither leaves nor has its changes forced out. -/
structure Undoable (t : TxnId) (E : Engine ρ) (m : Move ρ) : Prop where
  steady : E.Steady m
  stays : m.leaver? ≠ some t
  unforced : m.forces t = false

instance (t : TxnId) (E : Engine ρ) (m : Move ρ) : Decidable (E.Undoable t m) :=
  decidable_of_iff (E.Steady m ∧ m.leaver? ≠ some t ∧ m.forces t = false)
    ⟨fun h => ⟨h.1, h.2.1, h.2.2⟩, fun h => ⟨h.1, h.2, h.3⟩⟩

variable [EvictionOrder ρ]

/-- A move is made on behalf of the transaction, or does not show on the page. -/
def LeftAlone (t : TxnId) (p : PageId) (E : Engine ρ) (m : Move ρ) : Prop :=
  E.performer m = some t ∨ (E.move m).pool.shown p = E.pool.shown p

instance (t : TxnId) (p : PageId) (E : Engine ρ) (m : Move ρ) : Decidable (E.LeftAlone t p m) :=
  inferInstanceAs (Decidable (_ ∨ _))

/-- What the others have left after a move, if this is what they had left before: a move that is not
    made on behalf of the transaction counts where it shows. -/
def besides (E : Engine ρ) (t : TxnId) (m : Move ρ) (F : PageId → Bytes) : PageId → Bytes :=
  fun p => if E.LeftAlone t p m then F p else (E.move m).pool.shown p

/-- What the others have left after some moves. -/
def without (E : Engine ρ) (t : TxnId) (F : PageId → Bytes) : List (Move ρ) → PageId → Bytes
  | [] => F
  | m :: rest => (E.move m).without t (E.besides t m F) rest

/-- What was shown of a page just before a transaction first wrote it, if it did. -/
def original? (E : Engine ρ) (t : TxnId) (p : PageId) : List (Move ρ) → Option Bytes
  | [] => none
  | m :: rest =>
    if E.lastWrite? t p m = none then (E.move m).original? t p rest else some (E.pool.shown p)

/-- By a move on behalf of the transaction a page is there that was not there before. -/
def Appends (t : TxnId) (p : PageId) (E : Engine ρ) (m : Move ρ) : Prop :=
  E.performer m = some t ∧ ¬ E.pool.Has p ∧ (E.move m).pool.Has p

instance (t : TxnId) (p : PageId) (E : Engine ρ) (m : Move ρ) : Decidable (E.Appends t p m) :=
  inferInstanceAs (Decidable (_ ∧ _ ∧ _))

/-- What the others have left is on disk of the pages that a transaction holds to write, and it is
    shown of all other pages. -/
structure Revocable (t : TxnId) (F : PageId → Bytes) (E : Engine ρ) : Prop where
  stored : ∀ p, E.pool.locks.mode? t p = some .exclusive → E.pool.stored p = F p
  shown : ∀ p, E.pool.locks.mode? t p ≠ some .exclusive → E.pool.shown p = F p

theorem without_append (E : Engine ρ) (t : TxnId) (F : PageId → Bytes) (l l' : List (Move ρ)) :
    E.without t F (l ++ l') = (E.moves l).without t (E.without t F l) l' := by
  induction l generalizing E F with
  | nil => rfl
  | cons m rest ih => exact ih (E.move m) (E.besides t m F)

/-- Where a move does not show, the others have left what they had left. -/
theorem besides_same {E : Engine ρ} {t : TxnId} {m : Move ρ} {p : PageId}
    (h : E.LeftAlone t p m) (F : PageId → Bytes) : E.besides t m F p = F p := if_pos h

theorem without_same {E : Engine ρ} {t : TxnId} {ms : List (Move ρ)} {p : PageId}
    (h : E.Admits (LeftAlone t p) ms) (F : PageId → Bytes) : E.without t F ms p = F p := by
  induction ms generalizing E F with
  | nil => rfl
  | cons m rest ih => exact (ih h.2 (E.besides t m F)).trans (besides_same h.1 F)

/-- Where what the others have left was shown, it is shown after a move that does not show there or
    that is not made on behalf of the transaction. -/
theorem shown_besides {E : Engine ρ} {t : TxnId} {m : Move ρ} {p : PageId} {F : PageId → Bytes}
    (hF : E.pool.shown p = F p)
    (h : E.performer m = some t → (E.move m).pool.shown p = E.pool.shown p) :
    (E.move m).pool.shown p = E.besides t m F p := by
  unfold besides
  split
  · rename_i hsame
    exact (hsame.elim h id).trans hF
  · rfl

omit [EvictionOrder ρ] in
/-- A move that is made on behalf of a transaction discards nothing. -/
theorem discards_of_performer {E : Engine ρ} {m : Move ρ} {t : TxnId}
    (h : E.performer m = some t) : m.isDiscard = false ∧ ∀ p, m.discards p = false := by
  cases m with
  | event ev =>
      cases ev with
      | act a =>
          cases a with
          | discard q => cases h
          | _ => exact ⟨rfl, fun _ => rfl⟩
      | _ => exact ⟨rfl, fun _ => rfl⟩
  | _ => exact ⟨rfl, fun _ => rfl⟩

/-! ## One move -/

section step

variable {E : Engine ρ} (h : E.Arises Steady) {t : TxnId} {m : Move ρ} (hm : E.Undoable t m)
  {F : PageId → Bytes} {p : PageId}

include h hm

/-- Of a page of an unknown table nothing was left by anyone. If its table becomes known, the page
    is shown as it is on disk. -/
theorem besides_unknown (hF : F p = #[]) (hp : E.pool.tables.get? p.table = none) :
    (E.move m).pool.stored p = E.besides t m F p ∧
      (E.move m).pool.shown p = E.besides t m F p := by
  have hs := h.sited fun _ _ => And.left
  have hs' := sited_move hs hm.steady.1
  rcases Pool.shown_unknown hs.coherent hp with ⟨hshown, _⟩
  rcases E.tables_move m with ht | ⟨f, rfl⟩
  · rcases Pool.shown_unknown hs'.coherent (p := p) (by rw [ht, hp]) with ⟨hshown', hstored'⟩
    rw [besides_same (Or.inr (hshown'.trans hshown.symm)), hstored', hshown', hF]
    exact ⟨rfl, rfl⟩
  · have hsame : (E.move (.register f)).pool.shown p = (E.move (.register f)).pool.stored p := by
      refine Pool.shown_of_absent ?_
      cases hr : E.pool.cache.resident.get? p with
      | none => exact Cache.page?_of_absent hr
      | some g =>
          rcases hs.coherent.known_of_resident hr with ⟨k, hk⟩
          cases hp.symm.trans hk
    have hb : (E.move (.register f)).pool.shown p = E.besides t (.register f) F p := by
      refine shown_besides (hshown.trans hF.symm) fun hperf => ?_
      cases hperf
    exact ⟨hsame.symm.trans hb, hb⟩

variable {g : TableFile} (hg : E.pool.tables.get? p.table = some g)

include hg

/-- Of a page that the transaction holds to write, the others have left what they had left, and this
    is on disk. If the page is made to leave, it is shown. -/
theorem besides_held (hx : (E.locksDuring m).mode? t p = some .exclusive)
    (hF : E.pool.stored p = F p) :
    E.besides t m F p = F p ∧ (E.move m).pool.stored p = F p := by
  have hs := h.sited fun _ _ => And.left
  have ho := (h.kept fun _ _ => And.right).owned
  have hst := (stored_held hs ho h.guarded.toBacked hm.steady.1 hx hm.stays hm.unforced hg).trans hF
  refine ⟨?_, hst⟩
  by_cases hperf : E.performer m = some t
  · exact besides_same (Or.inl hperf) F
  · cases hd : m.isDiscard with
    | false =>
        -- Nobody else holds the page to write.
        refine besides_same (Or.inr (shown_move hs hm.steady.1 hd hg fun u hu hxu => hperf ?_)) F
        rw [performer_of_changer hu, (guarded_during h.guarded m).toBacked.eq_of_exclusive hx hxu]
    | true =>
        rcases Move.eq_discard hd with ⟨q, rfl⟩
        unfold besides
        split
        · rfl
        · rename_i hshows
          have hshown := shown_discard hs q p
          split at hshown
          · exact hshown.trans hF
          · exact absurd (Or.inr hshown) hshows

/-- Of a page that the transaction does not hold to write, what the others have left is shown. -/
theorem shown_besides_unheld (hx : (E.locksDuring m).mode? t p ≠ some .exclusive)
    (hF : E.pool.shown p = F p) : (E.move m).pool.shown p = E.besides t m F p := by
  refine shown_besides hF fun hperf => ?_
  refine shown_move (h.sited fun _ _ => And.left) hm.steady.1 (discards_of_performer hperf).1 hg
    fun u hu hxu => hx ?_
  cases hperf.symm.trans (performer_of_changer hu)
  exact hxu

omit hg in
/-- Of a page that the transaction has not written, what the others have left goes on being shown if
    it does not write the page. -/
theorem shown_besides_unwritten (hw : E.lastWrite? t p m = none) (hF : E.pool.shown p = F p) :
    (E.move m).pool.shown p = E.besides t m F p := by
  have hs := h.sited fun _ _ => And.left
  cases hg : E.pool.tables.get? p.table with
  | none =>
      have hnone := (Pool.shown_unknown hs.coherent hg).1
      exact (besides_unknown h hm (hF.symm.trans hnone) hg).2
  | some g =>
      by_cases hx : (E.locksDuring m).mode? t p = some .exclusive
      · refine shown_besides hF fun hperf => ?_
        have hshown := shown_lastWrite hs h.guarded hm.steady.1 hx (fun hne => absurd hw hne)
          hm.stays ((discards_of_performer hperf).2 p) hg
        rwa [hw, Option.getD_none] at hshown
      · exact shown_besides_unheld h hm hg hx hF

omit hg in
/-- A page that the transaction comes to hold to write is clean, so what the others have left is on
    disk as it is shown. -/
theorem Revocable.stored_during (hr : E.Revocable t F)
    (hx : (E.locksDuring m).mode? t p = some .exclusive) : E.pool.stored p = F p := by
  have hk := h.kept fun _ _ => And.right
  by_cases hold : E.pool.locks.mode? t p = some .exclusive
  · exact hr.stored p hold
  · have hclean : E.pool.owner? p = none := by
      by_contra hown
      rcases Option.ne_none_iff_exists'.1 hown with ⟨u, hu⟩
      -- Who owned a dirty copy would still hold the page.
      have hxu := exclusive_during h.listed h.guarded.toBacked (m := m)
        (hm.steady.2.not_relaxes u p) (hk.owned.held p u hu)
      cases (guarded_during h.guarded m).toBacked.eq_of_exclusive hx hxu
      exact hold (hk.owned.held p t hu)
    have hcoh := (h.sited fun _ _ => And.left).coherent
    exact (hcoh.shown_clean hclean).symm.trans (hr.shown p hold)

omit hg in
/-- What the others have left can be brought back after every move. -/
theorem revocable_move (hr : E.Revocable t F) : (E.move m).Revocable t (E.besides t m F) := by
  have hk := h.kept fun _ _ => And.right
  have hunknown : ∀ p, E.pool.tables.get? p.table = none → F p = #[] := by
    intro p hp
    rcases Pool.shown_unknown (h.sited fun _ _ => And.left).coherent hp with ⟨hshown, hstored⟩
    by_cases hold : E.pool.locks.mode? t p = some .exclusive
    · exact (hr.stored p hold).symm.trans hstored
    · exact (hr.shown p hold).symm.trans hshown
  refine ⟨fun p hx' => ?_, fun p hx' => ?_⟩
  · cases hg : E.pool.tables.get? p.table with
    | none => exact (besides_unknown h hm (hunknown p hg) hg).1
    | some g =>
        have hx := during_of_exclusive h.tidy hx'
        rcases besides_held h hm hg hx (hr.stored_during h hm hx) with ⟨hb, hst⟩
        exact hst.trans hb.symm
  · cases hg : E.pool.tables.get? p.table with
    | none => exact (besides_unknown h hm (hunknown p hg) hg).2
    | some g =>
        refine shown_besides_unheld h hm hg (fun hx => hx' ?_) (hr.shown p fun hold => hx' ?_)
        · exact exclusive_move h.tidy hm.steady.strict.2 hm.stays hx
        · exact exclusive_move h.tidy hm.steady.strict.2 hm.stays
            (exclusive_during h.listed h.guarded.toBacked (hm.steady.2.not_relaxes t p) hold)

end step

/-! ## Runs -/

section run

variable {E : Engine ρ} (h : E.Arises Steady) {t : TxnId} {ms : List (Move ρ)}
  (hms : E.Admits (Undoable t) ms) {F : PageId → Bytes} {p : PageId}

include h hms

theorem revocable_run (hr : E.Revocable t F) : (E.moves ms).Revocable t (E.without t F ms) := by
  induction ms generalizing E F with
  | nil => exact hr
  | cons m rest ih => exact ih (.move h hms.1.steady) hms.2 (revocable_move h hms.1 hr)

/-- Of a page that the transaction holds to write nobody else leaves anything, and the transaction
    goes on holding it. -/
theorem without_held (hx : E.pool.locks.mode? t p = some .exclusive)
    (hF : E.pool.stored p = F p) {g : TableFile} (hg : E.pool.tables.get? p.table = some g) :
    E.without t F ms p = F p ∧ (E.moves ms).pool.locks.mode? t p = some .exclusive := by
  induction ms generalizing E F with
  | nil => exact ⟨rfl, hx⟩
  | cons m rest ih =>
      rcases hms with ⟨hm, hrest⟩
      have hduring := exclusive_during h.listed h.guarded.toBacked (hm.steady.2.not_relaxes t p) hx
      rcases besides_held h hm hg hduring hF with ⟨hb, hst⟩
      have hafter := exclusive_move h.tidy hm.steady.strict.2 hm.stays hduring
      rcases ih (.move h hm.steady) hrest hafter (hst.trans hb.symm) (known_move hm.steady.1 hg)
        with ⟨hw, hheld⟩
      exact ⟨hw.trans hb, hheld⟩

/-- What a transaction found on a page before it wrote it is what the others have left, and the
    transaction holds the page to write then. -/
theorem without_original (hr : E.Revocable t F) (hF : E.pool.shown p = F p) {b : Bytes}
    (ho : E.original? t p ms = some b) :
    E.without t F ms p = b ∧ (E.moves ms).pool.locks.mode? t p = some .exclusive := by
  induction ms generalizing E F with
  | nil => cases ho
  | cons m rest ih =>
      rcases hms with ⟨hm, hrest⟩
      unfold original? at ho
      split at ho
      · rename_i hw
        exact ih (.move h hm.steady) hrest (revocable_move h hm hr)
          (shown_besides_unwritten h hm hw hF) ho
      · -- This is the first move by which it writes the page, and so the page is one that it holds.
        rename_i hw
        cases ho
        have hs := h.sited fun _ _ => And.left
        rcases exclusive_of_lastWrite hs hw with ⟨hx, _, _⟩
        rcases known_of_lastWrite hs (h.rooted fun _ _ => And.left) hw with ⟨g, hg⟩
        rcases besides_held h hm hg hx (hr.stored_during h hm hx) with ⟨hb, hst⟩
        have hafter := exclusive_move h.tidy hm.steady.strict.2 hm.stays hx
        rcases without_held (.move h hm.steady) hrest hafter (hst.trans hb.symm)
          (known_move hm.steady.1 hg) with ⟨hwithout, hheld⟩
        exact ⟨hwithout.trans (hb.trans hF.symm), hheld⟩

/-- A page that the transaction has appended has nothing on it if the others have left it alone. -/
theorem without_appended {before after : List (Move ρ)} {m : Move ρ}
    (heq : ms = before ++ m :: after) (hr : E.Revocable t F)
    (happ : (E.moves before).Appends t p m)
    (halone : ((E.moves before).move m).Admits (LeftAlone t p) after) :
    ∃ f, (E.moves ms).pool.tables.get? p.table = some f ∧
      E.without t F ms p = Array.replicate f.layout.pageSize 0 := by
  subst heq
  rcases hms.split with ⟨hbefore, hm, hafter⟩
  rcases Admits.along (fun _ _ h hm => .move h hm.steady) (fun _ _ _ => id) h hbefore with ⟨hB, _⟩
  have hs := hB.sited fun _ _ => And.left
  rcases happ with ⟨hperf, hnew, f, hf, _⟩
  -- The transaction makes no table known.
  have hg : (E.moves before).pool.tables.get? p.table = some f := by
    rcases (E.moves before).tables_move m with ht | ⟨f', rfl⟩
    · exact ht ▸ hf
    · cases hperf
  have hzeros : (E.moves before).pool.stored p = Array.replicate f.layout.pageSize 0 :=
    Pool.stored_past hs.coherent.laid hg (Nat.le_of_not_lt fun hn => hnew ⟨f, hg, hn⟩)
  have hshown : (E.moves before).pool.shown p = (E.moves before).pool.stored p := by
    cases hp : (E.moves before).pool.cache.page? p with
    | none => exact Pool.shown_of_absent hp
    | some page =>
        rcases hs.coherent.mirrors hp with ⟨rfl, hmir⟩
        exact absurd hmir.here hnew
  have hrB := revocable_run h hbefore hr
  have hleft : E.without t F before p = (E.moves before).pool.stored p := by
    by_cases hx : (E.moves before).pool.locks.mode? t p = some .exclusive
    · exact (hrB.stored p hx).symm
    · exact (hrB.shown p hx).symm.trans hshown
  refine ⟨f, ?_, ?_⟩
  · rw [moves_append]
    exact (Admits.along (I := fun E => E.pool.tables.get? p.table = some f)
      (fun _ _ hf hm => known_move hm.steady.1 hf) (fun _ _ _ => id) hf hafter).1
  · rw [without_append, without, without_same halone, besides_same (Or.inl hperf), hleft, hzeros]

end run

/-- What is left of a transaction that has made some moves, when it was rolled back. Every page that
    it wrote is shown as it was just before, and is clean. None of its moves has changed an image,
    though a table may have grown by some. The rollback has changed nothing but pages that it held
    to write. What is shown of all pages is what the others have left. So a page that it has
    appended has no row if the others have left it alone. -/
structure Undone (E : Engine ρ) (t : TxnId) (ms : List (Move ρ)) (Q : Pool ρ) : Prop where
  written : ∀ p b, E.original? t p ms = some b → Q.shown p = b ∧ Q.owner? p = none
  own : E.Admits (fun E m => E.performer m = some t → E.Growth m) ms
  ended : Pool.RolledBack (E.moves ms).pool Q t
  data : Q.shown = E.without t E.pool.shown ms
  appended : ∀ before m after p, ms = before ++ m :: after → (E.moves before).Appends t p m →
    ((E.moves before).move m).Admits (LeftAlone t p) after →
      ∀ slot, rowAt? Q.tables Q.shown ⟨p, slot⟩ = none

/-- Whatever has happened before a transaction comes to hold a page to write, and whatever it and
    the others do then, as long as no lock is given back early, no overtaken call is resumed, files
    are changed only through the pool and the changes of the transaction are not forced out: if the
    transaction is rolled back, visiting its pages in whichever order, and the rollback succeeds,
    nothing is left of it but pages without rows. -/
theorem rollback_leaves_no_trace {E : Engine ρ} (h : E.Arises Steady) {t : TxnId}
    (hstart : E.pool.locks.exclusivePages t = []) {ms : List (Move ρ)}
    (hms : E.Admits (Undoable t) ms) {order : List PageId}
    (horder : order.Perm ((E.moves ms).pool.locks.exclusivePages t)) {Q : Pool ρ}
    (hok : (E.moves ms).pool.finishIn order t .rollback = (Q, .ok ())) : E.Undone t ms Q := by
  have hr : E.Revocable t E.pool.shown := by
    refine ⟨fun p hx => ?_, fun _ _ => rfl⟩
    have hmem := (LockTable.mem_exclusivePages _ _ _).2 hx
    rw [hstart] at hmem
    cases hmem
  rcases Admits.along (fun _ _ h hm => .move h hm.steady) (fun E m h hm hperf =>
    growth_move (h.sited fun _ _ => And.left) hm.steady.1 hperf hm.stays hm.unforced) h hms with
    ⟨hend, hown⟩
  -- The rollback brings back what it visits as it is on disk, which is as the others have left it.
  -- The rest is shown so already.
  have hmem : ∀ p, p ∈ order ↔ (E.moves ms).pool.locks.mode? t p = some .exclusive :=
    fun p => horder.mem_iff.trans (LockTable.mem_exclusivePages _ _ _)
  have hback := Pool.rolledBack_finishIn (hend.sited fun _ _ => And.left).coherent
    hend.guarded.toBacked hmem hok
  have hleft := revocable_run h hms hr
  have hdata : Q.shown = E.without t E.pool.shown ms := by
    funext p
    by_cases hx : (E.moves ms).pool.locks.mode? t p = some .exclusive
    · exact (hback.held p hx).1.trans (hleft.stored p hx)
    · exact (Pool.shown_congr (hback.others p hx) (congrFun hback.stored p)).trans
        (hleft.shown p hx)
  refine ⟨fun p b ho => ?_, hown, hback, hdata, fun before m after p heq happ halone slot => ?_⟩
  · rcases without_original h hms hr rfl ho with ⟨hb, hx⟩
    exact ⟨(congrFun hdata p).trans hb, (hback.held p hx).2⟩
  · rcases without_appended h hms heq hr happ halone with ⟨f, hf, hzeros⟩
    have htables : Q.tables = (E.moves ms).pool.tables := by
      have ht := (E.moves ms).pool.tables_finishIn order t .rollback
      rwa [hok] at ht
    have hf' : Q.tables.get? p.table = some f := htables ▸ hf
    simp only [rowAt?, hf', Option.bind_some, hdata, hzeros]
    exact SlotPage.get?_zeros _ _

/-- A transaction writes a page and is to insert a row into a table without pages. -/
def aboutToGrow : List (Move Recency) :=
  [.register ⟨⟨2⟩, ⟨1⟩, "other.tbl", Layout.tiny⟩,
    .event (.submit ⟨1⟩ (.fetch ⟨⟨1⟩, 0⟩ .readWrite true)), .event (.step ⟨0⟩),
    .event (.act (.write ⟨0⟩ (.fill 5))), .event (.submit ⟨1⟩ (.insert ⟨⟨2⟩, [], [#[6]]⟩)),
    .event (.step ⟨1⟩), .event (.step ⟨1⟩)]

/-- The row is put on a page that was appended for it, and another transaction writes a page and
    commits. -/
def grownFor : List (Move Recency) :=
  [.event (.step ⟨1⟩), .event (.step ⟨1⟩), .event (.step ⟨1⟩), .event (.step ⟨1⟩),
    .event (.step ⟨1⟩), .event (.submit ⟨2⟩ (.fetch ⟨⟨1⟩, 1⟩ .readWrite true)),
    .event (.step ⟨2⟩), .event (.act (.write ⟨1⟩ (.fill 7))),
    .event (.act (.finish ⟨2⟩ .commit))]

/-- The rollback takes back the write and the row. The page that was appended stays, and so does
    what the other transaction wrote. -/
theorem rollback_leaves_no_trace_grownFor :
    ∃ Q, ((tiny 3 ({} : Recency)).moves (aboutToGrow ++ .event (.step ⟨1⟩) :: grownFor)
        ).pool.finishIn [⟨⟨1⟩, 0⟩, ⟨⟨2⟩, 0⟩] ⟨1⟩ .rollback = (Q, .ok ()) ∧
      Q.shown ⟨⟨1⟩, 0⟩ = #[0, 0] ∧ Q.Has ⟨⟨2⟩, 0⟩ ∧
      rowAt? Q.tables Q.shown ⟨⟨⟨2⟩, 0⟩, 0⟩ = none ∧ Q.shown ⟨⟨1⟩, 1⟩ = #[7, 7] := by
  have hms : (tiny 3 ({} : Recency)).Admits (Undoable ⟨1⟩)
      (aboutToGrow ++ .event (.step ⟨1⟩) :: grownFor) := by decide +kernel
  have hperm : [⟨⟨1⟩, 0⟩, ⟨⟨2⟩, 0⟩].Perm (((tiny 3 ({} : Recency)).moves
      (aboutToGrow ++ .event (.step ⟨1⟩) :: grownFor)).pool.locks.exclusivePages ⟨1⟩) := by
    decide +kernel
  have hundone := rollback_leaves_no_trace (.fresh (fresh_tiny 3 ({} : Recency)))
    (by decide +kernel) hms hperm (Pool.eq_ok_of_isOk (by decide +kernel))
  refine ⟨_, Pool.eq_ok_of_isOk (by decide +kernel), ?_, by decide +kernel, ?_, ?_⟩
  · exact (hundone.written ⟨⟨1⟩, 0⟩ #[0, 0] (by decide +kernel)).1
  · exact hundone.appended aboutToGrow (.event (.step ⟨1⟩)) grownFor ⟨⟨2⟩, 0⟩ rfl
      (by decide +kernel) (by decide +kernel) 0
  · rw [hundone.data]
    decide +kernel

/-- A transaction writes a page, then its call is resumed that was overtaken, and then it is rolled
    back, which succeeds. The page is shown as the transaction has left it, and not as it found it.
    No lock was given back early, and nothing was flushed or discarded. -/
theorem overtaken_write_stays :
    (tiny 1 ({} : Recency)).Admits (fun E m => E.Strict m ∧ m.isDiscard = false ∧
      m.leaver? ≠ some ⟨1⟩ ∧ m.forces ⟨1⟩ = false) overtakenMoves ∧
    (tiny 1 ({} : Recency)).original? ⟨1⟩ ⟨⟨1⟩, 0⟩ overtakenMoves = some #[0, 0] ∧
    ∃ Q, ((tiny 1 ({} : Recency)).moves overtakenMoves).pool.finishIn
        (((tiny 1 ({} : Recency)).moves overtakenMoves).pool.locks.exclusivePages ⟨1⟩) ⟨1⟩
          .rollback = (Q, .ok ()) ∧ Q.shown ⟨⟨1⟩, 0⟩ = #[5, 5] :=
  ⟨by decide +kernel, by decide +kernel, _, Pool.eq_ok_of_isOk (by decide +kernel),
    by decide +kernel⟩

end Engine

end RowStore
