import RowStore.Proofs.Requests
import RowStore.Recency

/-!
# One Transaction after Another

Transactions that run at the same time see what they would have seen one after the
other, in the order in which they committed.

The run is looked at as a list of notes: an access of a transaction to a page, or
the end of a transaction. From the notes alone comes a history, which knows what
every transaction has done since it began and what those did that committed. The
committed accesses are a program for an array of pages. What they leave of it is what
is on disk; a transaction sees it with its own writes on top. The notes leave out
nothing by which a call could tell: at a point that reads, what comes of its work is
settled by what it reads (`Task.run_eq_of_accesses`).

The locks make it so. What a transaction has read it still holds, so nobody has
written it since, and what a commit writes out nobody else has looked at. Hence an
access that was right when it was made is still right when its transaction commits,
though others may have committed in between.

A transaction may make any number of calls at a time. What is asked of them is that none
is resumed that was overtaken (`RowStore.Proofs.Requests`). Otherwise the commit of its
transaction does not write out the page, and the rollback of another one takes away what
was committed. `Engine.overtaken_commit_undone` is such a run.

## Main definitions

* `Note`, `History`: What is noted of a run, and what follows from the notes.
* `Engine.trace`: The notes of a run.
* `Engine.EndsWell`: The events that are admitted: no lock is given back early, no overtaken call is
  resumed, no page is flushed or discarded, and endings succeed.
* `Engine.Isolated`: The same on a device that refuses nothing, where endings cannot fail.
* `Pool.Serial`: Pool and history go together.

## Theorems

* `PageOp.after_eq`: What an array has afterwards is what was written last.
* `Pool.serial_performs`, `Pool.serial_commit`, `Pool.serial_rollback`: Accesses and endings keep
  pool and history together.
* `Engine.serial_exec`: So does every event that is admitted.
* `Engine.serializable`: Every run is one of committed transactions, one after the other.
* `Engine.overtaken_commit_undone`: It need not be if an overtaken call is resumed.
-/

namespace RowStore

/-- What is noted of a run: that a transaction had access to a page, or that it ended. -/
inductive Note
  | access (t : TxnId) (op : PageOp)
  | ended (t : TxnId) (e : Ending)
  deriving DecidableEq

/-- What every transaction did since it began, and what those did that committed, in the order in
    which they did. -/
structure History where
  doing : TxnId → List PageOp := fun _ => []
  committed : List (TxnId × List PageOp) := []

namespace PageOp

/-- The bytes that were written last to a page. -/
def lastWrite? (p : PageId) : List PageOp → Option Bytes
  | [] => none
  | read _ _ :: rest => lastWrite? p rest
  | write q bytes :: rest => (lastWrite? p rest).or (if q = p then some bytes else none)

/-- What an array has afterwards is what was written last, or what it had. -/
theorem after_eq (A : PageId → Bytes) (l : List PageOp) (p : PageId) :
    after A l p = (lastWrite? p l).getD (A p) := by
  -- A write changes what the rest starts from, so the induction is over all arrays.
  induction l generalizing A with
  | nil => rfl
  | cons op rest ih =>
      cases op with
      | read q seen => exact ih A
      | write q bytes =>
          unfold after lastWrite?
          rw [ih]
          -- A later write to the page hides this one.
          cases lastWrite? p rest with
          | some b => rfl
          | none =>
              by_cases hq : q = p
              · simp [put, hq]
              · simp [put, hq, Ne.symm hq]

/-- A read that can be replayed saw what was there after the accesses before it. -/
theorem eq_of_replays {A : PageId → Bytes} {l l' : List PageOp} {p : PageId} {seen : Bytes}
    (h : Replays A (l ++ read p seen :: l')) : seen = after A l p :=
  ((replays_append A l _).1 h).2.1

end PageOp

namespace History

/-- Set down what a transaction did since it began. -/
def set (H : History) (t : TxnId) (ops : List PageOp) : History :=
  { H with doing := fun u => if u = t then ops else H.doing u }

/-- Take a note. -/
def note (H : History) : Note → History
  | .access t op => H.set t (H.doing t ++ [op])
  | .ended t .commit => { H.set t [] with committed := H.committed ++ [(t, H.doing t)] }
  | .ended t .rollback => H.set t []

/-- The history that comes from some notes. -/
def of (notes : List Note) : History := notes.foldl note {}

/-- The accesses of the transactions that committed, one transaction after the other. -/
def serial (H : History) : List PageOp := H.committed.flatMap Prod.snd

/-- What the transactions that committed have left of an array of pages. -/
def left (H : History) (A : PageId → Bytes) : PageId → Bytes := PageOp.after A H.serial

theorem doing_set_self (H : History) (t : TxnId) (ops : List PageOp) :
    (H.set t ops).doing t = ops :=
  if_pos rfl

theorem doing_set_other (H : History) {t u : TxnId} (h : u ≠ t) (ops : List PageOp) :
    (H.set t ops).doing u = H.doing u :=
  if_neg h

theorem foldl_access (H : History) (t : TxnId) (ops : List PageOp) :
    (ops.map (Note.access t)).foldl note H = H.set t (H.doing t ++ ops) := by
  induction ops generalizing H with
  | nil =>
      have hid : (fun u => if u = t then H.doing t ++ [] else H.doing u) = H.doing := by
        funext u
        split
        · rename_i hu
          rw [List.append_nil, hu]
        · rfl
      simp only [List.map_nil, List.foldl_nil, set, hid]
  | cons op rest ih =>
      -- Setting a transaction's list twice is setting it once.
      have hid : ∀ a b, (H.set t a).set t b = H.set t b := by
        intro a b
        unfold set
        congr 1
        funext u
        simp only
        split <;> rfl
      rw [List.map_cons, List.foldl_cons, ih, note, doing_set_self, hid, List.append_assoc]
      rfl

theorem serial_commit (H : History) (t : TxnId) :
    (H.note (.ended t .commit)).serial = H.serial ++ H.doing t := by
  simp [note, serial]

theorem left_commit (H : History) (A : PageId → Bytes) (t : TxnId) :
    (H.note (.ended t .commit)).left A = PageOp.after (H.left A) (H.doing t) := by
  unfold left
  rw [serial_commit, PageOp.after_append]

end History

/-! ## Pool and history -/

namespace Pool

variable {ρ : Type}

/-- Pool and history go together. What a transaction read it would read again after those that
    committed, it holds what it had access to, and what is shown of a page is what they left of it,
    with the writes of the transaction on top that holds it to write. -/
structure Serial (A : PageId → Bytes) (P : Pool ρ) (H : History) : Prop where
  coherent : P.Coherent
  pinned : P.Pinned
  agreed : P.locks.Agreed
  past : PageOp.Replays A H.serial
  running : ∀ t, PageOp.Replays (H.left A) (H.doing t)
  holds : ∀ t, ∀ op ∈ H.doing t, P.locks.Enough t op.page op.mode
  own : ∀ t p, P.locks.mode? t p = some .exclusive →
    P.shown p = PageOp.after (H.left A) (H.doing t) p
  rest : ∀ p, (∀ t, P.locks.mode? t p ≠ some .exclusive) → P.shown p = H.left A p
  stored : P.stored = H.left A

section Serial

variable {A : PageId → Bytes} {P : Pool ρ} {H : History} (hs : P.Serial A H)

include hs

/-- A transaction has written no page that it does not hold to write. -/
theorem Serial.after_doing {t : TxnId} {p : PageId} (h : P.locks.mode? t p ≠ some .exclusive)
    (B : PageId → Bytes) : PageOp.after B (H.doing t) p = B p :=
  PageOp.after_of_not_written B fun _ hm => h ((hs.holds t _ hm).exclusive rfl)

/-- A transaction that holds a page sees what those left that committed, with its own writes. -/
theorem Serial.shown_of_held {t : TxnId} {p : PageId} (h : P.locks.mode? t p ≠ none) :
    P.shown p = PageOp.after (H.left A) (H.doing t) p := by
  by_cases hx : P.locks.mode? t p = some .exclusive
  · exact hs.own t p hx
  · -- It holds the page to read, so nobody holds it to write.
    rw [hs.after_doing hx]
    refine hs.rest p fun u hu => hx ?_
    rw [hs.agreed.eq_of_exclusive hu h]
    exact hu

/-- A transaction is granted more. -/
theorem serial_setLocks {t : TxnId} {locks : LockTable} (hl : locks.Agreed)
    (hg : P.locks.Grows t locks) : (P.setLocks locks).Serial A H where
  coherent := hs.coherent.setLocks locks
  pinned := hs.pinned
  agreed := hl
  past := hs.past
  running := hs.running
  holds u op hop := by
    have hop' := hs.holds u op hop
    -- The transaction holds no less than before; everyone else holds what they did.
    by_cases hu : u = t
    · subst hu
      exact ⟨hg.held _ hop'.held, fun hm => hg.exclusive _ (hop'.exclusive hm)⟩
    · have heq : (P.setLocks locks).locks.mode? u op.page = P.locks.mode? u op.page :=
        hg.others u hu op.page
      refine ⟨?_, fun hm => ?_⟩
      · rw [heq]
        exact hop'.held
      · rw [heq]
        exact hop'.exclusive hm
  own u p hx := by
    by_cases hold : P.locks.mode? u p = some .exclusive
    · exact hs.own u p hold
    · -- The lock is new and the only one on the page, so nobody held the page to write before.
      have hut : u = t := by
        by_contra hu
        exact hold ((hg.others u hu p).symm.trans hx)
      rw [hs.after_doing hold]
      refine hs.rest p fun v hv => ?_
      by_cases hvt : v = t
      · rw [hvt, ← hut] at hv
        exact hold hv
      · have hv' : locks.mode? v p ≠ none := by
          rw [hg.others v hvt p, hv]
          exact Option.some_ne_none _
        exact hvt ((hl.eq_of_exclusive hx hv').trans hut)
  rest p hn := by
    refine hs.rest p fun u hu => ?_
    by_cases hut : u = t
    · rw [hut] at hu
      exact hn t (hg.exclusive p hu)
    · exact hn u ((hg.others u hut p).trans hu)
  stored := (stored_congr rfl rfl).trans hs.stored

/-- A transaction has access to pages that it holds. -/
theorem serial_performs {Q : Pool ρ} {t : TxnId} {ops : List PageOp} (hp : P.Performs t ops Q)
    (he : ∀ op ∈ ops, P.locks.Enough t op.page op.mode) :
    Q.Serial A ((ops.map (Note.access t)).foldl History.note H) := by
  rw [History.foldl_access]
  have hself := H.doing_set_self t (H.doing t ++ ops)
  -- A page that someone else holds to write, or nobody does, is not written.
  have hkeep : ∀ p, P.locks.mode? t p ≠ some .exclusive → Q.shown p = P.shown p := by
    intro p hne
    rw [hp.shown]
    exact PageOp.after_of_not_written _ fun _ hm => hne ((he _ hm).exclusive rfl)
  have hlocks := hp.locks
  refine ⟨hp.coherent, hp.pinned hs.pinned, hlocks ▸ hs.agreed, hs.past, ?_, ?_, ?_, ?_,
    hp.stored.trans hs.stored⟩
  · intro u
    by_cases hu : u = t
    · rw [hu, hself]
      -- What is shown of a page it holds is what its history says, so the reads fit on.
      refine (PageOp.replays_append _ _ _).2 ⟨hs.running t, ?_⟩
      exact PageOp.replays_congr (fun op hop => hs.shown_of_held (he op hop).held) hp.replays
    · rw [H.doing_set_other hu]
      exact hs.running u
  · intro u op hop
    rw [hlocks]
    by_cases hu : u = t
    · rw [hu, hself, List.mem_append] at hop
      rw [hu]
      exact hop.elim (hs.holds t op) (he op)
    · rw [H.doing_set_other hu] at hop
      exact hs.holds u op hop
  · intro u p hx
    rw [hlocks] at hx
    by_cases hu : u = t
    · rw [hu] at hx
      -- Its own writes go on top of what it has done so far.
      rw [hu, hself, PageOp.after_append, hp.shown]
      exact PageOp.after_congr (hs.own t p hx) ops
    · -- Two do not hold one page to write, so what this one shows is not touched.
      rw [H.doing_set_other hu, hkeep p fun ht => hu (hs.agreed.eq_of_exclusive ht (by simp [hx]))]
      exact hs.own u p hx
  · intro p hn
    rw [hlocks] at hn
    rw [hkeep p (hn t)]
    exact hs.rest p hn

/-- A transaction ends and gives its locks back. If it leaves alone what it did not hold to write,
    and shows of the rest what is left of it by those that committed, nobody else can tell. -/
theorem serial_ended {Q : Pool ρ} {t : TxnId} {H' : History} (hc : Q.Coherent) (hpin : Q.Pinned)
    (hpast : PageOp.Replays A H'.serial) (hself : H'.doing t = [])
    (hother : ∀ u, u ≠ t → H'.doing u = H.doing u)
    (hleft : ∀ p, P.locks.mode? t p ≠ some .exclusive → H'.left A p = H.left A p)
    (hkeep : ∀ p, P.locks.mode? t p ≠ some .exclusive → Q.shown p = P.shown p)
    (hown : ∀ p, P.locks.mode? t p = some .exclusive → Q.shown p = H'.left A p)
    (hstored : Q.stored = H'.left A) :
    (Q.setLocks (P.locks.releaseAll t)).Serial A H' := by
  have hmode : ∀ u, u ≠ t → ∀ p, (P.locks.releaseAll t).mode? u p = P.locks.mode? u p := by
    intro u hu p
    rw [LockTable.mode?_releaseAll, if_neg hu]
  -- What someone else holds, the transaction did not hold to write.
  have hnot : ∀ u p, u ≠ t → P.locks.mode? u p ≠ none → P.locks.mode? t p ≠ some .exclusive :=
    fun u p hu hm hx => hu (hs.agreed.eq_of_exclusive hx hm)
  refine ⟨hc.setLocks _, hpin, LockTable.agreed_releaseAll hs.agreed t, hpast, ?_, ?_, ?_, ?_,
    (stored_congr rfl rfl).trans hstored⟩
  · intro u
    by_cases hu : u = t
    · rw [hu, hself]
      trivial
    · rw [hother u hu]
      -- Those still running had access only to pages that this one did not write.
      refine PageOp.replays_congr (fun op hop => ?_) (hs.running u)
      exact (hleft _ (hnot u _ hu (hs.holds u op hop).held)).symm
  · intro u op hop
    by_cases hu : u = t
    · rw [hu, hself] at hop
      cases hop
    · rw [hother u hu] at hop
      have hop' := hs.holds u op hop
      have heq := hmode u hu op.page
      exact ⟨fun hn => hop'.held (heq.symm.trans hn), fun hm => heq.trans (hop'.exclusive hm)⟩
  · intro u p hx
    have hx' : (P.locks.releaseAll t).mode? u p = some .exclusive := hx
    by_cases hu : u = t
    · -- It has given everything back.
      rw [hu, LockTable.mode?_releaseAll, if_pos rfl] at hx'
      cases hx'
    · rw [hmode u hu] at hx'
      have hn := hnot u p hu (by simp [hx'])
      rw [hother u hu]
      refine ((hkeep p hn).trans (hs.own u p hx')).trans ?_
      exact PageOp.after_congr (hleft p hn).symm _
  · intro p hn
    -- A page is held to write by nobody now if nobody did before or only this one did.
    by_cases ht : P.locks.mode? t p = some .exclusive
    · exact hown p ht
    · refine (hkeep p ht).trans ((hs.rest p fun u hu => ?_).trans (hleft p ht).symm)
      have hut : u ≠ t := by
        rintro rfl
        exact ht hu
      exact hn u ((hmode u hut p).trans hu)

/-- A transaction commits: what it wrote is stored, and it gives its locks back. -/
theorem serial_commit {Q : Pool ρ} {t : TxnId} (hf : Flushed P Q (P.locks.exclusivePages t)) :
    (Q.setLocks (P.locks.releaseAll t)).Serial A (H.note (.ended t .commit)) := by
  have hleft := H.left_commit A t
  refine serial_ended hs hf.coherent (hf.pinned hs.pinned) ?_ (H.doing_set_self t [])
    (fun u hu => H.doing_set_other hu []) ?_ ?_ ?_ ?_
  · -- What the transaction read is still what those left that committed before it.
    rw [H.serial_commit]
    exact (PageOp.replays_append _ _ _).2 ⟨hs.past, hs.running t⟩
  · intro p hp
    rw [hleft, hs.after_doing hp]
  · exact fun p _ => congrFun hf.shown p
  · intro p hp
    rw [hleft, hf.shown]
    exact hs.own t p hp
  · funext p
    rw [hf.stored, hleft]
    -- Just the pages held to write are stored, and of the others it wrote none.
    by_cases hp : P.locks.mode? t p = some .exclusive
    · rw [if_pos ((LockTable.mem_exclusivePages _ _ _).2 hp)]
      exact hs.own t p hp
    · rw [if_neg fun hm => hp ((LockTable.mem_exclusivePages _ _ _).1 hm), hs.after_doing hp,
        hs.stored]

/-- A transaction rolls back: what it wrote is not shown any more, and it gives its locks back. -/
theorem serial_rollback {Q : Pool ρ} {t : TxnId} (hr : Restored P Q (P.locks.exclusivePages t))
    (hpin : Q.Pinned) :
    (Q.setLocks (P.locks.releaseAll t)).Serial A (H.note (.ended t .rollback)) := by
  refine serial_ended hs hr.coherent hpin hs.past (H.doing_set_self t [])
    (fun u hu => H.doing_set_other hu []) (fun _ _ => rfl) ?_ ?_ (hr.stored.trans hs.stored)
  · intro p hp
    rw [hr.shown, if_neg fun hm => hp ((LockTable.mem_exclusivePages _ _ _).1 hm)]
  · intro p hp
    rw [hr.shown, if_pos ((LockTable.mem_exclusivePages _ _ _).2 hp), hs.stored]
    rfl

/-- Nothing happens that has to do with pages or locks. -/
theorem Serial.congr {Q : Pool ρ} (hcache : Q.cache = P.cache) (hd : Q.disk = P.disk)
    (ht : Q.tables = P.tables) (hl : Q.locks = P.locks) : Q.Serial A H := by
  have hst := stored_congr (P := P) (Q := Q) ht hd
  have hshown : ∀ p, Q.shown p = P.shown p :=
    fun p => shown_congr (by rw [hcache]) (congrFun hst p)
  exact
    { coherent := hs.coherent.congr hcache hd ht
      pinned := by
        unfold Pinned
        rw [hcache]
        exact hs.pinned
      agreed := hl ▸ hs.agreed
      past := hs.past
      running := hs.running
      holds := hl ▸ hs.holds
      own := fun u p hx => (hshown p).trans (hs.own u p (hl ▸ hx))
      rest := fun p hn => (hshown p).trans (hs.rest p (hl ▸ hn))
      stored := hst.trans hs.stored }

omit hs in
theorem willing_of_faultless (hc : P.Coherent) (hb : P.Bounded) (hd : P.faults = {}) :
    P.Willing where
  coherent := hc
  bounded := hb
  readable p _ := by rw [hd]
  writable p := by rw [hd]

end Serial

/-! ## Actions -/

section act

/-- The notes that are taken of an action. A read by a handle whose transaction has given the page
    back is not one of the transaction. -/
def notes (P : Pool ρ) : Action → List Note
  | .read n =>
    match P.cache.handles.get? n with
    | none => []
    | some h =>
      if P.locks.mode? h.txn h.page = none then []
      else [.access h.txn (.read h.page (P.bytesOf h))]
  | .write n e =>
    match P.cache.handles.get? n with
    | none => []
    | some h =>
      match P.checkWrite h with
      | .error _ => []
      | .ok _ => [.access h.txn (.read h.page (P.bytesOf h)),
          .access h.txn (.write h.page (e.apply (P.bytesOf h)))]
  | .finish t e => if (P.finish t e).2.isOk then [.ended t e] else []
  | .close t e => [.ended t (if (P.finish t e).2.isOk then e else .rollback)]
  | .abandon t => [.ended t .rollback]
  | .begin | .drop _ | .grow _ | .flushAll | .flushTxn _ | .discard _ | .releasePage _ _
  | .releaseLocks _ | .device _ => []

variable {A : PageId → Bytes} {P : Pool ρ} {H : History} (hs : P.Serial A H)

include hs

/-- An ending that does not fail. -/
theorem serial_finish {t : TxnId} {e : Ending} (hok : (P.finish t e).2 = .ok ()) :
    (P.finish t e).1.Serial A (H.note (.ended t e)) ∧ (P.finish t e).1.faults = P.faults := by
  -- It gets through all its pages, so it visits every one.
  cases e with
  | commit =>
      rcases finish_commit hs.coherent t with ⟨Q, visited, hf, _, ⟨heq, hv⟩ | ⟨e, heq⟩⟩
      · rw [heq]
        exact ⟨serial_commit hs (hv ▸ hf), hf.faults⟩
      · rw [heq] at hok
        cases hok
  | rollback =>
      rcases finish_rollback hs.coherent t with
        ⟨Q, visited, ⟨hr, hpin⟩, _, ⟨heq, hv⟩ | ⟨e, heq⟩⟩
      · rw [heq]
        exact ⟨serial_rollback hs (hv ▸ hr) (hpin hs.pinned), hr.faults⟩
      · rw [heq] at hok
        cases hok

theorem serial_edit (n : HandleNo) (e : Edit) :
    (P.edit n e).1.Serial A ((P.notes (.write n e)).foldl History.note H) := by
  unfold edit
  simp only [notes]
  cases hn : P.cache.handles.get? n with
  | none => exact hs
  | some h =>
      have hr := hs.pinned n h hn
      simp only
      rcases alter_cases (grasps_of_resident hs.coherent hr) fun b => .ok ((), e.apply b) with
        ⟨e', hw, heq⟩ | ⟨_, e', hwork, _⟩ | ⟨hw, a, bytes, hwork, heq⟩
      · rw [hw, heq]
        exact hs
      · cases hwork
      · cases hwork
        rw [hw, heq]
        have hb : P.bytesOf h = P.shown h.page := hs.coherent.bytesOf_eq hr
        -- The edit starts from the bytes there are: a read, and then a write of the whole page.
        have hp := (performs_read hs.coherent h.txn h.page).trans
          (performs_written hs.coherent hr hw (e.size_apply _))
        have hx := mode?_of_checkWrite hw
        simp only [hb] at hp ⊢
        refine serial_performs hs hp fun op hop => ?_
        simp only [List.cons_append, List.nil_append, List.mem_cons, List.not_mem_nil,
          or_false] at hop
        rcases hop with rfl | rfl
        · exact ⟨by simp [PageOp.page, hx], fun _ => hx⟩
        · exact ⟨by simp [PageOp.page, hx], fun _ => hx⟩

end act

end Pool

/-- Whether an action gives no lock back early, and has nothing to do with flushing and
    discarding. -/
def Action.isPlain : Action → Bool
  | .begin | .read _ | .write _ _ | .drop _ | .finish _ _ | .close _ _ | .abandon _ | .grow _
  | .device _ => true
  | .flushAll | .flushTxn _ | .discard _ | .releasePage _ _ | .releaseLocks _ => false

/-- Whether the device comes to refuse other transfers. -/
def Event.isDevice : Event → Bool
  | .act (.device _) => true
  | _ => false

/-- The ending that an action is an attempt at. -/
def Action.ending? : Action → Option (TxnId × Ending)
  | .finish t e | .close t e => some (t, e)
  | .abandon t => some (t, .rollback)
  | _ => none

namespace Pool

variable {ρ : Type} [EvictionOrder ρ]

/-- An attempt to end a transaction that succeeds needs nothing more, whichever attempt it is. -/
theorem act_of_ending {P : Pool ρ} {a : Action} {t : TxnId} {e : Ending}
    (ha : a.ending? = some (t, e)) (hok : (P.finish t e).2 = .ok ()) :
    (P.act a).1 = (P.finish t e).1 ∧ P.notes a = [.ended t e] := by
  cases a with
  | finish t' e' =>
      cases ha
      refine ⟨rfl, ?_⟩
      simp only [notes, hok]
      rfl
  | close t' e' =>
      cases ha
      refine ⟨by simp only [act, close_of_ok hok], ?_⟩
      simp only [notes, hok]
      rfl
  | abandon t' =>
      cases ha
      exact ⟨by simp only [act, abandon_of_ok hok], rfl⟩
  | _ => cases ha

section plain

variable {A : PageId → Bytes} {P : Pool ρ} {H : History} (hs : P.Serial A H) (hb : P.Bounded)
  {a : Action} (ha : a.isPlain = true)
  (hok : ∀ r ∈ a.ending?, (P.finish r.1 r.2).2.isOk = true)

include hs hb ha hok

/-- Every such action keeps pool and history together, if an attempt to end a transaction
    succeeds. -/
theorem serial_act : (P.act a).1.Serial A ((P.notes a).foldl History.note H) := by
  -- An action without accesses keeps the history as it is.
  have hnil : ∀ {Q : Pool ρ} {t : TxnId}, P.Performs t [] Q → Q.Serial A H :=
    fun hp => serial_performs hs hp fun _ hop => by cases hop
  have hend : ∀ t e, a.ending? = some (t, e) →
      (P.act a).1.Serial A ((P.notes a).foldl History.note H) := by
    intro t e he
    have hfin := ok_of_isOk (hok _ he)
    rcases act_of_ending he hfin with ⟨hact, hnotes⟩
    rw [hact, hnotes]
    exact (serial_finish hs hfin).1
  cases a with
  | begin => exact hs.congr rfl rfl rfl rfl
  | read n =>
      simp only [act, notes]
      cases hn : P.cache.handles.get? n with
      | none => exact hs
      | some h =>
          simp only
          split
          · exact hs
          · rename_i hheld
            rw [hs.coherent.bytesOf_eq (hs.pinned n h hn)]
            refine serial_performs hs (performs_read hs.coherent h.txn h.page) fun op hop => ?_
            rcases List.mem_singleton.1 hop with rfl
            exact ⟨hheld, fun hm => by cases hm⟩
  | write n e => exact serial_edit hs n e
  | drop n =>
      -- A handle is gone. Nothing else is different, and the other handles pin what they did.
      refine hnil (t := ⟨0⟩) ⟨⟨rfl, rfl, rfl, rfl, ?_, stored_congr rfl rfl,
        fun _ _ hu => Or.inl hu, ?_, id⟩, trivial, rfl⟩
      · exact hs.coherent.of_cache (Cache.tidy_unpin hs.coherent.tidy n) hs.coherent.copies
      · intro hpin m h hm
        have hm' : (P.cache.handles.erase n).get? m = some h := hm
        rw [Assoc.get?_erase] at hm'
        split at hm'
        · cases hm'
        · exact hpin m h hm'
  | finish t e | close t e => exact hend t e rfl
  | abandon t => exact hend t .rollback rfl
  | grow t => exact hnil (grow_performs hs.coherent hb t ⟨0⟩)
  | device faults => exact hs.congr rfl rfl rfl rfl
  | _ => cases ha

/-- It leaves the device alone, unless that is what it is about. -/
theorem faults_act (hd : (Event.act a).isDevice = false) : (P.act a).1.faults = P.faults := by
  have hend : ∀ t e, a.ending? = some (t, e) → (P.act a).1.faults = P.faults := by
    intro t e he
    have hfin := ok_of_isOk (hok _ he)
    rw [(act_of_ending he hfin).1]
    exact (serial_finish hs hfin).2
  cases a with
  | write n e =>
      rcases edit_spares hs.coherent n e with ⟨t, hsp⟩
      exact hsp.faults
  | finish t e | close t e => exact hend t e rfl
  | abandon t => exact hend t .rollback rfl
  | grow t => exact (grow_performs hs.coherent hb t ⟨0⟩).faults
  | begin => rfl
  | read n => rfl
  | drop n => rfl
  | device faults => cases hd
  | _ => cases ha

end plain

end Pool

/-! ## Runs -/

/-- Whether an event gives no lock back early, and neither flushes nor discards anything. -/
def Event.isPlain : Event → Bool
  | .submit _ _ | .step _ => true
  | .act a => a.isPlain

/-- The ending that an event is an attempt at. -/
def Event.ending? : Event → Option (TxnId × Ending)
  | .act a => a.ending?
  | .submit _ _ | .step _ => none

namespace Engine

variable {ρ : Type}

/-- The events that are admitted: calls that keep to known table files, and any action but an early
    release, a flush, a discard and an attempt to end a transaction that fails. No overtaken call is
    resumed. -/
structure EndsWell (E : Engine ρ) (ev : Event) : Prop where
  fits : ev.Fits E.pool.tables
  firm : E.Firm ev
  plain : ev.isPlain = true
  ends : ∀ r ∈ ev.ending?, (E.pool.finish r.1 r.2).2.isOk = true

instance (E : Engine ρ) (ev : Event) : Decidable (E.EndsWell ev) :=
  decidable_of_iff (ev.Fits E.pool.tables ∧ E.Firm ev ∧ ev.isPlain = true ∧
      ∀ r ∈ ev.ending?, (E.pool.finish r.1 r.2).2.isOk = true)
    ⟨fun h => ⟨h.1, h.2.1, h.2.2.1, h.2.2.2⟩, fun h => ⟨h.1, h.2, h.3, h.4⟩⟩

/-- The same on a device that is never of another mind: calls that keep to known table files, and
    any action but an early release, a flush and a discard. No overtaken call is resumed. -/
structure Isolated (E : Engine ρ) (ev : Event) : Prop where
  fits : ev.Fits E.pool.tables
  firm : E.Firm ev
  plain : ev.isPlain = true
  device : ev.isDevice = false

instance (E : Engine ρ) (ev : Event) : Decidable (E.Isolated ev) :=
  decidable_of_iff (ev.Fits E.pool.tables ∧ E.Firm ev ∧ ev.isPlain = true ∧ ev.isDevice = false)
    ⟨fun h => ⟨h.1, h.2.1, h.2.2.1, h.2.2.2⟩, fun h => ⟨h.1, h.2, h.3, h.4⟩⟩

variable [EvictionOrder ρ]

/-- The notes that are taken of an event: the accesses of a call that goes to work, or those of an
    action. -/
def notes (E : Engine ρ) : Event → List Note
  | .submit _ _ => []
  | .step c =>
    match E.ruling c with
    | some (call, locks, .granted) =>
      (call.task.accesses (E.setLocks locks).pool call.txn).map (Note.access call.txn)
    | _ => []
  | .act a => E.pool.notes a

/-- The notes that are taken of some events. -/
def trace (E : Engine ρ) : List Event → List Note
  | [] => []
  | ev :: rest => E.notes ev ++ (E.exec ev).1.trace rest

/-- Calls, locks, pages and history go together. -/
structure Serial (A : PageId → Bytes) (E : Engine ρ) (H : History) : Prop where
  sane : E.Sane
  listed : E.Listed
  pool : E.pool.Serial A H

omit [EvictionOrder ρ] in
theorem Fresh.pool_serial {E : Engine ρ} (h : E.Fresh) : E.pool.Serial E.pool.stored {} where
  coherent := h.sane.coherent
  pinned := by
    intro n hd hn
    rw [h.handles] at hn
    cases hn
  agreed := h.locks ▸ LockTable.agreed_empty
  past := trivial
  running := fun _ => trivial
  holds := fun _ _ hop => by cases hop
  own := by
    intro t p hx
    rw [h.locks] at hx
    cases hx
  rest := fun p _ => Pool.shown_of_absent (h.page? p)
  stored := rfl

omit [EvictionOrder ρ] in
theorem Fresh.serial {E : Engine ρ} (h : E.Fresh) : E.Serial E.pool.stored {} where
  sane := h.sane
  listed := h.listed
  pool := h.pool_serial

/-- A step of a call keeps pool and history together, if the call was not overtaken. -/
theorem pool_serial_step {A : PageId → Bytes} {E : Engine ρ} {H : History} (hsane : E.Sane)
    (hl : E.Listed) (hp : E.pool.Serial A H) (hb : E.pool.Bounded) {c : CallNo}
    (hfirm : E.Firm (.step c)) :
    (E.step c).1.pool.Serial A ((E.notes (.step c)).foldl History.note H) := by
  -- Whatever the verdict, the transaction has its lock or is as it was.
  have hruled : ∀ {call locks v}, E.ruling c = some (call, locks, v) →
      (E.pool.setLocks locks).Serial A H := fun hrule =>
    Pool.serial_setLocks hp (agreed_ruling hrule hl hp.agreed hfirm)
      (grows_ruling hrule hl hp.agreed.backed hfirm)
  simp only [notes]
  rcases E.step_cases c with ⟨hrule, heq⟩ | ⟨call, locks, hrule, heq⟩ | ⟨call, locks, hrule, heq⟩ |
    ⟨call, locks, page, mode, hrule, _, heq⟩
  · rw [hrule, heq]
    exact hp
  · -- The work is done under the lock.
    have hpool := hruled hrule
    have hw := work_performs (E := E.setLocks locks) hpool.coherent hb c fun _ =>
      hsane.fits c call (get?_of_ruling hrule)
    rw [hrule, heq]
    refine Pool.serial_performs hpool hw fun op hop => ?_
    -- The work has access only to the page whose lock was demanded.
    rcases Task.mem_accesses hpool.coherent hop with ⟨mode, hd, hx⟩
    exact ⟨held_demand hl hrule hd hp.agreed.backed, hx⟩
  · rw [hrule, heq]
    exact hruled hrule
  · rw [hrule, heq]
    exact hruled hrule

/-- A step of a call leaves the device alone. -/
theorem faults_step {E : Engine ρ} (c : CallNo) : (E.step c).1.pool.faults = E.pool.faults := by
  rw [step_eq]
  split
  · rfl
  · exact ((E.setLocks _).work_worked c _).faults
  · rfl
  · rfl

section Serial

variable {A : PageId → Bytes} {E : Engine ρ} {H : History} (hs : E.Serial A H)

include hs

/-- Every event keeps everything together. -/
theorem serial_exec (hb : E.pool.Bounded) {ev : Event} (hev : E.EndsWell ev) :
    (E.exec ev).1.Serial A ((E.notes ev).foldl History.note H) := by
  refine ⟨(sane_exec hs.sane hb hev.fits).1, listed_exec hs.listed hs.sane.coherent.tidy ev, ?_⟩
  cases ev with
  | submit t task => exact hs.pool
  | step c => exact pool_serial_step hs.sane hs.listed hs.pool hb hev.firm
  | act a => exact Pool.serial_act hs.pool hb hev.plain hev.ends

/-- On a device that refuses nothing every ending succeeds, and the device goes on refusing
    nothing. -/
theorem Isolated.endsWell (hb : E.pool.Bounded) (hd : E.pool.faults = {}) {ev : Event}
    (hev : E.Isolated ev) : E.EndsWell ev ∧ (E.exec ev).1.pool.faults = {} := by
  have hw := Pool.willing_of_faultless hs.pool.coherent hb hd
  have hends : ∀ r ∈ ev.ending?, (E.pool.finish r.1 r.2).2.isOk = true := by
    intro r _
    rw [Pool.finish_ok hw r.1 r.2]
    rfl
  refine ⟨⟨hev.fits, hev.firm, hev.plain, hends⟩, ?_⟩
  cases ev with
  | submit t task => exact hd
  | step c => exact (faults_step c).trans hd
  | act a => exact (Pool.faults_act hs.pool hb hev.plain hends hev.device).trans hd

end Serial

/-- So a run on such a device is one in which endings succeed, and leaves the device as it is. -/
theorem endsWell_run {A : PageId → Bytes} {E : Engine ρ} {H : History} (hs : E.Serial A H)
    (hd : E.pool.faults = {}) {evs : List Event} (h : E.Goes Isolated evs) :
    E.Goes EndsWell evs ∧ (E.run evs).pool.faults = {} := by
  induction evs generalizing E H with
  | nil => exact ⟨h, hd⟩
  | cons ev rest ih =>
      rcases Isolated.endsWell hs h.1 hd h.2.1 with ⟨hev, hd'⟩
      rcases ih (serial_exec hs h.1 hev) hd' h.2.2 with ⟨hrest, hend⟩
      exact ⟨⟨h.1, hev, hrest⟩, hend⟩

omit [EvictionOrder ρ] in
/-- A read that is noted saw what those left that had committed, with the writes of its transaction
    on top. -/
theorem Serial.seen_eq {A : PageId → Bytes} {E : Engine ρ} {H : History}
    {before rest : List Note} {t : TxnId} {p : PageId} {seen : Bytes} {ops : List PageOp}
    {u : TxnId} (hs : E.Serial A ((ops.map (Note.access u)).foldl History.note H))
    (h : ops.map (Note.access u) = before ++ .access t (.read p seen) :: rest) :
    seen = PageOp.after ((before.foldl History.note H).left A)
      ((before.foldl History.note H).doing t) p := by
  -- The reads of one event are part of what its transaction is doing, which can be replayed.
  rcases List.map_eq_append_iff.1 h with ⟨l, l', rfl, rfl, hl'⟩
  rcases List.map_eq_cons_iff.1 hl' with ⟨op, l'', rfl, hop, _⟩
  cases hop
  have hrun := hs.pool.running t
  rw [History.foldl_access, History.doing_set_self, ← List.append_assoc] at hrun
  rw [History.foldl_access, History.doing_set_self]
  exact PageOp.eq_of_replays hrun

/-- What is noted of one event is what one transaction has access to, or its end. -/
theorem notes_cases (E : Engine ρ) (ev : Event) :
    (∃ t ops, E.notes ev = List.map (Note.access t) ops) ∨ ∃ t e, E.notes ev = [.ended t e] := by
  -- Nothing at all is no access of anyone.
  have hnone : ∃ t ops, [] = List.map (Note.access t) ops := ⟨⟨0⟩, [], rfl⟩
  cases ev with
  | submit t task => exact Or.inl hnone
  | step c =>
      simp only [notes]
      split
      · exact Or.inl ⟨_, _, rfl⟩
      · exact Or.inl hnone
  | act a =>
      cases a with
      | read n =>
          simp only [notes, Pool.notes]
          split
          · exact Or.inl hnone
          · split
            · exact Or.inl hnone
            · exact Or.inl ⟨_, [_], rfl⟩
      | write n e =>
          simp only [notes, Pool.notes]
          split
          · exact Or.inl hnone
          · split
            · exact Or.inl hnone
            · exact Or.inl ⟨_, [_, _], rfl⟩
      | finish t e =>
          simp only [notes, Pool.notes]
          split
          · exact Or.inr ⟨t, e, rfl⟩
          · exact Or.inl hnone
      | close t e => exact Or.inr ⟨t, _, rfl⟩
      | abandon t => exact Or.inr ⟨t, _, rfl⟩
      | _ => exact Or.inl hnone

/-- A run keeps everything together. -/
theorem serial_run {A : PageId → Bytes} {E : Engine ρ} {H : History} (hs : E.Serial A H)
    {evs : List Event} (h : E.Goes EndsWell evs) :
    (E.run evs).Serial A ((E.trace evs).foldl History.note H) := by
  induction evs generalizing E H with
  | nil => exact hs
  | cons ev rest ih =>
      simp only [trace, List.foldl_append]
      exact ih (serial_exec hs h.1 h.2.1) h.2.2

/-- Every read of a run saw what those left that had committed, with the writes of its transaction
    on top. -/
theorem seen_run {A : PageId → Bytes} {E : Engine ρ} {H : History} (hs : E.Serial A H)
    {evs : List Event} (h : E.Goes EndsWell evs) {before rest : List Note} {t : TxnId}
    {p : PageId} {seen : Bytes}
    (heq : E.trace evs = before ++ .access t (.read p seen) :: rest) :
    seen = PageOp.after ((before.foldl History.note H).left A)
      ((before.foldl History.note H).doing t) p := by
  induction evs generalizing E H before with
  | nil => cases before <;> cases heq
  | cons ev evs ih =>
      have hs' := serial_exec hs h.1 h.2.1
      rcases List.append_eq_append_iff.1 heq with ⟨later, hb, htr⟩ | ⟨later, hn, htr⟩
      · -- The read comes after the event.
        rw [hb, List.foldl_append]
        exact ih hs' h.2.2 htr
      · -- Either the event's notes end just before the read, or the read is among them.
        cases later with
        | nil =>
            rw [List.append_nil] at hn
            rw [← hn]
            have htr' : (E.exec ev).1.trace evs = [] ++ .access t (.read p seen) :: rest := htr.symm
            exact ih hs' h.2.2 htr'
        | cons n later =>
            cases htr
            rcases E.notes_cases ev with ⟨u, ops, hops⟩ | ⟨u, e, hend⟩
            · rw [hops] at hs' hn
              exact hs'.seen_eq hn
            · rw [hend] at hn
              -- An ending is no read.
              rcases List.append_eq_singleton_iff.1 hn.symm with ⟨_, hx⟩ | ⟨_, hx⟩
              · cases hx
              · cases hx

/-- Every run in which no overtaken call is resumed is one of committed transactions, one after the
    other, however many calls a transaction makes at a time. Whenever a transaction reads a
    page, it sees what it wrote last to the page, or else what was written last of it by those that
    had committed, or else what was there to begin with, which is a page of zeros where there was
    none. If just those that committed do what they did again, in the order in which they committed
    and on a plain array of pages, then they see the same bytes at every read and leave the same
    pages: those on disk, at every moment of the run, and those shown of every page that nobody
    holds to write. -/
theorem serializable {ρ : Type} [EvictionOrder ρ] (E : Engine ρ) (hf : E.Fresh)
    (hd : E.pool.faults = {}) (evs : List Event) (h : E.Goes Isolated evs) :
    (∀ before t p seen rest, E.trace evs = before ++ .access t (.read p seen) :: rest →
      seen = (PageOp.lastWrite? p ((History.of before).doing t)).getD
        ((PageOp.lastWrite? p (History.of before).serial).getD (E.pool.stored p))) ∧
    (∀ p f, E.pool.tables.get? p.table = some f → f.pagesOn E.pool.disk ≤ p.number →
      E.pool.stored p = Array.replicate f.layout.pageSize 0) ∧
    PageOp.Replays E.pool.stored (History.of (E.trace evs)).serial ∧
    (∀ p, (E.run evs).pool.stored p =
      PageOp.after E.pool.stored (History.of (E.trace evs)).serial p) ∧
    ∀ p, (∀ t, (E.run evs).pool.locks.mode? t p ≠ some .exclusive) →
      (E.run evs).pool.shown p =
        PageOp.after E.pool.stored (History.of (E.trace evs)).serial p := by
  have hs := hf.serial
  have hwell := (endsWell_run hs hd h).1
  have hrun := serial_run hs hwell
  refine ⟨?_, fun p f hp hn => Pool.stored_past hf.laid hp hn, hrun.pool.past,
    fun p => congrFun hrun.pool.stored p, hrun.pool.rest⟩
  intro before t p seen rest heq
  rw [← PageOp.after_eq, ← PageOp.after_eq (PageOp.after E.pool.stored _)]
  exact seen_run hs hwell heq

/-- A transaction looks for room on the page that another one has just filled. It waits until that
    one commits, goes on to the next page, and commits too. A third writes that page, reads it
    again, and gives up. -/
def waitingTurn : List Event :=
  .submit ⟨1⟩ (.insert { table := ⟨1⟩, rows := [#[7]] }) :: List.replicate 6 (.step ⟨0⟩) ++
    .submit ⟨2⟩ (.insert { table := ⟨1⟩, rows := [#[9]] }) :: List.replicate 4 (.step ⟨1⟩) ++
      .act (.finish ⟨1⟩ .commit) :: List.replicate 5 (.step ⟨1⟩) ++
        [.act (.finish ⟨2⟩ .commit), .submit ⟨3⟩ (.fetch ⟨⟨1⟩, 1⟩ .readWrite true), .step ⟨2⟩,
          .act (.write ⟨0⟩ (.fill 5)), .act (.read ⟨0⟩), .act (.abandon ⟨3⟩)]

/-- The one that waited has seen what was committed meanwhile, and the run could have been one of
    the two that committed, in turn. -/
theorem serializable_waitingTurn :
    ((tiny 1 ({} : Recency)).run (waitingTurn.take 12)).pool.locks.waiters.map Waiter.txn = [⟨2⟩] ∧
    (History.of ((tiny 1 ({} : Recency)).trace waitingTurn)).committed =
      [(⟨1⟩, [.read ⟨⟨1⟩, 0⟩ #[0, 0], .read ⟨⟨1⟩, 0⟩ #[0, 0], .write ⟨⟨1⟩, 0⟩ #[1, 7]]),
        (⟨2⟩, [.read ⟨⟨1⟩, 0⟩ #[1, 7], .read ⟨⟨1⟩, 1⟩ #[0, 0], .read ⟨⟨1⟩, 1⟩ #[0, 0],
          .write ⟨⟨1⟩, 1⟩ #[1, 9]])] ∧
    PageOp.Replays (tiny 1 ({} : Recency)).pool.stored
      (History.of ((tiny 1 ({} : Recency)).trace waitingTurn)).serial ∧
    ∀ p, ((tiny 1 ({} : Recency)).run waitingTurn).pool.stored p =
      PageOp.after (tiny 1 ({} : Recency)).pool.stored
        (History.of ((tiny 1 ({} : Recency)).trace waitingTurn)).serial p := by
  have hgoes : (tiny 1 ({} : Recency)).Goes Isolated waitingTurn := by decide +kernel
  have h := serializable (tiny 1 ({} : Recency)) (fresh_tiny 1 _) rfl waitingTurn hgoes
  refine ⟨?_, ?_, h.2.2.1, h.2.2.2.1⟩
  all_goals decide +kernel

/-- A transaction whose overtaken call was resumed commits. A third one writes the page and is
    rolled back, and a fourth one reads it. -/
def overtakenCommit : List Event :=
  overtakenReader ++ [.act (.close ⟨1⟩ .commit), .submit ⟨3⟩ (.fetch ⟨⟨1⟩, 0⟩ .readWrite true),
    .step ⟨3⟩, .act (.write ⟨1⟩ (.fill 7)), .act (.close ⟨3⟩ .rollback),
    .submit ⟨4⟩ (.fetch ⟨⟨1⟩, 0⟩ .readOnly true), .step ⟨4⟩, .act (.read ⟨2⟩)]

/-- Nothing was released, flushed, discarded or refused, and yet the fourth transaction, which has
    written nothing itself, does not see what was written last by those that had committed. -/
theorem overtaken_commit_undone :
    (tiny 1 ({} : Recency)).Goes (fun E ev => ev.Fits E.pool.tables ∧ ev.isPlain = true ∧
      ev.isDevice = false) overtakenCommit ∧
    ∃ before, (tiny 1 ({} : Recency)).trace overtakenCommit =
        before ++ [.access ⟨4⟩ (.read ⟨⟨1⟩, 0⟩ #[0, 0])] ∧
      (History.of before).doing ⟨4⟩ = [] ∧
      PageOp.lastWrite? ⟨⟨1⟩, 0⟩ (History.of before).serial = some #[5, 5] :=
  ⟨by decide +kernel, (tiny 1 ({} : Recency)).trace overtakenCommit.dropLast, by decide +kernel,
    by decide +kernel, by decide +kernel⟩

end Engine

end RowStore
