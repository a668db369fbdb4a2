import RowStore.Proofs.Coherence

/-!
# Accesses to Pages

What is done to pages, as a list of reads and writes of whole pages.

The list is all that matters to everyone else. Taken as a program for an array of
pages it does to what the pool shows what was done: every read sees what is shown at
that moment, and afterwards what is shown is what the writes have made of it.
Loading, eviction, marks and new pages do not appear in it, because they change
nothing that is shown.

The images in the files are not touched by any of it. Dirty copies stay in memory
until their transaction ends.

## Main definitions

* `PageOp`: A read or a write of a page.
* `PageOp.after`, `PageOp.Replays`: A list of accesses as a program for an array of pages.
* `Pool.Spares`: The images are as before, and who changed a copy may write the page.
* `Pool.Performs`: A list of accesses was made, and nothing else.

## Theorems

* `PageOp.replays_append`, `PageOp.replays_congr`, `PageOp.after_of_not_written`: How lists of
  accesses are put together, and what they depend on.
* `Pool.alter_cases`: What writing by a handle does.
* `Pool.performs_written`, `Pool.performs_grown`: A write is one access, a new page is none.
-/

namespace RowStore

/-- A read of a page that saw some bytes, or a write of a page. -/
inductive PageOp
  | read (page : PageId) (seen : Bytes)
  | write (page : PageId) (bytes : Bytes)
  deriving DecidableEq, Repr

namespace PageOp

/-- The page that is read or written. -/
def page : PageOp → PageId
  | read p _ | write p _ => p

/-- The lock that the access needs. -/
def mode : PageOp → LockMode
  | read _ _ => .shared
  | write _ _ => .exclusive

/-- An array of pages with one page replaced. -/
def put (A : PageId → Bytes) (p : PageId) (bytes : Bytes) : PageId → Bytes :=
  fun q => if q = p then bytes else A q

/-- An array of pages after some accesses. -/
def after (A : PageId → Bytes) : List PageOp → PageId → Bytes
  | [] => A
  | read _ _ :: rest => after A rest
  | write p bytes :: rest => after (put A p bytes) rest

/-- Every read among some accesses sees what the array has at that point. -/
def Replays (A : PageId → Bytes) : List PageOp → Prop
  | [] => True
  | read p seen :: rest => seen = A p ∧ Replays A rest
  | write p bytes :: rest => Replays (put A p bytes) rest

theorem after_append (A : PageId → Bytes) (l l' : List PageOp) :
    after A (l ++ l') = after (after A l) l' := by
  -- A write changes the array for the rest, so the induction is over all arrays at once.
  induction l generalizing A with
  | nil => rfl
  | cons op rest ih =>
      cases op with
      | read p seen => exact ih A
      | write p bytes => exact ih (put A p bytes)

theorem replays_append (A : PageId → Bytes) (l l' : List PageOp) :
    Replays A (l ++ l') ↔ Replays A l ∧ Replays (after A l) l' := by
  induction l generalizing A with
  | nil => simp [Replays, after]
  | cons op rest ih =>
      cases op with
      | read p seen => simp only [List.cons_append, Replays, after, ih, and_assoc]
      | write p bytes => simp only [List.cons_append, Replays, after, ih]

/-- What an array has at a page afterwards depends on what it had there. -/
theorem after_congr {A B : PageId → Bytes} {p : PageId} (h : A p = B p) (l : List PageOp) :
    after A l p = after B l p := by
  induction l generalizing A B with
  | nil => exact h
  | cons op rest ih =>
      cases op with
      | read q seen => exact ih h
      | write q bytes =>
          apply ih
          simp only [put, h]

/-- A page that is not written keeps its bytes. -/
theorem after_of_not_written (A : PageId → Bytes) {p : PageId} {l : List PageOp}
    (h : ∀ bytes, write p bytes ∉ l) : after A l p = A p := by
  induction l generalizing A with
  | nil => rfl
  | cons op rest ih =>
      have hrest : ∀ bytes, write p bytes ∉ rest := fun b hb => h b (List.mem_cons_of_mem _ hb)
      cases op with
      | read q seen => exact ih A hrest
      | write q bytes =>
          -- Were it this page, the write would be one of those that are excluded.
          have hne : p ≠ q := by
            rintro rfl
            exact h bytes List.mem_cons_self
          unfold after
          rw [ih _ hrest, put, if_neg hne]

/-- Whether accesses can be replayed depends on the pages that they are to. -/
theorem replays_congr {A B : PageId → Bytes} {l : List PageOp}
    (h : ∀ op ∈ l, A op.page = B op.page) : Replays A l → Replays B l := by
  induction l generalizing A B with
  | nil => exact id
  | cons op rest ih =>
      have hrest : ∀ op ∈ rest, A op.page = B op.page :=
        fun o ho => h o (List.mem_cons_of_mem _ ho)
      cases op with
      | read q seen =>
          rintro ⟨hs, hr⟩
          exact ⟨hs.trans (h _ List.mem_cons_self), ih hrest hr⟩
      | write q bytes =>
          apply ih
          intro o ho
          simp only [put, hrest o ho]

end PageOp

namespace Pool

variable {ρ : Type}

/-- The images are as before. A copy whose owner is new was changed by the given transaction, which
    may write the page. -/
structure Spares (P : Pool ρ) (t : TxnId) (Q : Pool ρ) : Prop where
  tables : Q.tables = P.tables
  locks : Q.locks = P.locks
  ids : Q.ids = P.ids
  faults : Q.faults = P.faults
  coherent : Q.Coherent
  stored : Q.stored = P.stored
  owner : ∀ p u, Q.owner? p = some u →
    P.owner? p = some u ∨ u = t ∧ P.locks.mode? t p = some .exclusive
  pinned : P.Pinned → Q.Pinned
  readable : P.Readable → Q.Readable

/-- The images are as before, and what is shown is what some accesses have made of it. -/
structure Performs (P : Pool ρ) (t : TxnId) (ops : List PageOp) (Q : Pool ρ) : Prop
    extends Spares P t Q where
  replays : PageOp.Replays P.shown ops
  shown : Q.shown = PageOp.after P.shown ops

theorem Quiet.performs {P Q : Pool ρ} (h : Quiet P Q) (hc : Q.Coherent) (t : TxnId) :
    Performs P t [] Q where
  tables := h.tables
  locks := h.locks
  ids := h.ids
  faults := h.faults
  coherent := hc
  stored := h.stored
  owner _ _ hu := Or.inl (h.owner ▸ hu)
  pinned := h.pinned
  readable := h.readable
  replays := trivial
  shown := h.shown

theorem Spares.trans {P Q R : Pool ρ} {t : TxnId} (h : Spares P t Q) (h' : Spares Q t R) :
    Spares P t R where
  tables := h'.tables.trans h.tables
  locks := h'.locks.trans h.locks
  ids := h'.ids.trans h.ids
  faults := h'.faults.trans h.faults
  coherent := h'.coherent
  stored := h'.stored.trans h.stored
  owner p u hu := by
    rcases h'.owner p u hu with hq | ⟨ht, hm⟩
    · exact h.owner p u hq
    · -- The second step judges by the locks after the first, which are the same.
      rw [h.locks] at hm
      exact Or.inr ⟨ht, hm⟩
  pinned := h'.pinned ∘ h.pinned
  readable := h'.readable ∘ h.readable

theorem Performs.trans {P Q R : Pool ρ} {t : TxnId} {l l' : List PageOp}
    (h : Performs P t l Q) (h' : Performs Q t l' R) : Performs P t (l ++ l') R where
  toSpares := h.toSpares.trans h'.toSpares
  replays := by
    -- The second list is replayed on what the first one left.
    rw [PageOp.replays_append, ← h.shown]
    exact ⟨h.replays, h'.replays⟩
  shown := by rw [PageOp.after_append, ← h.shown, h'.shown]

theorem Performs.nil {P : Pool ρ} (hc : P.Coherent) (t : TxnId) : Performs P t [] P :=
  (Quiet.refl P).performs hc t

/-- A read of what is shown. -/
theorem performs_read {P : Pool ρ} (hc : P.Coherent) (t : TxnId) (p : PageId) :
    Performs P t [.read p (P.shown p)] P :=
  { Performs.nil hc t with replays := ⟨rfl, trivial⟩ }

/-! ## Writing -/

/-- Change the bytes that a handle is on by some work that may fail. The copy is dirty from the
    moment the work begins. -/
def alter {α : Type} (P : Pool ρ) (h : Handle) (work : Bytes → Except StoreError (α × Bytes)) :
    Pool ρ × Except StoreError α :=
  match P.openWrite h with
  | .error e => (P, .error e)
  | .ok Q =>
    match work (Q.bytesOf h) with
    | .error e => (Q, .error e)
    | .ok (a, bytes) => (Q.setBytes h bytes, .ok a)

/-- The pool after a write by a handle. -/
def written (P : Pool ρ) (h : Handle) (bytes : Bytes) : Pool ρ := (P.marked h).setBytes h bytes

section Grasps

variable {P : Pool ρ} (hc : P.Coherent) {h : Handle} (hg : P.Grasps h)

include hg

/-- A write is refused, or begins and fails, or replaces the bytes. -/
theorem alter_cases {α : Type} (work : Bytes → Except StoreError (α × Bytes)) :
    (∃ e, P.checkWrite h = .error e ∧ P.alter h work = (P, .error e)) ∨
    (P.checkWrite h = .ok () ∧
      ∃ e, work (P.bytesOf h) = .error e ∧ P.alter h work = (P.marked h, .error e)) ∨
    (P.checkWrite h = .ok () ∧ ∃ a bytes, work (P.bytesOf h) = .ok (a, bytes) ∧
      P.alter h work = (P.written h bytes, .ok a)) := by
  unfold alter
  rw [openWrite_eq]
  -- The two ways to fail differ: a refused write leaves no mark, one that begins does.
  cases hw : P.checkWrite h with
  | error e => exact Or.inl ⟨e, rfl, rfl⟩
  | ok _ =>
      simp only [Except.map, bytesOf_marked hg]
      cases hwork : work (P.bytesOf h) with
      | error e => exact Or.inr (Or.inl ⟨trivial, e, rfl, rfl⟩)
      | ok r => exact Or.inr (Or.inr ⟨trivial, r.1, r.2, rfl, rfl⟩)

/-- What comes of a change depends on whether it is allowed and on the bytes that are there. -/
theorem result_alter {α : Type} (work : Bytes → Except StoreError (α × Bytes)) :
    (P.alter h work).2 = match P.checkWrite h with
      | .error e => .error e
      | .ok _ => (work (P.bytesOf h)).map Prod.fst := by
  rcases alter_cases hg work with ⟨e, hw, heq⟩ | ⟨hw, e, hwork, heq⟩ | ⟨hw, a, bytes, hwork, heq⟩
  · rw [heq, hw]
  · rw [heq, hw, hwork]
    rfl
  · rw [heq, hw, hwork]
    rfl

omit hg in
theorem checkWrite_of_alter {α : Type} {work : Bytes → Except StoreError (α × Bytes)}
    {Q : Pool ρ} {a : α} (ha : P.alter h work = (Q, .ok a)) : P.checkWrite h = .ok () := by
  unfold alter at ha
  rw [openWrite_eq] at ha
  cases hw : P.checkWrite h with
  | error e =>
      rw [hw] at ha
      cases ha
  | ok _ => rfl

theorem bytesOf_written (bytes : Bytes) : (P.written h bytes).bytesOf h = bytes := by
  rcases grasps_marked hg with ⟨page, hf, _⟩
  unfold written bytesOf setBytes
  rw [Cache.frame?_updateFrame, if_pos rfl, hf]
  rfl

include hc

theorem spares_marked (hw : P.checkWrite h = .ok ()) : Spares P h.txn (P.marked h) where
  tables := rfl
  locks := rfl
  ids := rfl
  faults := rfl
  coherent := coherent_marked hg hc
  stored := stored_congr rfl rfl
  owner p u hu := by
    rw [owner?_marked hg hc.tidy] at hu
    -- The mark gives the copy a new owner only if it was clean; that owner has passed the check.
    split at hu
    · rename_i hp
      refine Or.inr ⟨(Option.some.inj hu).symm, ?_⟩
      rw [hp.1]
      exact mode?_of_checkWrite hw
    · exact Or.inl hu
  pinned := id
  readable := id

theorem spares_written (hw : P.checkWrite h = .ok ()) {bytes : Bytes}
    (hs : bytes.size = (P.bytesOf h).size) : Spares P h.txn (P.written h bytes) := by
  have hm := spares_marked hc hg hw
  -- The copy is marked already, so its new bytes need not be those of the image.
  have hd : ∀ page, (P.marked h).cache.frame? h.frame = some page → page.dirtiedBy ≠ none := by
    intro page hf
    unfold marked at hf
    rw [Cache.frame?_updateFrame, if_pos rfl] at hf
    rcases Option.map_eq_some_iff.1 hf with ⟨page', _, rfl⟩
    exact fun hn => by cases hn
  rw [← bytesOf_marked hg] at hs
  exact { hm with
    coherent := coherent_setBytes (grasps_marked hg) hm.coherent hs hd
    stored := stored_congr rfl rfl
    owner := fun p u hu => by
      rw [written, owner?_setBytes (grasps_marked hg) hm.coherent.tidy] at hu
      exact hm.owner p u hu }

end Grasps

section resident

variable {P : Pool ρ} (hc : P.Coherent) {h : Handle}
  (hr : P.cache.resident.get? h.page = some h.frame) (hw : P.checkWrite h = .ok ())

include hc hr hw

/-- Marking a copy does not show. -/
theorem performs_marked : Performs P h.txn [] (P.marked h) where
  toSpares := spares_marked hc (grasps_of_resident hc hr) hw
  replays := trivial
  shown := shown_marked (grasps_of_resident hc hr) hc.tidy

/-- Writing by a handle on the resident copy is a write of its page. -/
theorem performs_written {bytes : Bytes} (hs : bytes.size = (P.bytesOf h).size) :
    Performs P h.txn [.write h.page bytes] (P.written h bytes) where
  toSpares := spares_written hc (grasps_of_resident hc hr) hw hs
  replays := trivial
  shown := by
    have hg := grasps_of_resident hc hr
    funext q
    unfold written
    rw [shown_setBytes (grasps_marked hg) (coherent_marked hg hc).tidy, shown_marked hg hc.tidy]
    -- The mark moves no page to another frame.
    have hr' : (P.marked h).cache.resident.get? h.page = some h.frame := hr
    simp only [hr', and_true, PageOp.after, PageOp.put]

end resident

/-! ## Growing -/

/-- A table that grows by a page shows no difference: the page was one of zeros before. -/
theorem performs_grown {P : Pool ρ} (hc : P.Coherent) {t : TableId} {f : TableFile}
    (hf : P.tables.get? t = some f) (u : TxnId) :
    Performs P u [] { P with disk := f.grown P.disk } := by
  have hstored := stored_grown hc.laid hf
  have hle : f.pagesOn P.disk ≤ f.pagesOn (f.grown P.disk) := by
    rw [f.pagesOn_grown]
    exact Nat.le_succ _
  refine ⟨⟨rfl, rfl, rfl, rfl, ⟨laid_grown hc.laid hf, hc.tidy, ?_⟩, hstored, ?_, id, id⟩,
    trivial, ?_⟩
  · intro p page hp
    have hm := hc.copies p page hp
    rcases hm.here with ⟨g, hg, hn⟩
    refine ⟨⟨g, hg, Nat.lt_of_lt_of_le hn (pagesOn_put hc.laid hf _ hle hg)⟩, ?_, ?_⟩
    · rw [hstored]
      exact hm.size
    · rw [hstored]
      exact hm.clean
  · exact fun p v hv => Or.inl hv
  · funext q
    exact shown_congr rfl (congrFun hstored q)

end Pool

end RowStore
