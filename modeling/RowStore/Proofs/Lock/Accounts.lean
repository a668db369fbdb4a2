import Mathlib.Data.List.Nodup
import RowStore.Lock.Table

/-!
# The Two Accounts of the Lock Table

The lock table says twice who holds what: by page, where it decides what can be
granted, and by transaction, where it says what is given back at the end. Here is
what each operation does to either account, and that the two say the same.

They agree as long as a transaction makes one call at a time. Then a call that
waits asks for more than its transaction has, and nothing the transaction does
meanwhile can change that, because all it can do is give a lock back. A lock that
is granted at last is therefore new or stronger than the one it replaces.

`Sound` says this of a table, together with the rule that a writer is alone on its
page. Each operation keeps it under the condition that its callers keep.

An operation touches the calls that wait in one way only: it wakes those of some
pages. `Stirred` says that, and that the holders of all other pages are as before.

## Main definitions

* `Holders.modeOf`: How a transaction holds a page, by the account of the page.
* `LockTable.Backed`: What each account owes the other, whatever calls there are.
* `LockTable.Agreed`: The accounts agree, and writers are alone.
* `LockTable.Sound`: The same, and who waits lacks what it waits for.
* `LockTable.Stirred`: Calls were woken, and the holders of the other pages are as before.

## Theorems

* `Holders.mem_blockers`: Who stands in the way of a request.
* `Holders.modeOf_grant`, `Holders.modeOf_release`: The account of a page after a change.
* `holdersOf_grant`, `holdersOf_release`, `mode?_grant`, `mode?_releaseAll`: Both accounts
  after each operation.
* `judge_cases`: The three things that can become of a request.
* `sound_request`, `sound_resume`, `sound_release`, `sound_releaseAll`: Every operation keeps the
  accounts in agreement.
-/

namespace RowStore

namespace Holders

/-- How a transaction holds the page. -/
def modeOf (h : Holders) (t : TxnId) : Option LockMode :=
  if h.exclusive = some t then some .exclusive
  else if t ∈ h.shared then some .shared
  else none

theorem modeOf_eq_exclusive (h : Holders) (t : TxnId) :
    h.modeOf t = some .exclusive ↔ h.exclusive = some t := by
  unfold modeOf
  split
  · rename_i he
    simp only [he]
  · rename_i he
    split <;> simp [he]

theorem holds_shared (h : Holders) (t : TxnId) : h.holds t .shared = (h.modeOf t).isSome := by
  by_cases hx : h.exclusive = some t
  · simp [holds, modeOf, hx]
  · by_cases hs : t ∈ h.shared <;> simp [holds, modeOf, hx, hs]

theorem holds_exclusive (h : Holders) (t : TxnId) :
    h.holds t .exclusive = (h.modeOf t == some .exclusive) := by
  rw [Bool.eq_iff_iff, beq_iff_eq, modeOf_eq_exclusive]
  simp [holds]

/-- Whether a lock is enough depends on how the page is held and on nothing else. -/
theorem holds_congr {h h' : Holders} {t : TxnId} (heq : h'.modeOf t = h.modeOf t)
    (mode : LockMode) : h'.holds t mode = h.holds t mode := by
  cases mode with
  | shared => rw [holds_shared, holds_shared, heq]
  | exclusive => rw [holds_exclusive, holds_exclusive, heq]

theorem isHeldBy_eq (h : Holders) (t : TxnId) : h.isHeldBy t = (h.modeOf t).isSome := by
  rw [← holds_shared]
  simp only [isHeldBy, holds, Bool.or_comm]

/-- Those in the way of a reader are other writers, those in the way of a writer all others. -/
theorem mem_blockers (h : Holders) (t : TxnId) (mode : LockMode) (u : TxnId) :
    u ∈ h.blockers t mode ↔
      u ≠ t ∧ (h.exclusive = some u ∨ mode = .exclusive ∧ u ∈ h.shared) := by
  simp only [blockers, List.mem_map, List.mem_filter, all, List.mem_append, Option.mem_toList,
    Bool.and_eq_true, decide_eq_true_eq, Bool.not_eq_true']
  constructor
  · rintro ⟨e, ⟨hmem, hne, hc⟩, rfl⟩
    refine ⟨hne, ?_⟩
    rcases hmem with ⟨v, hv, rfl⟩ | ⟨v, hv, rfl⟩
    · exact Or.inl hv
    · cases mode with
      | shared => cases hc
      | exclusive => exact Or.inr ⟨rfl, hv⟩
  · rintro ⟨hne, hx | ⟨rfl, hs⟩⟩
    · refine ⟨(u, .exclusive), ⟨Or.inl ⟨u, hx, rfl⟩, hne, ?_⟩, rfl⟩
      cases mode <;> rfl
    · exact ⟨(u, .shared), ⟨Or.inr ⟨u, hs, rfl⟩, hne, rfl⟩, rfl⟩

theorem blockers_eq_nil (h : Holders) (t : TxnId) (mode : LockMode) :
    h.blockers t mode = [] ↔
      ∀ u, u ≠ t → h.exclusive ≠ some u ∧ (mode = .exclusive → u ∉ h.shared) := by
  rw [List.eq_nil_iff_forall_not_mem]
  constructor
  · intro hn u hu
    exact ⟨fun hx => hn u ((h.mem_blockers t mode u).2 ⟨hu, Or.inl hx⟩),
      fun hm hs => hn u ((h.mem_blockers t mode u).2 ⟨hu, Or.inr ⟨hm, hs⟩⟩)⟩
  · intro hn u hu
    rcases (h.mem_blockers t mode u).1 hu with ⟨hne, hx | ⟨hm, hs⟩⟩
    · exact (hn u hne).1 hx
    · exact (hn u hne).2 hm hs

/-- A grant affects no one else, because a writer would have been in its way. -/
theorem modeOf_grant_other (h : Holders) {t u : TxnId} {mode : LockMode}
    (hb : h.blockers t mode = []) (hu : u ≠ t) : (h.grant t mode).modeOf u = h.modeOf u := by
  have hne : h.exclusive ≠ some u := ((blockers_eq_nil h t mode).1 hb u hu).1
  cases mode with
  | shared =>
      by_cases hs : t ∈ h.shared <;> simp [grant, modeOf, hne, hs, hu]
  | exclusive =>
      have hx : (some t : Option TxnId) ≠ some u := fun h => hu (Option.some.inj h).symm
      simp [grant, modeOf, hx, hne, hu]

/-- Who lacks a lock to read is not the writer. -/
theorem not_writer_of_lacking {h : Holders} {t : TxnId} {mode : LockMode}
    (hl : h.holds t mode = false) : mode = .shared → h.exclusive ≠ some t := by
  rintro rfl hx
  rw [holds_shared, (modeOf_eq_exclusive _ _).2 hx] at hl
  cases hl

/-- A transaction that is granted no less than it has then has what it is granted, and no one else
    is affected. -/
theorem modeOf_grant (h : Holders) (t : TxnId) (mode : LockMode) (hb : h.blockers t mode = [])
    (ha : mode = .shared → h.exclusive ≠ some t) (u : TxnId) :
    (h.grant t mode).modeOf u = if u = t then some mode else h.modeOf u := by
  by_cases hu : u = t
  · subst hu
    rw [if_pos rfl]
    cases mode with
    | shared =>
        have hne := ha rfl
        by_cases hs : u ∈ h.shared <;> simp [grant, modeOf, hne, hs]
    | exclusive => simp only [grant, modeOf, if_true]
  · rw [if_neg hu, modeOf_grant_other h hb hu]

theorem modeOf_release (h : Holders) (t u : TxnId) :
    (h.release t).modeOf u = if u = t then none else h.modeOf u := by
  unfold modeOf release
  simp only [List.mem_filter, decide_eq_true_eq, ne_eq]
  by_cases hu : u = t
  · subst hu
    by_cases hx : h.exclusive = some u <;> simp [hx]
  · by_cases hx : h.exclusive = some t
    · have hne : t ≠ u := fun h => hu h.symm
      simp [hx, hu, hne]
    · simp [hx, hu]

/-- Who lacked a lock still lacks it when someone has left the page. -/
theorem holds_release (h : Holders) (t u : TxnId) (mode : LockMode)
    (hl : h.holds u mode = false) : (h.release t).holds u mode = false := by
  by_cases hu : u = t
  · subst hu
    have hn : (h.release u).modeOf u = none := by
      rw [modeOf_release, if_pos rfl]
    cases mode with
    | shared =>
        rw [holds_shared, hn]
        rfl
    | exclusive =>
        rw [holds_exclusive, hn]
        rfl
  · rw [← hl]
    apply holds_congr
    rw [modeOf_release, if_neg hu]

/-- Taking off a page who is not on it changes nothing. -/
theorem release_of_modeOf_none (h : Holders) (t : TxnId) (hn : h.modeOf t = none) :
    h.release t = h := by
  have hx : h.exclusive ≠ some t := by
    intro hx
    rw [(h.modeOf_eq_exclusive t).2 hx] at hn
    cases hn
  have hs : t ∉ h.shared := by
    intro hs
    simp [modeOf, hx, hs] at hn
  simp only [release, if_neg hx]
  congr 1
  rw [List.filter_eq_self]
  intro u hu
  exact decide_eq_true fun h => hs (h ▸ hu)

/-- No one becomes the writer when someone leaves. -/
theorem exclusive_of_release {h : Holders} {t u : TxnId} (hu : (h.release t).exclusive = some u) :
    h.exclusive = some u := by
  unfold release at hu
  simp only at hu
  split at hu
  · cases hu
  · exact hu

/-- A writer is alone on the page. -/
def Alone (h : Holders) : Prop := ∀ t, h.exclusive = some t → h.shared = []

theorem alone_grant (h : Holders) (t : TxnId) (mode : LockMode) (hb : h.blockers t mode = [])
    (ha : mode = .shared → h.exclusive ≠ some t) : (h.grant t mode).Alone := by
  rw [blockers_eq_nil] at hb
  intro u hu
  cases mode with
  | shared =>
      -- Granted for reading, so there is no writer to be alone.
      exfalso
      by_cases hut : u = t
      · subst hut
        exact ha rfl hu
      · exact (hb u hut).1 hu
  | exclusive =>
      simp only [grant, List.filter_eq_nil_iff, decide_eq_true_eq, ne_eq, not_not]
      intro v hv
      by_contra hvt
      exact (hb v hvt).2 rfl hv

theorem alone_release (h : Holders) (t : TxnId) (ha : h.Alone) : (h.release t).Alone := by
  intro u hu
  simp only [release, ha u (exclusive_of_release hu), List.filter_nil]

end Holders

namespace LockTable

/-! ## The account by page -/

theorem holders_eq_of_isFree (h : Holders) (hf : h.isFree = true) : h = {} := by
  rcases h with ⟨shared, exclusive⟩
  simp only [Holders.isFree, Bool.and_eq_true, Option.isNone_iff_eq_none, List.isEmpty_iff] at hf
  rcases hf with ⟨rfl, rfl⟩
  rfl

theorem holdersOf_setHolders (l : LockTable) (p q : PageId) (h : Holders) :
    (l.setHolders p h).holdersOf q = if q = p then h else l.holdersOf q := by
  unfold setHolders holdersOf
  by_cases hf : h.isFree = true
  · simp only [if_pos hf, Assoc.get?_erase]
    split
    · exact (holders_eq_of_isFree h hf).symm
    · rfl
  · simp only [if_neg hf, Assoc.get?_insert]
    split <;> rfl

@[simp]
theorem holdersOf_wake (l : LockTable) (p q : PageId) :
    (l.wake p).holdersOf q = l.holdersOf q := rfl

theorem holdersOf_grant (l : LockTable) (t : TxnId) (p : PageId) (mode : LockMode) (q : PageId) :
    (l.grant t p mode).holdersOf q =
      if q = p then (l.holdersOf p).grant t mode else l.holdersOf q :=
  l.holdersOf_setHolders p q _

theorem holdersOf_vacate (l : LockTable) (t : TxnId) (p q : PageId) :
    (l.vacate t p).holdersOf q = if q = p then (l.holdersOf p).release t else l.holdersOf q := by
  unfold vacate
  simp only
  split
  · rw [holdersOf_wake, holdersOf_setHolders]
  · rename_i hn
    -- Who is not on the page need not be taken off it.
    rw [Holders.isHeldBy_eq, Bool.not_eq_true, Option.isSome_eq_false_iff,
      Option.isNone_iff_eq_none] at hn
    split
    · rename_i h
      rw [h, Holders.release_of_modeOf_none _ _ hn]
    · rfl

theorem holdersOf_release (l : LockTable) (t : TxnId) (p q : PageId) :
    (l.release t p).holdersOf q = if q = p then (l.holdersOf q).release t else l.holdersOf q := by
  refine (l.holdersOf_vacate t p q).trans ?_
  split
  · rename_i h
    rw [h]
  · rfl

theorem holdersOf_foldl_vacate (t : TxnId) (pages : List PageId) (l : LockTable) (q : PageId) :
    (pages.foldl (fun l p => l.vacate t p) l).holdersOf q =
      if q ∈ pages then (l.holdersOf q).release t else l.holdersOf q := by
  -- Page after page: a visit changes the holders of its own page only.
  induction pages generalizing l with
  | nil => simp
  | cons p r ih =>
      rw [List.foldl_cons, ih, holdersOf_vacate]
      by_cases hq : q = p
      · subst hq
        by_cases hr : q ∈ r
        · -- The page is listed twice: the second visit finds the transaction gone.
          have hn : ((l.holdersOf q).release t).modeOf t = none := by
            rw [Holders.modeOf_release, if_pos rfl]
          simp [hr, Holders.release_of_modeOf_none _ _ hn]
        · simp [hr]
      · simp [hq]

/-! ## The account by transaction -/

theorem heldBy_vacate (l : LockTable) (t u : TxnId) (p : PageId) :
    (l.vacate t p).heldBy u = l.heldBy u := by
  unfold vacate
  simp only
  split <;> rfl

theorem mode?_vacate (l : LockTable) (t u : TxnId) (p q : PageId) :
    (l.vacate t p).mode? u q = l.mode? u q := by
  simp only [mode?, heldBy_vacate]

theorem mode?_foldl_vacate (t u : TxnId) (pages : List PageId) (l : LockTable) (q : PageId) :
    (pages.foldl (fun l p => l.vacate t p) l).mode? u q = l.mode? u q := by
  induction pages generalizing l with
  | nil => rfl
  | cons p r ih => rw [List.foldl_cons, ih, mode?_vacate]

theorem mode?_grant (l : LockTable) (t : TxnId) (p : PageId) (mode : LockMode) (u : TxnId)
    (q : PageId) :
    (l.grant t p mode).mode? u q = if u = t ∧ q = p then some mode else l.mode? u q := by
  have hh : (l.grant t p mode).heldBy u =
      if u = t then (l.heldBy t).insert p mode else l.heldBy u := by
    simp only [grant, heldBy, wake, setHolders, Assoc.get?_insert]
    split <;> rfl
  unfold mode?
  rw [hh]
  by_cases hu : u = t
  · subst hu
    rw [if_pos rfl, Assoc.get?_insert]
    simp
  · simp [hu]

theorem get?_of_size_eq_zero {κ : Type} {α : Type} [DecidableEq κ] (m : Assoc κ α)
    (h : m.size = 0) (k : κ) : m.get? k = none := by
  have hn : m.entries = [] := List.eq_nil_of_length_eq_zero h
  simp [Assoc.get?, hn]

/-- An account that is left empty is dropped, and an account that was dropped is empty. -/
theorem get?_settle_account (held : Assoc TxnId (Assoc PageId LockMode)) (t u : TxnId)
    (rest : Assoc PageId LockMode) (q : PageId) :
    (((if rest.size = 0 then held.erase t else held.insert t rest).get? u).getD ∅).get? q =
      if u = t then rest.get? q else ((held.get? u).getD ∅).get? q := by
  -- A dropped account reads as an empty one, and this one is empty.
  by_cases hz : rest.size = 0
  · rw [if_pos hz, Assoc.get?_erase]
    split
    · rw [get?_of_size_eq_zero rest hz]
      rfl
    · rfl
  · rw [if_neg hz, Assoc.get?_insert]
    split <;> rfl

theorem mode?_release (l : LockTable) (t : TxnId) (p : PageId) (u : TxnId) (q : PageId) :
    (l.release t p).mode? u q = if u = t ∧ q = p then none else l.mode? u q := by
  have hh : (l.release t p).mode? u q =
      if u = t then ((l.heldBy t).erase p).get? q else l.mode? u q :=
    get?_settle_account l.held t u ((l.heldBy t).erase p) q
  rw [hh]
  by_cases hu : u = t
  · subst hu
    rw [if_pos rfl, Assoc.get?_erase]
    simp only [true_and, mode?]
  · simp [hu]

theorem mode?_releaseAll (l : LockTable) (t u : TxnId) (q : PageId) :
    (l.releaseAll t).mode? u q = if u = t then none else l.mode? u q := by
  have hg : ∀ l' : LockTable, LockTable.mode? { l' with graph := l'.graph.forget t } u q =
      l'.mode? u q := fun _ => rfl
  unfold releaseAll
  simp only
  rw [hg, mode?_foldl_vacate]
  simp only [mode?, heldBy]
  by_cases hu : u = t
  · subst hu
    rw [Assoc.get?_erase_self, if_pos rfl]
    rfl
  · rw [Assoc.get?_erase_other _ hu, if_neg hu]

theorem mem_exclusivePages (l : LockTable) (t : TxnId) (p : PageId) :
    p ∈ l.exclusivePages t ↔ l.mode? t p = some .exclusive := by
  unfold exclusivePages mode?
  simp only [List.mem_map, List.mem_filter, decide_eq_true_eq]
  constructor
  · rintro ⟨e, ⟨he, hx⟩, rfl⟩
    rw [← hx]
    exact (Assoc.mem_entries_iff _ e.1 e.2).1 he
  · intro h
    exact ⟨(p, .exclusive), ⟨(Assoc.mem_entries_iff _ p _).2 h, rfl⟩, rfl⟩

/-! ## Those who wait -/

/-- A call that waits for one of some pages has been woken. -/
def rouse (pages : PageId → Bool) (w : Waiter) : Waiter :=
  if pages w.page then { w with woken := true } else w

@[simp]
theorem rouse_call (pages : PageId → Bool) (w : Waiter) : (rouse pages w).call = w.call := by
  unfold rouse
  split <;> rfl

@[simp]
theorem rouse_txn (pages : PageId → Bool) (w : Waiter) : (rouse pages w).txn = w.txn := by
  unfold rouse
  split <;> rfl

@[simp]
theorem rouse_page (pages : PageId → Bool) (w : Waiter) : (rouse pages w).page = w.page := by
  unfold rouse
  split <;> rfl

@[simp]
theorem rouse_mode (pages : PageId → Bool) (w : Waiter) : (rouse pages w).mode = w.mode := by
  unfold rouse
  split <;> rfl

theorem waiters_wake (l : LockTable) (p : PageId) :
    (l.wake p).waiters = l.waiters.map (rouse fun q => decide (q = p)) := by
  simp only [wake]
  congr 1
  funext w
  simp [rouse]

/-- Who still sleeps was not woken. -/
theorem rouse_asleep {pages : PageId → Bool} {w : Waiter} (h : (rouse pages w).woken = false) :
    pages w.page = false ∧ rouse pages w = w := by
  unfold rouse at h ⊢
  split
  · rename_i hp
    rw [if_pos hp] at h
    cases h
  · rename_i hp
    exact ⟨Bool.not_eq_true _ ▸ hp, rfl⟩

theorem rouse_rouse (pages pages' : PageId → Bool) (w : Waiter) :
    rouse pages' (rouse pages w) = rouse (fun p => pages p || pages' p) w := by
  by_cases h : pages w.page <;> by_cases h' : pages' w.page <;> simp [rouse, h, h']

/-- The calls that wait are the same but for some that were woken, and every page whose holders
    are not as before is one for which all were woken. -/
structure Stirred (l l' : LockTable) (pages : PageId → Bool) : Prop where
  waiters : l'.waiters = l.waiters.map (rouse pages)
  holders : ∀ p, pages p = false → l'.holdersOf p = l.holdersOf p

theorem Stirred.refl (l : LockTable) : Stirred l l fun _ => false where
  waiters := by
    have hid : rouse (fun _ => false) = id := rfl
    rw [hid, List.map_id]
  holders _ _ := rfl

theorem Stirred.trans {l l' l'' : LockTable} {pages pages' : PageId → Bool}
    (h : Stirred l l' pages) (h' : Stirred l' l'' pages') :
    Stirred l l'' fun p => pages p || pages' p where
  waiters := by
    rw [h'.waiters, h.waiters, List.map_map]
    congr 1
    funext w
    exact rouse_rouse pages pages' w
  holders p hp := by
    rw [Bool.or_eq_false_iff] at hp
    rw [h'.holders p hp.2, h.holders p hp.1]

theorem stirred_grant (l : LockTable) (t : TxnId) (p : PageId) (mode : LockMode) :
    Stirred l (l.grant t p mode) fun q => decide (q = p) where
  waiters := waiters_wake _ p
  holders q hq := by rw [holdersOf_grant, if_neg (of_decide_eq_false hq)]

theorem stirred_vacate (l : LockTable) (t : TxnId) (p : PageId) :
    ∃ pages, Stirred l (l.vacate t p) pages := by
  by_cases hh : (l.holdersOf p).isHeldBy t = true
  · refine ⟨fun q => decide (q = p), ?_, ?_⟩
    · simp only [vacate, if_pos hh, waiters_wake, setHolders]
    · intro q hq
      rw [holdersOf_vacate, if_neg (of_decide_eq_false hq)]
  · have he : l.vacate t p = l := by simp only [vacate, if_neg hh]
    rw [he]
    exact ⟨_, Stirred.refl l⟩

theorem stirred_foldl_vacate (t : TxnId) (pages : List PageId) (l : LockTable) :
    ∃ S, Stirred l (pages.foldl (fun l p => l.vacate t p) l) S := by
  induction pages generalizing l with
  | nil => exact ⟨_, Stirred.refl l⟩
  | cons p r ih =>
      rcases l.stirred_vacate t p with ⟨S, hS⟩
      rcases ih (l.vacate t p) with ⟨S', hS'⟩
      exact ⟨_, hS.trans hS'⟩

theorem stirred_release (l : LockTable) (t : TxnId) (p : PageId) :
    ∃ S, Stirred l (l.release t p) S := by
  rcases l.stirred_vacate t p with ⟨S, hw, hh⟩
  exact ⟨S, hw, hh⟩

theorem stirred_releaseAll (l : LockTable) (t : TxnId) : ∃ S, Stirred l (l.releaseAll t) S := by
  rcases stirred_foldl_vacate t (l.heldBy t).keys { l with held := l.held.erase t } with
    ⟨S, hw, hh⟩
  exact ⟨S, hw, hh⟩

/-! ## What each account owes the other -/

/-- Who writes a page by its own account is the writer of the page, and who is on a page has it on
    its account. This much is true however many calls a transaction makes at a time. -/
structure Backed (l : LockTable) : Prop where
  exclusive : ∀ t p, l.mode? t p = some .exclusive → (l.holdersOf p).exclusive = some t
  covered : ∀ t p, l.mode? t p = none → (l.holdersOf p).modeOf t = none

theorem backed_empty : Backed {} where
  exclusive _ _ h := by cases h
  covered _ _ _ := rfl

section Backed

variable {l : LockTable} (hb : l.Backed)

include hb

/-- Who gives back all its locks is taken off all pages. -/
theorem Backed.holdersOf_releaseAll (t : TxnId) (q : PageId) :
    (l.releaseAll t).holdersOf q = (l.holdersOf q).release t := by
  have hg : ∀ l' : LockTable, LockTable.holdersOf { l' with graph := l'.graph.forget t } q =
      l'.holdersOf q := fun _ => rfl
  -- Each page of the account is vacated. The other pages have to be shown to be free of it.
  unfold releaseAll
  simp only
  rw [hg, holdersOf_foldl_vacate]
  split
  · rfl
  · -- By its own account the transaction is not on the page, so by the page's it is not either.
    rename_i hq
    rw [Assoc.mem_keys_iff, Bool.not_eq_true, Option.isSome_eq_false_iff,
      Option.isNone_iff_eq_none] at hq
    exact (Holders.release_of_modeOf_none _ _ (hb.covered t q hq)).symm

theorem backed_grant {t : TxnId} {p : PageId} {mode : LockMode}
    (hfree : l.blockers t p mode = []) : (l.grant t p mode).Backed where
  exclusive u q h := by
    rw [mode?_grant] at h
    rw [holdersOf_grant]
    by_cases hu : u = t ∧ q = p
    · rw [if_pos hu] at h
      cases h
      rw [if_pos hu.2, hu.1]
      rfl
    · rw [if_neg hu] at h
      have hx := hb.exclusive u q h
      by_cases hq : q = p
      · subst hq
        rw [if_pos rfl, ← Holders.modeOf_eq_exclusive,
          Holders.modeOf_grant_other _ hfree fun h => hu ⟨h, rfl⟩, Holders.modeOf_eq_exclusive]
        exact hx
      · rw [if_neg hq]
        exact hx
  covered u q h := by
    rw [mode?_grant] at h
    rw [holdersOf_grant]
    by_cases hu : u = t ∧ q = p
    · rw [if_pos hu] at h
      cases h
    · rw [if_neg hu] at h
      have hn := hb.covered u q h
      by_cases hq : q = p
      · subst hq
        rw [if_pos rfl, Holders.modeOf_grant_other _ hfree fun h => hu ⟨h, rfl⟩]
        exact hn
      · rw [if_neg hq]
        exact hn

/-- A transaction is taken off some pages by both accounts. -/
theorem Backed.vacated {l' : LockTable} {t : TxnId} {S : PageId → Prop} [DecidablePred S]
    (hm : ∀ u q, l'.mode? u q = if u = t ∧ S q then none else l.mode? u q)
    (hh : ∀ q, l'.holdersOf q = if S q then (l.holdersOf q).release t else l.holdersOf q) :
    l'.Backed := by
  have hmode : ∀ u q, (l'.holdersOf q).modeOf u =
      if u = t ∧ S q then none else (l.holdersOf q).modeOf u := by
    intro u q
    rw [hh]
    by_cases hq : S q
    · rw [if_pos hq, Holders.modeOf_release]
      simp only [hq, and_true]
    · simp only [hq, and_false, if_false]
  refine ⟨fun u q h => ?_, fun u q h => ?_⟩
  · rw [← Holders.modeOf_eq_exclusive, hmode]
    rw [hm] at h
    split at h
    · cases h
    · rename_i hu
      rw [if_neg hu, Holders.modeOf_eq_exclusive]
      exact hb.exclusive u q h
  · rw [hmode]
    rw [hm] at h
    split at h
    · rename_i hu
      exact if_pos hu
    · rename_i hu
      rw [if_neg hu]
      exact hb.covered u q h

end Backed

/-! ## Agreement -/

/-- The two accounts agree, and a writer is alone on its page. -/
structure Agreed (l : LockTable) : Prop where
  agree : ∀ t p, l.mode? t p = (l.holdersOf p).modeOf t
  alone : ∀ p, (l.holdersOf p).Alone

theorem agreed_empty : Agreed {} where
  agree _ _ := rfl
  alone _ _ h := by cases h

/-- What the pages say after a grant differs in one place only, and there it is what was granted. -/
theorem modeOf_granted {l : LockTable} {t : TxnId} {p : PageId} {mode : LockMode}
    (hb : l.blockers t p mode = []) (hmore : mode = .shared → (l.holdersOf p).exclusive ≠ some t)
    (u : TxnId) (q : PageId) : ((l.grant t p mode).holdersOf q).modeOf u =
      if u = t ∧ q = p then some mode else (l.holdersOf q).modeOf u := by
  rw [holdersOf_grant]
  by_cases hq : q = p
  · subst hq
    rw [if_pos rfl, Holders.modeOf_grant _ _ _ hb hmore]
    simp
  · simp [hq]

section Agreed

variable {l : LockTable} (ha : l.Agreed)

include ha

theorem Agreed.exclusive_iff (t : TxnId) (p : PageId) :
    l.mode? t p = some .exclusive ↔ (l.holdersOf p).exclusive = some t := by
  rw [ha.agree, Holders.modeOf_eq_exclusive]

/-- Who holds a page beside a writer is the writer. -/
theorem Agreed.eq_of_exclusive {t u : TxnId} {p : PageId} (ht : l.mode? t p = some .exclusive)
    (hu : l.mode? u p ≠ none) : u = t := by
  have hx := (ha.exclusive_iff t p).1 ht
  rw [ha.agree] at hu
  -- Anyone else would be a reader beside the writer.
  by_contra hne
  have hne' : (some t : Option TxnId) ≠ some u := fun h => hne (Option.some.inj h).symm
  exact hu (by simp [Holders.modeOf, hx, hne', ha.alone p t hx])

theorem Agreed.backed : l.Backed where
  exclusive t p := (ha.exclusive_iff t p).1
  covered t p h := (ha.agree t p).symm.trans h

theorem agreed_grant {t : TxnId} {p : PageId} {mode : LockMode} (hb : l.blockers t p mode = [])
    (hmore : mode = .shared → (l.holdersOf p).exclusive ≠ some t) : (l.grant t p mode).Agreed where
  agree u q := by rw [modeOf_granted hb hmore, mode?_grant, ha.agree]
  alone q := by
    rw [holdersOf_grant]
    split
    · exact Holders.alone_grant _ _ _ hb hmore
    · exact ha.alone q

theorem agreed_release (t : TxnId) (p : PageId) : (l.release t p).Agreed := by
  constructor
  · intro u q
    rw [holdersOf_release, mode?_release, ha.agree]
    by_cases hq : q = p
    · subst hq
      rw [if_pos rfl, Holders.modeOf_release]
      simp
    · simp [hq]
  · intro q
    rw [holdersOf_release]
    split
    · exact Holders.alone_release _ _ (ha.alone q)
    · exact ha.alone q

theorem agreed_releaseAll (t : TxnId) : (l.releaseAll t).Agreed := by
  constructor
  · intro u q
    rw [ha.backed.holdersOf_releaseAll, mode?_releaseAll, ha.agree, Holders.modeOf_release]
  · intro q
    rw [ha.backed.holdersOf_releaseAll]
    exact Holders.alone_release _ _ (ha.alone q)

end Agreed

/-- The two accounts agree, a writer is alone, no two calls that wait have a transaction or a
    number in common, and none waits for what its transaction has. -/
structure Sound (l : LockTable) : Prop where
  agree : ∀ t p, l.mode? t p = (l.holdersOf p).modeOf t
  alone : ∀ p, (l.holdersOf p).Alone
  txns : (l.waiters.map Waiter.txn).Nodup
  calls : (l.waiters.map Waiter.call).Nodup
  lacking : ∀ w ∈ l.waiters, (l.holdersOf w.page).holds w.txn w.mode = false

/-- A transaction has no call that waits. -/
def Idle (l : LockTable) (t : TxnId) : Prop := ∀ w ∈ l.waiters, w.txn ≠ t

instance (l : LockTable) (t : TxnId) : Decidable (l.Idle t) :=
  inferInstanceAs (Decidable (∀ w ∈ l.waiters, w.txn ≠ t))

theorem sound_empty : Sound {} where
  agree _ _ := rfl
  alone _ _ h := by cases h
  txns := List.nodup_nil
  calls := List.nodup_nil
  lacking w hw := by cases hw

section Sound

variable {l : LockTable} (hs : l.Sound)

include hs

theorem Sound.agreed : l.Agreed := ⟨hs.agree, hs.alone⟩

theorem Sound.exclusive_iff (t : TxnId) (p : PageId) :
    l.mode? t p = some .exclusive ↔ (l.holdersOf p).exclusive = some t :=
  hs.agreed.exclusive_iff t p

theorem Sound.backed : l.Backed := hs.agreed.backed

/-- The two calls of one transaction that wait are one. -/
theorem Sound.eq_of_txn {v w : Waiter} (hv : v ∈ l.waiters) (hw : w ∈ l.waiters)
    (h : v.txn = w.txn) : v = w :=
  List.inj_on_of_nodup_map hs.txns hv hw h

theorem Sound.eq_of_call {v w : Waiter} (hv : v ∈ l.waiters) (hw : w ∈ l.waiters)
    (h : v.call = w.call) : v = w :=
  List.inj_on_of_nodup_map hs.calls hv hw h

/-- Waking some calls and giving them other holders to look at keeps a table sound, if the accounts
    go on to agree and no one who waits is given anything. -/
theorem Sound.stir {l' : LockTable} {S : PageId → Bool} (hst : Stirred l l' S) (ha : l'.Agreed)
    (hlack : ∀ w ∈ l.waiters, (l'.holdersOf w.page).holds w.txn w.mode = false) : l'.Sound where
  agree := ha.agree
  alone := ha.alone
  txns := by
    have hf : (Waiter.txn ∘ rouse S) = Waiter.txn := funext (rouse_txn S)
    rw [hst.waiters, List.map_map, hf]
    exact hs.txns
  calls := by
    have hf : (Waiter.call ∘ rouse S) = Waiter.call := funext (rouse_call S)
    rw [hst.waiters, List.map_map, hf]
    exact hs.calls
  lacking := by
    intro w' hw'
    rw [hst.waiters] at hw'
    rcases List.mem_map.1 hw' with ⟨w, hw, rfl⟩
    rw [rouse_page, rouse_txn, rouse_mode]
    exact hlack w hw

theorem sound_grant (t : TxnId) (p : PageId) (mode : LockMode) (hidle : l.Idle t)
    (hb : l.blockers t p mode = []) (hl : (l.holdersOf p).holds t mode = false) :
    (l.grant t p mode).Sound := by
  have hmore := Holders.not_writer_of_lacking hl
  refine hs.stir (l.stirred_grant t p mode) (agreed_grant hs.agreed hb hmore) fun w hw => ?_
  -- Those who wait are others, for whom nothing has changed.
  rw [← hs.lacking w hw]
  apply Holders.holds_congr
  rw [modeOf_granted hb hmore, if_neg fun h => hidle w hw h.1]

theorem sound_release (t : TxnId) (p : PageId) : (l.release t p).Sound := by
  rcases l.stirred_release t p with ⟨S, hst⟩
  refine hs.stir hst (agreed_release hs.agreed t p) fun w hw => ?_
  rw [holdersOf_release]
  split
  · exact Holders.holds_release _ t _ _ (hs.lacking w hw)
  · exact hs.lacking w hw

theorem sound_releaseAll (t : TxnId) : (l.releaseAll t).Sound := by
  rcases l.stirred_releaseAll t with ⟨S, hst⟩
  refine hs.stir hst (agreed_releaseAll hs.agreed t) fun w hw => ?_
  rw [hs.backed.holdersOf_releaseAll]
  exact Holders.holds_release _ t _ _ (hs.lacking w hw)

end Sound

/-! ## Requests -/

/-- A table with one more call that waits. -/
def enlist (l : LockTable) (call : CallNo) (t : TxnId) (p : PageId) (mode : LockMode) :
    LockTable :=
  { l with
    graph := (l.graph.waitOn t (l.blockers t p mode)).1
    waiters := l.waiters ++ [{ call, txn := t, page := p, mode }] }

/-- A table after a call failed that would have closed a cycle. -/
def refuse (l : LockTable) (t : TxnId) (p : PageId) (mode : LockMode) : LockTable :=
  { l with graph := (l.graph.waitOn t (l.blockers t p mode)).1 }

/-- A request is granted if no one is in its way. Else it waits, or fails if waiting would close a
    cycle. -/
theorem judge_cases (l : LockTable) (call : CallNo) (t : TxnId) (p : PageId) (mode : LockMode) :
    (l.blockers t p mode = [] ∧ l.judge call t p mode = (l.grant t p mode, .granted)) ∨
    (l.blockers t p mode ≠ [] ∧ (l.graph.waitOn t (l.blockers t p mode)).2 = true ∧
      l.judge call t p mode = (l.enlist call t p mode, .waits)) ∨
    (l.blockers t p mode ≠ [] ∧ (l.graph.waitOn t (l.blockers t p mode)).2 = false ∧
      l.judge call t p mode = (l.refuse t p mode, .deadlock)) := by
  unfold judge enlist refuse
  cases hb : l.blockers t p mode with
  | nil => exact Or.inl ⟨rfl, rfl⟩
  | cons b r =>
      rcases hw : l.graph.waitOn t (b :: r) with ⟨g, ok⟩
      cases ok with
      | true => exact Or.inr (Or.inl ⟨List.cons_ne_nil b r, rfl, by simp only [hw]⟩)
      | false => exact Or.inr (Or.inr ⟨List.cons_ne_nil b r, rfl, by simp only [hw]⟩)

/-- What a transaction holds is not touched by a request that another one makes. -/
theorem mode?_judge_other {l : LockTable} (call : CallNo) {t u : TxnId} (p : PageId)
    (mode : LockMode) (hne : u ≠ t) (q : PageId) :
    (l.judge call t p mode).1.mode? u q = l.mode? u q := by
  rcases l.judge_cases call t p mode with ⟨_, he⟩ | ⟨_, _, he⟩ | ⟨_, _, he⟩
  · rw [he, mode?_grant, if_neg fun h => hne h.1]
  · rw [he]
    rfl
  · rw [he]
    rfl

/-- The table that a woken call finds when it asks again. -/
def without (l : LockTable) (w : Waiter) : LockTable :=
  { l with waiters := l.waiters.filter fun v => v.call ≠ w.call }

theorem resume_eq (l : LockTable) (w : Waiter) :
    l.resume w = (l.without w).judge w.call w.txn w.page w.mode := rfl

theorem mem_without (l : LockTable) (w v : Waiter) :
    v ∈ (l.without w).waiters ↔ v ∈ l.waiters ∧ v.call ≠ w.call := by
  simp [without]

section Sound

variable {l : LockTable} (hs : l.Sound)

include hs

theorem sound_without (w : Waiter) : (l.without w).Sound where
  agree := hs.agree
  alone := hs.alone
  txns := (List.filter_sublist.map Waiter.txn).nodup hs.txns
  calls := (List.filter_sublist.map Waiter.call).nodup hs.calls
  lacking v hv := hs.lacking v ((l.mem_without w v).1 hv).1

/-- Once the call does not wait any more, its transaction does not. -/
theorem idle_without {w : Waiter} (hw : w ∈ l.waiters) : (l.without w).Idle w.txn := by
  intro v hv heq
  rcases (l.mem_without w v).1 hv with ⟨hm, hne⟩
  exact hne (congrArg Waiter.call (hs.eq_of_txn hm hw heq))

theorem sound_enlist (call : CallNo) (t : TxnId) (p : PageId) (mode : LockMode)
    (hidle : l.Idle t) (hfresh : ∀ w ∈ l.waiters, w.call ≠ call)
    (hl : (l.holdersOf p).holds t mode = false) : (l.enlist call t p mode).Sound where
  agree := hs.agree
  alone := hs.alone
  txns := by
    simp only [enlist, List.map_append, List.map_cons, List.map_nil]
    rw [List.nodup_append]
    refine ⟨hs.txns, by simp, ?_⟩
    intro a ha b hb
    rcases List.mem_map.1 ha with ⟨w, hw, rfl⟩
    rcases List.mem_singleton.1 hb with rfl
    exact hidle w hw
  calls := by
    simp only [enlist, List.map_append, List.map_cons, List.map_nil]
    rw [List.nodup_append]
    refine ⟨hs.calls, by simp, ?_⟩
    intro a ha b hb
    rcases List.mem_map.1 ha with ⟨w, hw, rfl⟩
    rcases List.mem_singleton.1 hb with rfl
    exact hfresh w hw
  lacking := by
    intro w hw
    rcases List.mem_append.1 hw with hw | hw
    · exact hs.lacking w hw
    · rcases List.mem_singleton.1 hw with rfl
      exact hl

theorem sound_judge (call : CallNo) (t : TxnId) (p : PageId) (mode : LockMode)
    (hidle : l.Idle t) (hfresh : ∀ w ∈ l.waiters, w.call ≠ call)
    (hl : (l.holdersOf p).holds t mode = false) : (l.judge call t p mode).1.Sound := by
  rcases l.judge_cases call t p mode with ⟨hb, he⟩ | ⟨_, _, he⟩ | ⟨_, _, he⟩
  · rw [he]
    exact sound_grant hs t p mode hidle hb hl
  · rw [he]
    exact sound_enlist hs call t p mode hidle hfresh hl
  · rw [he]
    exact ⟨hs.agree, hs.alone, hs.txns, hs.calls, hs.lacking⟩

theorem sound_request (call : CallNo) (t : TxnId) (p : PageId) (mode : LockMode)
    (hidle : l.Idle t) (hfresh : ∀ w ∈ l.waiters, w.call ≠ call) :
    (l.request call t p mode).1.Sound := by
  unfold request
  split
  · exact hs
  · rename_i hl
    exact sound_judge hs call t p mode hidle hfresh (Bool.not_eq_true _ ▸ hl)

theorem sound_resume {w : Waiter} (hw : w ∈ l.waiters) : (l.resume w).1.Sound := by
  rw [resume_eq]
  exact sound_judge (sound_without hs w) _ _ _ _ (idle_without hs hw)
    (fun v hv => ((l.mem_without w v).1 hv).2) (hs.lacking w hw)

end Sound

end LockTable

end RowStore
