import RowStore.Proofs.Lock.Accounts

/-!
# What a Grant Adds

What a transaction holds before and after a request of its own, and what the others do.

A grant enters the mode that was asked for, whatever the transaction has come to hold of
the page since it asked. For a call that asks for the first time this is no less than its
transaction has, because what is held is looked at first. A call that was woken is not
looked at in this way. It is `Overtaken` if it waits to read a page that its transaction
has come to write in the meantime, and it is the only one that asks for less than there
is.

Two things are told apart here. A request that asks for no less than there is adds to what
its transaction holds, and leaves the two accounts of the table in agreement. Any request
at all takes no page from anyone, and lets nobody onto a page beside the writer of it but
the writer itself. `Guarded` says this of a table, and nothing has to be asked of the calls
of a transaction for it.

## Main definitions

* `LockTable.Grows`: One transaction holds more, and the others hold what they held.
* `LockTable.Adds`: A transaction asks for no less than it has.
* `LockTable.Overtaken`: A call waits for less than its transaction has.
* `LockTable.Enough`: What a transaction holds is enough for a mode.
* `Holders.Closed`, `LockTable.Guarded`: The writer of a page keeps all others off it.

## Theorems

* `LockTable.grows_judge`, `LockTable.agreed_judge`: A request for no less than there is.
* `LockTable.grows_request`, `LockTable.agreed_request`: A call asks for the first time.
* `LockTable.held_judge`, `LockTable.guarded_judge`: Any request.
* `LockTable.Guarded.eq_of_exclusive`: Who holds a page beside a writer is the writer.
* `LockTable.Sound.not_overtaken`: With one call of a transaction at a time none is overtaken.
-/

namespace RowStore

namespace Holders

/-- The writer of a page keeps all others off it. It may be one of the readers itself. -/
def Closed (h : Holders) : Prop := ∀ t, h.exclusive = some t → ∀ u ∈ h.shared, u = t

theorem closed_grant {h : Holders} (hc : h.Closed) {t : TxnId} {mode : LockMode}
    (hb : h.blockers t mode = []) : (h.grant t mode).Closed := by
  rw [blockers_eq_nil] at hb
  intro u hu v hv
  cases mode with
  | shared =>
      have hx : h.exclusive = some u := hu
      -- The writer is not in the way, so it is the one that reads now.
      have hut : u = t := by
        by_contra hne
        exact (hb u hne).1 hx
      simp only [grant] at hv
      split at hv
      · exact hc u hx v hv
      · rcases List.mem_cons.1 hv with rfl | hold
        · exact hut.symm
        · exact hc u hx v hold
  | exclusive =>
      rcases List.mem_filter.1 hv with ⟨hold, hne⟩
      exact absurd hold ((hb v (of_decide_eq_true hne)).2 rfl)

theorem closed_release {h : Holders} (hc : h.Closed) (t : TxnId) : (h.release t).Closed :=
  fun u hu v hv => hc u (exclusive_of_release hu) v (List.mem_filter.1 hv).1

/-- Who is granted a page is on it. -/
theorem modeOf_grant_self (h : Holders) (t : TxnId) (mode : LockMode) :
    (h.grant t mode).modeOf t ≠ none := by
  cases mode with
  | shared =>
      by_cases hx : h.exclusive = some t
      · simp [grant, modeOf, hx]
      · by_cases hs : t ∈ h.shared <;> simp [grant, modeOf, hx, hs]
  | exclusive => simp [grant, modeOf]

end Holders

namespace LockTable

/-- One transaction holds what it held, or more, and the others hold what they held. -/
structure Grows (l : LockTable) (t : TxnId) (l' : LockTable) : Prop where
  others : ∀ u, u ≠ t → ∀ p, l'.mode? u p = l.mode? u p
  held : ∀ p, l.mode? t p ≠ none → l'.mode? t p ≠ none
  exclusive : ∀ p, l.mode? t p = some .exclusive → l'.mode? t p = some .exclusive

/-- What a transaction holds of a page is enough for a mode. -/
structure Enough (l : LockTable) (t : TxnId) (p : PageId) (mode : LockMode) : Prop where
  held : l.mode? t p ≠ none
  exclusive : mode = .exclusive → l.mode? t p = some .exclusive

/-- A transaction that asks for this lock asks for no less than it has. -/
def Adds (l : LockTable) (t : TxnId) (p : PageId) (mode : LockMode) : Prop :=
  mode = .shared → (l.holdersOf p).exclusive ≠ some t

/-- A call that waits to read a page, and whose transaction has come to be its writer. -/
def Overtaken (l : LockTable) (w : Waiter) : Prop :=
  w.mode = .shared ∧ (l.holdersOf w.page).exclusive = some w.txn

instance (l : LockTable) (w : Waiter) : Decidable (l.Overtaken w) :=
  inferInstanceAs (Decidable (_ ∧ _))

theorem adds_of_lacking {l : LockTable} {t : TxnId} {p : PageId} {mode : LockMode}
    (h : (l.holdersOf p).holds t mode = false) : l.Adds t p mode :=
  Holders.not_writer_of_lacking h

theorem adds_of_not_overtaken {l : LockTable} {w : Waiter} (h : ¬ l.Overtaken w) :
    l.Adds w.txn w.page w.mode :=
  fun hs hx => h ⟨hs, hx⟩

theorem Grows.of_mode?_eq {l l' : LockTable} (t : TxnId)
    (h : ∀ u p, l'.mode? u p = l.mode? u p) : l.Grows t l' where
  others u _ p := h u p
  held p hp := by
    rw [h]
    exact hp
  exclusive p hp := by
    rw [h]
    exact hp

/-- Whoever holds a page to write holds it so when one transaction holds more. -/
theorem Grows.keeps {l l' : LockTable} {t u : TxnId} {p : PageId} (hg : l.Grows t l')
    (hx : l.mode? u p = some .exclusive) : l'.mode? u p = some .exclusive := by
  by_cases hu : u = t
  · subst hu
    exact hg.exclusive p hx
  · exact (hg.others u hu p).trans hx

/-- Where the accounts agree, a lock that is found to be enough by one is so by the other. -/
theorem Agreed.enough {l : LockTable} (ha : l.Agreed) {t : TxnId} {p : PageId} {mode : LockMode}
    (h : (l.holdersOf p).holds t mode = true) : l.Enough t p mode := by
  -- Any lock is enough for reading. For writing only an exclusive one is.
  cases mode with
  | shared =>
      rw [Holders.holds_shared, ← ha.agree] at h
      refine ⟨Option.isSome_iff_ne_none.1 h, ?_⟩
      rintro ⟨⟩
  | exclusive =>
      rw [Holders.holds_exclusive, ← ha.agree, beq_iff_eq] at h
      refine ⟨?_, fun _ => h⟩
      rw [h]
      exact Option.some_ne_none _

/-- Whoever is on a page, in whichever mode, has it on its account. -/
theorem Backed.held {l : LockTable} (hb : l.Backed) {t : TxnId} {p : PageId} {mode : LockMode}
    (h : (l.holdersOf p).holds t mode = true) : l.mode? t p ≠ none := by
  intro hn
  have hnone := hb.covered t p hn
  cases mode with
  | shared =>
      rw [Holders.holds_shared, hnone] at h
      cases h
  | exclusive =>
      rw [Holders.holds_exclusive, hnone] at h
      cases h

theorem enough_grant (l : LockTable) (t : TxnId) (p : PageId) (mode : LockMode) :
    (l.grant t p mode).Enough t p mode := by
  have hm : (l.grant t p mode).mode? t p = some mode := by
    rw [mode?_grant, if_pos ⟨rfl, rfl⟩]
  refine ⟨?_, fun he => he ▸ hm⟩
  rw [hm]
  exact Option.some_ne_none _

/-! ## Requests for no less than there is -/

section judge

variable {l : LockTable} (hb : l.Backed) {t : TxnId} {p : PageId} {mode : LockMode}

include hb

/-- Who holds a page to write goes on holding it so, unless it asks for less than that itself. -/
theorem exclusive_grant {u : TxnId} {q : PageId} (ha : u = t → q = p → l.Adds t p mode)
    (hx : l.mode? u q = some .exclusive) : (l.grant t p mode).mode? u q = some .exclusive := by
  rw [mode?_grant]
  split
  · rename_i h
    rcases h with ⟨rfl, rfl⟩
    -- Who may write the page has not asked to read it.
    cases mode with
    | shared => exact absurd (hb.exclusive u q hx) (ha rfl rfl rfl)
    | exclusive => rfl
  · exact hx

theorem exclusive_judge {u : TxnId} {q : PageId} (ha : u = t → q = p → l.Adds t p mode)
    (hx : l.mode? u q = some .exclusive) (c : CallNo) :
    (l.judge c t p mode).1.mode? u q = some .exclusive := by
  rcases l.judge_cases c t p mode with ⟨_, he⟩ | ⟨_, _, he⟩ | ⟨_, _, he⟩
  · rw [he]
    exact exclusive_grant hb ha hx
  · rw [he]
    exact hx
  · rw [he]
    exact hx

variable (ha : l.Adds t p mode)

include ha

theorem grows_grant : l.Grows t (l.grant t p mode) where
  others u hu q := by rw [mode?_grant, if_neg fun h => hu h.1]
  held q hq := by
    rw [mode?_grant]
    split
    · exact fun hn => by cases hn
    · exact hq
  exclusive _ hq := exclusive_grant hb (fun _ _ => ha) hq

theorem grows_judge (c : CallNo) : l.Grows t (l.judge c t p mode).1 := by
  rcases l.judge_cases c t p mode with ⟨_, he⟩ | ⟨_, _, he⟩ | ⟨_, _, he⟩
  · rw [he]
    exact grows_grant hb ha
  · rw [he]
    exact Grows.of_mode?_eq t fun _ _ => rfl
  · rw [he]
    exact Grows.of_mode?_eq t fun _ _ => rfl

end judge

theorem agreed_judge {l : LockTable} (ha : l.Agreed) {t : TxnId} {p : PageId} {mode : LockMode}
    (hmore : l.Adds t p mode) (c : CallNo) : (l.judge c t p mode).1.Agreed := by
  rcases l.judge_cases c t p mode with ⟨hb, he⟩ | ⟨_, _, he⟩ | ⟨_, _, he⟩
  · rw [he]
    exact agreed_grant ha hb hmore
  · rw [he]
    exact ⟨ha.agree, ha.alone⟩
  · rw [he]
    exact ⟨ha.agree, ha.alone⟩

/-! ## Any requests -/

section judged

variable {l l' : LockTable} {c : CallNo} {t : TxnId} {p : PageId} {mode : LockMode} {v : Verdict}

theorem enough_judge (hj : l.judge c t p mode = (l', .granted)) : l'.Enough t p mode := by
  rcases l.judge_cases c t p mode with ⟨_, he⟩ | ⟨_, _, he⟩ | ⟨_, _, he⟩
  · rw [he] at hj
    cases hj
    exact l.enough_grant t p mode
  · rw [he] at hj
    cases hj
  · rw [he] at hj
    cases hj

/-- Who waits after a request was judged waited before, or is the call that made it. -/
theorem mem_waiters_judge (hj : l.judge c t p mode = (l', v)) {w : Waiter} (h : w ∈ l'.waiters) :
    (∃ u ∈ l.waiters, u.call = w.call ∧ u.txn = w.txn ∧ u.page = w.page ∧ u.mode = w.mode) ∨
    (v = .waits ∧ w.call = c ∧ w.txn = t ∧ w.page = p ∧ w.mode = mode) := by
  rcases l.judge_cases c t p mode with ⟨_, he⟩ | ⟨_, _, he⟩ | ⟨_, _, he⟩
  · rw [he] at hj
    cases hj
    rw [(l.stirred_grant t p mode).waiters] at h
    rcases List.mem_map.1 h with ⟨u, hu, rfl⟩
    exact Or.inl ⟨u, hu, (rouse_call _ u).symm, (rouse_txn _ u).symm, (rouse_page _ u).symm,
      (rouse_mode _ u).symm⟩
  · rw [he] at hj
    cases hj
    rcases List.mem_append.1 h with hu | hu
    · exact Or.inl ⟨w, hu, rfl, rfl, rfl, rfl⟩
    · rcases List.mem_singleton.1 hu with rfl
      exact Or.inr ⟨rfl, rfl, rfl, rfl, rfl⟩
  · rw [he] at hj
    cases hj
    exact Or.inl ⟨w, h, rfl, rfl, rfl, rfl⟩

/-- A request takes no page from anyone, though one that was held to write may be held to read
    afterwards. -/
theorem held_judge (l : LockTable) (c : CallNo) (t : TxnId) (p : PageId) (mode : LockMode)
    {u : TxnId} {q : PageId} (h : l.mode? u q ≠ none) :
    (l.judge c t p mode).1.mode? u q ≠ none := by
  rcases l.judge_cases c t p mode with ⟨_, he⟩ | ⟨_, _, he⟩ | ⟨_, _, he⟩
  · rw [he, mode?_grant]
    split
    · exact Option.some_ne_none mode
    · exact h
  · rw [he]
    exact h
  · rw [he]
    exact h

end judged

/-- What is true of a table however many calls a transaction makes at a time: who is on a page has
    it on its account and the other way round, who writes it by its account is its writer, and the
    writer of a page keeps all others off it. -/
structure Guarded (l : LockTable) : Prop extends Backed l where
  present : ∀ t p, l.mode? t p ≠ none → (l.holdersOf p).modeOf t ≠ none
  closed : ∀ p, (l.holdersOf p).Closed

theorem guarded_empty : Guarded {} where
  toBacked := backed_empty
  present _ _ h := absurd rfl h
  closed _ _ h := by cases h

section Guarded

variable {l : LockTable} (hg : l.Guarded)

include hg

/-- Who holds a page beside a writer is the writer. -/
theorem Guarded.eq_of_exclusive {t u : TxnId} {p : PageId} (ht : l.mode? t p = some .exclusive)
    (hu : l.mode? u p ≠ none) : u = t := by
  have hx := hg.exclusive t p ht
  have hm := hg.present u p hu
  unfold Holders.modeOf at hm
  split at hm
  · rename_i hxu
    exact Option.some.inj (hxu.symm.trans hx)
  · split at hm
    · rename_i hmem
      exact hg.closed p t hx u hmem
    · exact absurd rfl hm

theorem guarded_grant {t : TxnId} {p : PageId} {mode : LockMode}
    (hfree : l.blockers t p mode = []) : (l.grant t p mode).Guarded where
  toBacked := backed_grant hg.toBacked hfree
  present u q h := by
    -- On its own page the one that was granted is there, and the others are where they were.
    rw [mode?_grant] at h
    rw [holdersOf_grant]
    by_cases hq : q = p
    · subst hq
      rw [if_pos rfl]
      by_cases hu : u = t
      · rw [hu]
        exact Holders.modeOf_grant_self _ _ _
      · rw [if_neg fun h => hu h.1] at h
        rw [Holders.modeOf_grant_other _ hfree hu]
        exact hg.present u q h
    · rw [if_neg fun h => hq h.2] at h
      rw [if_neg hq]
      exact hg.present u q h
  closed q := by
    rw [holdersOf_grant]
    split
    · exact Holders.closed_grant (hg.closed p) hfree
    · exact hg.closed q

theorem guarded_judge (c : CallNo) (t : TxnId) (p : PageId) (mode : LockMode) :
    (l.judge c t p mode).1.Guarded := by
  rcases l.judge_cases c t p mode with ⟨hfree, he⟩ | ⟨_, _, he⟩ | ⟨_, _, he⟩
  · rw [he]
    exact guarded_grant hg hfree
  · rw [he]
    exact ⟨⟨hg.exclusive, hg.covered⟩, hg.present, hg.closed⟩
  · rw [he]
    exact ⟨⟨hg.exclusive, hg.covered⟩, hg.present, hg.closed⟩

theorem guarded_request (c : CallNo) (t : TxnId) (p : PageId) (mode : LockMode) :
    (l.request c t p mode).1.Guarded := by
  unfold request
  split
  · exact hg
  · exact guarded_judge hg c t p mode

theorem guarded_resume (w : Waiter) : (l.resume w).1.Guarded := by
  rw [resume_eq]
  exact guarded_judge (l := l.without w) ⟨⟨hg.exclusive, hg.covered⟩, hg.present, hg.closed⟩ _ _ _ _

/-- A transaction is taken off some pages by both accounts. -/
theorem Guarded.vacated {l' : LockTable} {t : TxnId} {S : PageId → Prop} [DecidablePred S]
    (hm : ∀ u q, l'.mode? u q = if u = t ∧ S q then none else l.mode? u q)
    (hh : ∀ q, l'.holdersOf q = if S q then (l.holdersOf q).release t else l.holdersOf q) :
    l'.Guarded where
  toBacked := hg.toBacked.vacated hm hh
  present u q h := by
    rw [hm] at h
    rw [hh]
    split at h
    · exact absurd rfl h
    · rename_i hnot
      have hold := hg.present u q h
      split
      · rename_i hS
        rw [Holders.modeOf_release, if_neg fun hu => hnot ⟨hu, hS⟩]
        exact hold
      · exact hold
  closed q := by
    rw [hh]
    split
    · exact Holders.closed_release (hg.closed q) t
    · exact hg.closed q

theorem guarded_release (t : TxnId) (p : PageId) : (l.release t p).Guarded :=
  hg.vacated (S := fun q => q = p) (fun u q => l.mode?_release t p u q) (l.holdersOf_release t p)

theorem guarded_releaseAll (t : TxnId) : (l.releaseAll t).Guarded :=
  hg.vacated (t := t) (S := fun _ => True) (fun u q => by simp only [mode?_releaseAll, and_true])
    fun q => by rw [hg.toBacked.holdersOf_releaseAll, if_pos trivial]

end Guarded

/-! ## Calls that ask for the first time -/

section request

variable {l : LockTable} (c : CallNo) (t : TxnId) (p : PageId) (mode : LockMode)

/-- Such a call asks for no less than its transaction has, because that is looked at first. -/
theorem grows_request (hb : l.Backed) : l.Grows t (l.request c t p mode).1 := by
  unfold request
  split
  · exact Grows.of_mode?_eq t fun _ _ => rfl
  · rename_i hlack
    exact grows_judge hb (adds_of_lacking (Bool.not_eq_true _ ▸ hlack)) c

theorem agreed_request (ha : l.Agreed) : (l.request c t p mode).1.Agreed := by
  unfold request
  split
  · exact ha
  · rename_i hlack
    exact agreed_judge ha (adds_of_lacking (Bool.not_eq_true _ ▸ hlack)) c

variable {c t p mode} {l' : LockTable} {v : Verdict}

/-- A call that need not wait has been found to have its lock, or is granted it. -/
theorem request_granted (h : l.request c t p mode = (l', .granted)) :
    (l' = l ∧ (l.holdersOf p).holds t mode = true) ∨ l'.Enough t p mode := by
  unfold request at h
  split at h
  · rename_i hh
    cases h
    exact Or.inl ⟨rfl, hh⟩
  · exact Or.inr (enough_judge h)

/-- Who waits after a request waited before, or is the call that made it. -/
theorem mem_waiters_request (h : l.request c t p mode = (l', v)) {w : Waiter}
    (hw : w ∈ l'.waiters) :
    (∃ u ∈ l.waiters, u.call = w.call ∧ u.txn = w.txn ∧ u.page = w.page ∧ u.mode = w.mode) ∨
    (v = .waits ∧ w.call = c ∧ w.txn = t ∧ w.page = p ∧ w.mode = mode) := by
  unfold request at h
  split at h
  · cases h
    exact Or.inl ⟨w, hw, rfl, rfl, rfl, rfl⟩
  · exact mem_waiters_judge h hw

end request

/-! ## Calls that wait -/

/-- Where a transaction has one call at a time none is overtaken. -/
theorem Sound.not_overtaken {l : LockTable} (hs : l.Sound) {w : Waiter} (hw : w ∈ l.waiters) :
    ¬ l.Overtaken w :=
  fun h => adds_of_lacking (hs.lacking w hw) h.1 h.2

theorem mem_of_waiterOf {l : LockTable} {c : CallNo} {w : Waiter} (h : l.waiterOf c = some w) :
    w ∈ l.waiters ∧ w.call = c := by
  unfold waiterOf at h
  exact ⟨List.mem_of_find?_eq_some h, by simpa using List.find?_some h⟩

theorem ne_of_waiterOf {l : LockTable} {c : CallNo} (h : l.waiterOf c = none) :
    ∀ w ∈ l.waiters, w.call ≠ c := by
  unfold waiterOf at h
  intro w hw
  simpa using List.find?_eq_none.1 h w hw

/-- The table without a call, if that waits. -/
def dismiss (l : LockTable) (c : CallNo) : LockTable :=
  { l with waiters := l.waiters.filter fun w => w.call ≠ c }

theorem dismiss_of_none {l : LockTable} {c : CallNo} (h : l.waiterOf c = none) :
    l.dismiss c = l := by
  unfold dismiss
  congr 1
  exact List.filter_eq_self.2 fun w hw => decide_eq_true (ne_of_waiterOf h w hw)

theorem mem_dismiss {l : LockTable} {c : CallNo} {w : Waiter} (h : w ∈ (l.dismiss c).waiters) :
    w ∈ l.waiters ∧ w.call ≠ c := by
  rcases List.mem_filter.1 h with ⟨hw, hne⟩
  exact ⟨hw, of_decide_eq_true hne⟩

end LockTable

end RowStore
