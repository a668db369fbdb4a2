/-!
# Finite Maps

A finite map held as a list of entries with distinct keys, newest entry first.

Tables of the store are small (resident pages, holders of locks, files) and are
walked as often as they are searched, so a list serves both. Distinctness of the
keys is part of the type: every operation here keeps it, and the length of the
list is therefore the number of keys.

A map is read through `get?`. Each operation has one lemma for the key it
touches and one for every other key, so nothing else has to look at the list.

## Main definitions

* `Assoc`: Entries with distinct keys.
* `Assoc.get?`: The value at a key.
* `Assoc.insert`, `Assoc.erase`, `Assoc.modify`: The three ways to change a map.

## Theorems

* `Assoc.get?_insert`, `Assoc.get?_erase`: What a changed map holds.
* `Assoc.mem_keys_iff`: The keys are where a value is found.
* `Assoc.mem_entries_iff`: The entries are the values found at the keys.
* `Assoc.size_insert`, `Assoc.size_erase`: What a change does to the number of keys.
-/

namespace RowStore

universe u v

/-- A finite map as a list of entries with distinct keys. -/
structure Assoc (κ : Type u) (α : Type v) where
  entries : List (κ × α)
  distinct : (entries.map Prod.fst).Nodup
  deriving DecidableEq, Repr

namespace Assoc

variable {κ : Type u} {α : Type v}

/-- The map without entries. -/
def empty : Assoc κ α := ⟨[], List.nodup_nil⟩

instance : EmptyCollection (Assoc κ α) := ⟨empty⟩

instance : Inhabited (Assoc κ α) := ⟨empty⟩

/-- The keys, newest first. -/
def keys (m : Assoc κ α) : List κ := m.entries.map Prod.fst

/-- The values, newest first. -/
def values (m : Assoc κ α) : List α := m.entries.map Prod.snd

/-- The number of keys. -/
def size (m : Assoc κ α) : Nat := m.entries.length

theorem keys_nodup (m : Assoc κ α) : m.keys.Nodup := m.distinct

theorem length_keys (m : Assoc κ α) : m.keys.length = m.size := by
  simp only [keys, size, List.length_map]

/-- Keeping some of the entries keeps the keys distinct. -/
theorem nodup_filter (l : List (κ × α)) (f : κ × α → Bool) (h : (l.map Prod.fst).Nodup) :
    ((l.filter f).map Prod.fst).Nodup :=
  (List.filter_sublist.map Prod.fst).nodup h

variable [DecidableEq κ]

/-- The value at a key. -/
def get? (m : Assoc κ α) (k : κ) : Option α :=
  (m.entries.find? fun e => e.1 = k).map Prod.snd

/-- Whether a key has a value. -/
def contains (m : Assoc κ α) (k : κ) : Bool := (m.get? k).isSome

/-- Take a key out. -/
def erase (m : Assoc κ α) (k : κ) : Assoc κ α :=
  ⟨m.entries.filter fun e => e.1 ≠ k, nodup_filter _ _ m.distinct⟩

/-- Give a key a value, in place of any it has. -/
def insert (m : Assoc κ α) (k : κ) (a : α) : Assoc κ α :=
  ⟨(k, a) :: (m.erase k).entries, by
    rw [List.map_cons, List.nodup_cons]
    refine ⟨?_, (m.erase k).distinct⟩
    simp [erase]⟩

/-- Change the value at a key, if it has one. -/
def modify (m : Assoc κ α) (k : κ) (f : α → α) : Assoc κ α :=
  match m.get? k with
  | some a => m.insert k (f a)
  | none => m

@[simp]
theorem get?_empty (k : κ) : (empty : Assoc κ α).get? k = none := rfl

theorem get?_insert_self (m : Assoc κ α) (k : κ) (a : α) : (m.insert k a).get? k = some a := by
  simp [get?, insert]

theorem get?_erase_self (m : Assoc κ α) (k : κ) : (m.erase k).get? k = none := by
  simp [get?, erase]

theorem get?_erase_other (m : Assoc κ α) {k j : κ} (h : j ≠ k) :
    (m.erase k).get? j = m.get? j := by
  have hp : ∀ l : List (κ × α),
      (l.filter fun e => e.1 ≠ k).find? (fun e => e.1 = j) = l.find? fun e => e.1 = j := by
    intro l
    induction l with
    | nil => rfl
    | cons e r ih =>
      by_cases hk : e.1 = k
      · have hj : ¬ e.1 = j := fun hj => h (hj ▸ hk)
        simpa [hk, List.find?_cons, Ne.symm h] using ih
      · by_cases hj : e.1 = j
        · simp [hj, h]
        · simpa [hk, hj] using ih
  simp only [get?, erase, hp]

theorem get?_insert_other (m : Assoc κ α) {k j : κ} (a : α) (h : j ≠ k) :
    (m.insert k a).get? j = m.get? j := by
  rw [← get?_erase_other m h]
  simp [get?, insert, Ne.symm h]

theorem get?_insert (m : Assoc κ α) (k j : κ) (a : α) :
    (m.insert k a).get? j = if j = k then some a else m.get? j := by
  split
  · rename_i h
    rw [h, get?_insert_self]
  · rename_i h
    exact get?_insert_other m a h

theorem get?_erase (m : Assoc κ α) (k j : κ) :
    (m.erase k).get? j = if j = k then none else m.get? j := by
  split
  · rename_i h
    rw [h, get?_erase_self]
  · rename_i h
    exact get?_erase_other m h

theorem get?_modify (m : Assoc κ α) (k j : κ) (f : α → α) :
    (m.modify k f).get? j = if j = k then (m.get? j).map f else m.get? j := by
  unfold modify
  split
  · rename_i a ha
    rw [get?_insert]
    split
    · rename_i h
      rw [h, ha, Option.map_some]
    · rfl
  · rename_i ha
    split
    · rename_i h
      rw [h, ha, Option.map_none]
    · rfl

/-- An entry is a key with its value. -/
theorem mem_entries_iff (m : Assoc κ α) (k : κ) (a : α) :
    (k, a) ∈ m.entries ↔ m.get? k = some a := by
  obtain ⟨l, hl⟩ := m
  simp only [get?]
  induction l with
  | nil => simp
  | cons e r ih =>
    rw [List.map_cons, List.nodup_cons] at hl
    by_cases hk : e.1 = k
    · have hr : (k, a) ∉ r := fun hm => hl.1 (hk ▸ List.mem_map.2 ⟨(k, a), hm, rfl⟩)
      simp only [List.mem_cons, hr, or_false, List.find?_cons, hk, decide_true, Option.map_some,
        Option.some.injEq]
      constructor
      · intro h
        rw [← h]
      · intro h
        rw [← h, ← hk]
    · have he : (k, a) ≠ e := fun h => hk (by rw [← h])
      simpa [hk, he] using ih hl.2

/-- A key is where a value is found. -/
theorem mem_keys_iff (m : Assoc κ α) (k : κ) : k ∈ m.keys ↔ (m.get? k).isSome := by
  rw [Option.isSome_iff_exists, keys, List.mem_map]
  constructor
  · rintro ⟨e, he, rfl⟩
    exact ⟨e.2, (mem_entries_iff m e.1 e.2).1 he⟩
  · rintro ⟨a, ha⟩
    exact ⟨(k, a), (mem_entries_iff m k a).2 ha, rfl⟩

/-- Without entries there are no values. -/
theorem get?_of_entries_nil {m : Assoc κ α} (h : m.entries = []) (k : κ) : m.get? k = none := by
  rw [get?, h]
  rfl

theorem size_erase_le (m : Assoc κ α) (k : κ) : (m.erase k).size ≤ m.size :=
  List.length_filter_le _ _

theorem erase_eq_self (m : Assoc κ α) (k : κ) (h : m.get? k = none) : m.erase k = m := by
  obtain ⟨l, hl⟩ := m
  simp only [get?, Option.map_eq_none_iff, List.find?_eq_none, decide_eq_true_eq] at h
  simp only [erase, mk.injEq, List.filter_eq_self, decide_eq_true_eq]
  exact h

/-- A key that is taken out was one of the keys. -/
theorem size_erase (m : Assoc κ α) {k : κ} {a : α} (h : m.get? k = some a) :
    (m.erase k).size + 1 = m.size := by
  obtain ⟨l, hl⟩ := m
  simp only [size, erase]
  rw [← mem_entries_iff] at h
  simp only at h
  induction l with
  | nil => cases h
  | cons e r ih =>
      rw [List.map_cons, List.nodup_cons] at hl
      by_cases hk : e.1 = k
      · -- No other entry has this key, so the rest stays whole.
        have hr : r.filter (fun e => decide (e.1 ≠ k)) = r := by
          rw [List.filter_eq_self]
          intro e' he'
          refine decide_eq_true fun heq => hl.1 ?_
          rw [hk, ← heq]
          exact List.mem_map_of_mem he'
        rw [List.filter_cons_of_neg (by simpa using hk), hr, List.length_cons]
      · have hm : (k, a) ∈ r := (List.mem_cons.1 h).resolve_left fun he => hk (by rw [← he])
        rw [List.filter_cons_of_pos (by simpa using hk), List.length_cons, List.length_cons,
          ih hl.2 hm]

/-- A new key adds one to the number of keys. -/
theorem size_insert (m : Assoc κ α) (k : κ) (a : α) (h : m.get? k = none) :
    (m.insert k a).size = m.size + 1 := by
  have hl : (m.insert k a).size = (m.erase k).size + 1 := List.length_cons
  rw [hl, erase_eq_self m k h]

end Assoc

end RowStore
