import RowStore.Ident

/-!
# Random Choices

A supply of numbers that look random and are fixed by a seed.

The state is a 64-bit word. Each step multiplies it and adds to it, modulo the
size of a word. The high half of the new word, whose bits have the longer
periods, is the number that is handed out.

## Main definitions

* `Random`: The state.
* `Random.below`: A number below a bound.
* `Random.bytes`: A run of bytes.
* `Random.chance`: Whether something of a given chance happens.
-/

namespace RowStore

/-- The state of a supply of random numbers. -/
structure Random where
  state : UInt64
  deriving DecidableEq, Repr

namespace Random

/-- The next 32 bits. -/
def next (r : Random) : Nat × Random :=
  let state := r.state * 6364136223846793005 + 1442695040888963407
  (state.toNat / UInt32.size, ⟨state⟩)

/-- The supply for a seed. -/
def ofSeed (seed : Nat) : Random := (next ⟨UInt64.ofNat seed⟩).2

/-- A number below a bound; zero if there is none. -/
def below (r : Random) (bound : Nat) : Nat × Random :=
  let (n, r) := r.next
  (n * bound / UInt32.size, r)

theorem below_lt (r : Random) {bound : Nat} (h : 0 < bound) : (r.below bound).1 < bound := by
  have hn : r.next.1 < UInt32.size := by
    have := (r.state * 6364136223846793005 + 1442695040888963407).toNat_lt
    simp only [next, UInt32.size]
    omega
  simp only [below]
  exact Nat.div_lt_of_lt_mul (Nat.mul_lt_mul_of_lt_of_le hn (Nat.le_refl _) h)

/-- A run of so many bytes. -/
def bytes (r : Random) (count : Nat) : Bytes × Random :=
  count.fold (fun _ _ (bytes, r) =>
    let (n, r) := r.below 256
    (bytes.push (UInt8.ofNat n), r)) (#[], r)

/-- Whether something happens that does in so many of a hundred cases. -/
def chance (r : Random) (percent : Nat) : Bool × Random :=
  let (n, r) := r.below 100
  (decide (n < percent), r)

end Random

end RowStore
