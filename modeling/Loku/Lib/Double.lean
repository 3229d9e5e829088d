import Mathlib.Data.Nat.Log
import Mathlib.Tactic.Ring

/-!
# Rounding to doubles

A reader with binary64 numbers rounds an integer to 53 significant bits, to nearest with ties
to even. `asDouble` is that reading; the integers it keeps are those that are a multiple of
their unit in the last place (`natAsDouble_eq_self_iff`), every integer up to `2 ^ 53` among
them. The product of two doubles has a power of two below the line, so that only what is above
it is rounded (`dyadicAsDouble`).
-/

namespace Lib

/-- The distance between neighbouring doubles at a magnitude. -/
def doubleUnit (n : Nat) : Nat := 2 ^ (n.log2 - 52)

theorem doubleUnit_pos (n : Nat) : 0 < doubleUnit n := Nat.two_pow_pos _

/-- The double nearest to a natural number. -/
def natAsDouble (n : Nat) : Nat :=
  let low := n / doubleUnit n * doubleUnit n
  let rest := 2 * (n % doubleUnit n)
  if rest < doubleUnit n ∨ (rest = doubleUnit n ∧ n / doubleUnit n % 2 = 0) then low
  else low + doubleUnit n

/-- The double nearest to an integer. -/
def asDouble (n : Int) : Int := if 0 ≤ n then natAsDouble n.toNat else -natAsDouble (-n).toNat

/-- The double nearest to a number with a power of two as its denominator, away from the smallest
and the largest ones. -/
def dyadicAsDouble (q : Rat) : Rat := asDouble q.num / q.den

/-- An integer is a double exactly when it is a multiple of its unit. -/
theorem natAsDouble_eq_self_iff {n : Nat} : natAsDouble n = n ↔ doubleUnit n ∣ n := by
  have hsplit := Nat.div_add_mod' n (doubleUnit n)
  have hlt := Nat.mod_lt n (doubleUnit_pos n)
  rw [Nat.dvd_iff_mod_eq_zero]
  simp only [natAsDouble]
  split
  · constructor
    · intro h
      omega
    · intro h
      omega
  · rename_i hround
    constructor
    · intro h
      omega
    · intro h
      rw [h] at hround
      have := doubleUnit_pos n
      omega

theorem natAsDouble_of_lt {n : Nat} (h : n < 2 ^ 53) : natAsDouble n = n := by
  rw [natAsDouble_eq_self_iff]
  have hlog : n.log2 - 52 = 0 := by
    by_cases hn : n = 0
    · subst hn
      rfl
    · have hlt := (Nat.log2_lt hn).mpr h
      omega
  unfold doubleUnit
  rw [hlog]
  exact one_dvd n

/-- Every integer of at most 53 bits is a double. -/
theorem asDouble_of_natAbs_lt {n : Int} (h : n.natAbs < 2 ^ 53) : asDouble n = n := by
  unfold asDouble
  split
  · rw [natAsDouble_of_lt (by omega)]
    omega
  · rw [natAsDouble_of_lt (by omega)]
    omega

end Lib
