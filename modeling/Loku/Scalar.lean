import Loku.Lib.Double
import Loku.Lib.Text
import Mathlib.Data.Rat.Defs

/-!
# Machine numbers

`i64` values are integers with explicit bounds, and `f64` values are the exact rationals they
stand for, or one of the non-finite values.
-/

namespace Loku

def i64Max : Int := 9223372036854775807

def i64Min : Int := -9223372036854775808

/-- `i64::try_from(n).unwrap_or(i64::MAX)` for an unsigned `n`. -/
def i64OrMax (n : Nat) : Int := if (n : Int) ≤ i64Max then n else i64Max

/-- `str::parse::<i64>`. -/
def parseI64 (s : String) : Option Int :=
  (Lib.readInt s.toList).filter fun n => i64Min ≤ n ∧ n ≤ i64Max

theorem parseI64_toString {n : Int} (hmin : i64Min ≤ n) (hmax : n ≤ i64Max) :
    parseI64 (toString n) = some n := by
  unfold parseI64
  rw [Lib.readInt_toString, Option.filter_some, if_pos]
  simp [hmin, hmax]

/-- What an `i64` sum holds of the exact one: a release build wraps around. -/
def wrapI64 (n : Int) : Int := n.bmod (2 ^ 64)

theorem wrapI64_of_bounds {n : Int} (hmin : i64Min ≤ n) (hmax : n ≤ i64Max) : wrapI64 n = n := by
  unfold i64Min at hmin
  unfold i64Max at hmax
  exact Int.bmod_eq_of_le (by omega) (by omega)

theorem wrapI64_bounds (n : Int) : i64Min ≤ wrapI64 n ∧ wrapI64 n ≤ i64Max := by
  have hlow : -(((2 ^ 64 : Nat) : Int) / 2) ≤ n.bmod (2 ^ 64) := Int.le_bmod (by decide)
  have hhigh : n.bmod (2 ^ 64) < (((2 ^ 64 : Nat) : Int) + 1) / 2 := Int.bmod_lt (by decide)
  unfold wrapI64 i64Min i64Max
  omega

/-- At the largest `i64`, the successor is the smallest. -/
example : wrapI64 (i64Max + 1) = i64Min := by decide

theorem parseI64_bounds {s : String} {n : Int} (h : parseI64 s = some n) :
    i64Min ≤ n ∧ n ≤ i64Max := by
  unfold parseI64 at h
  have hn := (Option.filter_eq_some_iff.mp h).2
  rwa [decide_eq_true_eq] at hn

inductive F64
  | finite (q : Rat)
  | infinite (negative : Bool)
  | nan
deriving DecidableEq

namespace F64

/-- The value, if it is finite. -/
def toRat? : F64 → Option Rat
  | finite q => some q
  | infinite _ => none
  | nan => none

/-- `0.1` as a double. -/
def tenth : Rat := 3602879701896397 / 2 ^ 55

/-- Multiplication by a constant between zero and one. -/
def scale (c : Rat) : F64 → F64
  | finite q => finite (Lib.dyadicAsDouble (q * c))
  | infinite negative => infinite negative
  | nan => nan

/-- `f64::max` with a finite bound; a NaN yields the bound. -/
def atLeast (bound : Rat) : F64 → F64
  | finite q => if q ≤ bound then finite bound else finite q
  | infinite true => finite bound
  | infinite false => infinite false
  | nan => finite bound

/-- The nearest multiple of `1/1000`, as a number of thousandths, ties to even. -/
def thousandths (q : Rat) : Nat :=
  let scaled := q.num.natAbs * 1000
  let low := scaled / q.den
  let rest := 2 * (scaled % q.den)
  if rest < q.den ∨ (rest = q.den ∧ low % 2 = 0) then low else low + 1

/-- `format!("{:.3}")`. -/
def format3 : F64 → String
  | finite q =>
    let n := thousandths q
    let digits := (n % 1000 + 1000).repr.toList.tail
    (if q < 0 then "-" else "") ++ (n / 1000).repr ++ "." ++ String.ofList digits
  | infinite negative => if negative then "-inf" else "inf"
  | nan => "NaN"

example : format3 (finite (15 / 2)) = "7.500" := by decide +kernel

end F64

end Loku
