import FactGraph.Binary64.Basic

/-!
# Rounding to double precision

A fraction of naturals is rounded to the nearest double, a half to the even significand.

In each binade the doubles are the multiples of one power of two, so the nearest one is a
quotient rounded to an integer, and the rank is that integer plus an offset: a quotient that
reaches the next binade lands on its first rank by itself.
-/

namespace FactGraph

-- Powers are those of the core library, whatever else is in scope.
attribute [local instance (high)] instPowNat

/-- The quotient rounded to the nearest integer, a half to the even neighbour. -/
def roundHalfEven (num den : Nat) : Nat :=
  let quotient := num / den
  let rest := num % den
  if 2 * rest < den ∨ (2 * rest = den ∧ quotient % 2 = 0) then quotient else quotient + 1

/-- The least `e` with `num / den < 2 ^ e`, for a positive fraction. -/
def binade (num den : Nat) : Int :=
  let guess : Int := (num.log2 : Int) - den.log2
  if num * 2 ^ (-guess).toNat < den * 2 ^ guess.toNat then guess else guess + 1

namespace Binary64

/-- The rank of the double nearest to `num / den`. -/
def nearestRank (num den : Nat) : Nat :=
  if num = 0 then 0
  else
    let q := max (binade num den - 53) (-1074)
    let m := roundHalfEven (num * 2 ^ (-q).toNat) (den * 2 ^ q.toNat)
    min (m + (q + 1074).toNat * 2 ^ (52 : Nat)) infinityRank

/-- The rank of the double nearest to `digits * 10 ^ exp`. Far outside the range of finite
doubles the power of ten is not computed. -/
def decimalRank (digits : Nat) (exp : Int) : Nat :=
  if digits = 0 then 0
  else if 310 < exp then infinityRank
  else if exp + digits.log2 / 3 + 1 < -330 then 0
  else nearestRank (digits * 10 ^ exp.toNat) (10 ^ (-exp).toNat)

/-- The double nearest to `± digits * 10 ^ exp`. -/
def ofDecimal (negative : Bool) (digits : Nat) (exp : Int) : Binary64 :=
  ofRank negative (decimalRank digits exp)

/-- The double nearest to an integer. -/
def ofInt (z : Int) : Binary64 :=
  ofRank (z < 0) (nearestRank z.natAbs 1)

end Binary64

end FactGraph
