import FactGraph.Decimal.Shortest

/-!
# Decimals by scaling

A decimal of a few digits is found by scaling: the value is multiplied by powers of ten until it
has eighteen or nineteen digits before the point, the rest is cut off, and the digit after those
that are kept decides about rounding.

The products have 64 significant bits. They are so close that the digits kept are right except
beside a half, where the rounding of the products and the cut decide.
-/

namespace FactGraph

-- Powers are those of the core library, whatever else is in scope.
attribute [local instance (high)] instPowNat

/-- The value `significand * 2 ^ exponent`. -/
structure Scaled where
  significand : Nat
  exponent : Int
  deriving DecidableEq, Repr

namespace Scaled

/-- The value as a fraction of naturals. -/
def fraction (x : Scaled) : Nat × Nat :=
  (x.significand * 2 ^ x.exponent.toNat, 2 ^ (-x.exponent).toNat)

/-- The nearest value of 64 significant bits, a half to the even one. -/
def nearest (num den : Nat) : Scaled :=
  if num = 0 then ⟨0, 0⟩
  else
    let q := binade num den - 64
    ⟨roundHalfEven (num * 2 ^ (-q).toNat) (den * 2 ^ q.toNat), q⟩

/-- The magnitude of a finite double. -/
def ofRank (rank : Nat) : Scaled := ⟨Binary64.significand rank, Binary64.exponent rank⟩

def powerOfTen (k : Int) : Scaled := nearest (10 ^ k.toNat) (10 ^ (-k).toNat)

def mul (x y : Scaled) : Scaled :=
  nearest (x.fraction.1 * y.fraction.1) (x.fraction.2 * y.fraction.2)

def lt (x y : Scaled) : Bool := x.fraction.1 * y.fraction.2 < y.fraction.1 * x.fraction.2

/-- The integer part. -/
def floor (x : Scaled) : Nat := x.fraction.1 / x.fraction.2

/-- Multiplies by `10 ^ step` while the value is below `10 ^ bound`, at most so many times. The
second component is the power of ten that takes the product back to the value. -/
def raise (bound : Int) (step : Nat) : Nat → Scaled × Int → Scaled × Int
  | 0, x => x
  | times + 1, (x, exp) =>
    if x.lt (powerOfTen bound) then
      raise bound step times (x.mul (powerOfTen step), exp - step)
    else (x, exp)

/-- Divides by `10 ^ step` while the value is not below `10 ^ bound`. -/
def lower (bound : Int) (step : Nat) : Nat → Scaled × Int → Scaled × Int
  | 0, x => x
  | times + 1, (x, exp) =>
    if x.lt (powerOfTen bound) then (x, exp)
    else lower bound step times (x.mul (powerOfTen (-step)), exp + step)

/-- Brings a positive value between `10 ^ 17` and `10 ^ 19`, by hundreds, tens and ones. No loop
of a double takes more than twelve rounds. -/
def level (x : Scaled) : Scaled × Int :=
  if x.lt (powerOfTen 19) then
    raise 17 1 12 (raise 7 10 12 (raise (-97) 100 12 (x, 0)))
  else lower 19 1 12 (lower 29 10 12 (lower 119 100 12 (x, 0)))

end Scaled

/-- The value to `places` significant digits by scaling. -/
def Decimal.scaled (places : Nat) (rank : Nat) : Decimal :=
  if rank = 0 then ⟨0, 0⟩
  else
    let (x, exp) := (Scaled.ofRank rank).level
    let digits := x.floor
    let surplus := (Nat.toDigits 10 digits).length - places
    if surplus = 0 then strip digits exp
    else strip ((digits / 10 ^ (surplus - 1) + 5) / 10) (exp + surplus)

end FactGraph
