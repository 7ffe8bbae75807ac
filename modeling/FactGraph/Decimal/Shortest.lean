import FactGraph.Binary64.Rounding

/-!
# The shortest decimal that reads back

Of the decimals that round to a given double the one with the fewest digits is chosen, and of
those the nearest. For each number of digits only the two neighbours of the value on that
decimal grid can qualify: if any point of the grid rounds to the double, one of them does.
-/

namespace FactGraph

-- Powers are those of the core library, whatever else is in scope.
attribute [local instance (high)] instPowNat

/-- The decimal `digits * 10 ^ exp`. -/
structure Decimal where
  digits : Nat
  exp : Int
  deriving DecidableEq, Repr

namespace Decimal

/-- Which of two equally near decimals is taken. -/
inductive Tie where
  | up
  | even
  deriving DecidableEq, Repr

/-- Moves factors of ten from the digits to the exponent. -/
def strip (digits : Nat) (exp : Int) : Decimal :=
  if h : digits ≠ 0 ∧ digits % 10 = 0 then strip (digits / 10) (exp + 1) else ⟨digits, exp⟩
termination_by digits
decreasing_by omega

/-- `num / den < 10 ^ k`. -/
def belowPower (num den : Nat) (k : Int) : Bool :=
  num * 10 ^ (-k).toNat < den * 10 ^ k.toNat

/-- The least `k` with `num / den < 10 ^ k`, for a positive fraction: three tenths of the
binary magnitude is a close estimate, and comparisons settle the rest. -/
def width (num den : Nat) : Int :=
  let guess := Int.fdiv (binade num den * 30103) 100000
  if belowPower num den (guess - 1) then guess - 1
  else if belowPower num den guess then guess
  else if belowPower num den (guess + 1) then guess + 1
  else guess + 2

/-- The value of rank `rank` on the grid of `10 ^ exp`: the neighbour that reads back, the
nearer one if both do. -/
def onGrid (tie : Tie) (rank num den : Nat) (exp : Int) : Option Decimal :=
  let scaledNum := num * 10 ^ (-exp).toNat
  let scaledDen := den * 10 ^ exp.toNat
  let lower := scaledNum / scaledDen
  let fits (d : Nat) : Bool := Binary64.decimalRank d exp = rank
  let lowerNearer := match compare (2 * scaledNum) ((2 * lower + 1) * scaledDen), tie with
    | .lt, _ => true
    | .gt, _ => false
    | .eq, .up => false
    | .eq, .even => lower % 2 = 0
  match fits lower, fits (lower + 1) with
  | true, true => some (strip (if lowerNearer then lower else lower + 1) exp)
  | true, false => some (strip lower exp)
  | false, true => some (strip (lower + 1) exp)
  | false, false => none

/-- The exact value as a decimal: a power of two below is a power of ten over one of five. -/
def exact (rank : Nat) : Decimal :=
  let q := Binary64.exponent rank
  if 0 ≤ q then strip (Binary64.significand rank * 2 ^ q.toNat) 0
  else strip (Binary64.significand rank * 5 ^ (-q).toNat) q

/-- The shortest decimal for a finite rank. Seventeen digits always suffice; the exact value
stands for any further search. -/
def shortest (tie : Tie) (rank : Nat) : Decimal :=
  if rank = 0 then ⟨0, 0⟩
  else
    let (num, den) := Binary64.fraction rank
    let k := width num den
    ((List.range 17).findSome? fun (n : Nat) =>
      onGrid tie rank num den (k - (n + 1))).getD (exact rank)

end Decimal

end FactGraph
