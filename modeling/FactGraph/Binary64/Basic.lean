/-!
# Double-precision values

A double is a sign and the **rank** of its magnitude: the magnitudes are counted upwards from
zero, so rank `0` is zero, rank `1` the least positive double, and `infinityRank` is infinity.
Order of ranks is order of magnitudes, and every rank up to `infinityRank` is taken.

The value of a finite rank is `significand r * 2 ^ exponent r`.
-/

namespace FactGraph

-- Powers are those of the core library, whatever else is in scope.
attribute [local instance (high)] instPowNat

/-- The rank of infinity: one more than that of the largest finite magnitude. -/
def infinityRank : Nat := 0x7FF * 2 ^ (52 : Nat)

/-- A double: not a number, or a sign with the rank of its magnitude. -/
inductive Binary64 where
  | nan
  | ranked (negative : Bool) (rank : Nat) (le : rank ≤ infinityRank)
  deriving DecidableEq, Repr

namespace Binary64

/-- Positive zero. -/
def zero : Binary64 := .ranked false 0 (Nat.zero_le _)

instance : Inhabited Binary64 := ⟨zero⟩

/-- The double with this sign and rank; ranks beyond infinity are infinity. -/
def ofRank (negative : Bool) (rank : Nat) : Binary64 :=
  .ranked negative (min rank infinityRank) (Nat.min_le_right ..)

def infinity (negative : Bool) : Binary64 := .ranked negative infinityRank (Nat.le_refl _)

/-! ## The value of a rank -/

/-- The integer factor of the magnitude of a rank. Below `2 ^ 53` ranks count steps of the
finest grid; above, each block of `2 ^ 52` ranks has a grid twice as coarse. -/
def significand (rank : Nat) : Nat :=
  if rank < 2 ^ (53 : Nat) then rank else 2 ^ (52 : Nat) + rank % 2 ^ (52 : Nat)

/-- The power of two by which the significand is scaled. -/
def exponent (rank : Nat) : Int :=
  if rank < 2 ^ (53 : Nat) then -1074 else (rank / 2 ^ (52 : Nat) : Nat) - 1075

/-- The magnitude of a finite rank as a fraction of naturals, with a power of two below. -/
def fraction (rank : Nat) : Nat × Nat :=
  (significand rank * 2 ^ (exponent rank).toNat, 2 ^ (-exponent rank).toNat)

/-- The value in units of the least positive double; what is no number counts as zero.
Infinity is `2 ^ 2098` units, more than any finite double. -/
def units : Binary64 → Int
  | .nan => 0
  | .ranked negative rank _ =>
    let n : Nat := significand rank * 2 ^ (exponent rank + 1074).toNat
    if negative then -n else n

/-! ## Comparison -/

/-- The signed rank, the same for both zeros; a number that is none has no key. -/
def key : Binary64 → Option Int
  | .nan => none
  | .ranked negative rank _ => some (if negative then -rank else rank)

/-- Numerical equality: the two zeros are equal, and nothing equals what is no number. -/
def numEq (a b : Binary64) : Bool :=
  match a.key, b.key with
  | some i, some j => i == j
  | _, _ => false

/-- `a ≤ b` as numbers. -/
def numLe (a b : Binary64) : Bool :=
  match a.key, b.key with
  | some i, some j => i ≤ j
  | _, _ => false

def isFinite : Binary64 → Bool
  | .nan => false
  | .ranked _ rank _ => rank < infinityRank

def isNaN : Binary64 → Bool
  | .nan => true
  | .ranked .. => false

/-- The value with zero made positive, for fields that keep no sign of zero. -/
def unsignedZero : Binary64 → Binary64
  | .ranked _ 0 h => .ranked false 0 h
  | x => x

/-- The integer that the value is, if it is one. -/
def toInt? : Binary64 → Option Int
  | .nan => none
  | .ranked negative rank _ =>
    let (num, den) := fraction rank
    if rank < infinityRank ∧ num % den = 0 then
      some (if negative then -(num / den : Nat) else (num / den : Nat))
    else none

end Binary64

end FactGraph
