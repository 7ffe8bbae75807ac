import FactGraph.Literal.Numeral

/-!
# Quantities

A quantity is written as a number, optionally a tolerance `[low,high]`, and optionally a unit:
an expression of SI units such as `kg.m2/s-1`, or a node such as `Q11573`.

Nothing separates number and unit, so a text may split in several ways; the split with the
longest number counts (`0x1F` is thirty-one, not one farad).
-/

namespace FactGraph

-- Powers are those of the core library, whatever else is in scope.
attribute [local instance (high)] instPowNat

/-! ## Units -/

/-- The unit symbols. -/
def unitSymbols : List String :=
  ["ohms", "mol", "kat", "cd", "Hz", "Pa", "Wb", "lx", "Bq", "Gy", "Sv", "kg", "m", "g", "s",
   "A", "K", "N", "J", "W", "C", "V", "F", "S", "T", "H", "L", "t"]

/-- The powers that may follow a unit symbol. -/
def unitPowers : List String := ["-1", "2", "3"]

/-- A unit symbol with or without a power. -/
def isUnitFactor (cs : List Char) : Bool :=
  unitSymbols.any fun symbol =>
    cs = symbol.toList || unitPowers.any fun power => cs = symbol.toList ++ power.toList

/-- The most characters of a unit factor. -/
def maxUnitFactorLength : Nat := 6

def joinsUnitFactors (c : Char) : Bool := c = '.' || c = '/'

/-- The parts of a unit expression between its points and slashes. -/
def unitFactors : List Char → List (List Char)
  | [] => [[]]
  | c :: rest =>
    if joinsUnitFactors c then [] :: unitFactors rest
    else match unitFactors rest with
      | [] => [[c]]
      | factor :: factors => (c :: factor) :: factors

/-- The text starts with a whole unit factor. -/
def startsWithUnitFactor (cs : List Char) : Bool :=
  isUnitFactor ((cs.take (maxUnitFactorLength + 1)).takeWhile (!joinsUnitFactors ·))

/-- One or more unit factors joined by points and slashes. The first one is looked at before the
rest is taken apart. -/
def isUnitExpression (cs : List Char) : Bool :=
  startsWithUnitFactor cs && (unitFactors cs).all isUnitFactor

/-- A letter, digit, underscore or hyphen. -/
def isNameChar (c : Char) : Bool := c.isAlphanum || c = '_' || c = '-'

/-- A node identifier: `Q` and at least one further name character. -/
def isUnitsNodeText : List Char → Bool
  | 'Q' :: rest => !rest.isEmpty && rest.all isNameChar
  | _ => false

def isUnitsNode (text : String) : Bool := isUnitsNodeText text.toList

/-! ## The value -/

/-- A number with its tolerance and its unit. -/
structure Quantity where
  number : Number
  lowTolerance : Option Binary64
  highTolerance : Option Binary64
  siUnits : Option String
  unitsNode : Option String
  deriving DecidableEq, Repr

namespace Quantity

/-- A bare number. -/
def ofNumber (number : Number) : Quantity := ⟨number, none, none, none, none⟩

def withTolerance (q : Quantity) (low high : Binary64) : Quantity :=
  { q with lowTolerance := some low, highTolerance := some high }

/-- The quantity in another unit: a node identifier is a node, any other text an expression. -/
def withUnit (q : Quantity) (unit : String) : Quantity :=
  if isUnitsNode unit then { q with unitsNode := some unit, siUnits := none }
  else { q with siUnits := some unit, unitsNode := none }

/-- The unit as text; a node comes first. -/
def unit (q : Quantity) : Option String := q.unitsNode.or q.siUnits

/-! ## Writing -/

/-- Whole tolerances below `10 ^ 15` are written as integers, others as numbers are. -/
def renderTolerance (x : Binary64) : List Char :=
  match x.toInt? with
  | some z =>
    if z.natAbs < 10 ^ (15 : Nat) then (toString z).toList else NumberForm.literal.render x
  | none => NumberForm.literal.render x

/-- The tolerance is written only if both ends are known. -/
def render (q : Quantity) : List Char :=
  q.number.render ++
    (match q.lowTolerance, q.highTolerance with
     | some low, some high => '[' :: renderTolerance low ++ ',' :: renderTolerance high ++ [']']
     | _, _ => []) ++
    ((q.unit.map String.toList).getD [])

/-! ## Reading -/

/-- The unit at the end of a quantity. -/
inductive UnitText where
  | absent
  | expression (text : List Char)
  | node (text : List Char)
  deriving DecidableEq, Repr

def UnitText.read? (cs : List Char) : Option UnitText :=
  if cs.isEmpty then some .absent
  else if isUnitsNodeText cs then some (.node cs)
  else if isUnitExpression cs then some (.expression cs)
  else none

/-- A quantity taken apart. -/
structure Split where
  number : Numeral
  tolerance : Option (Numeral × Numeral)
  unit : UnitText
  deriving DecidableEq, Repr

/-- What follows the number: a tolerance if a bracket opens, then the unit. -/
def readTail? (cs : List Char) : Option (Option (Numeral × Numeral) × UnitText) :=
  match cs with
  | '[' :: rest =>
    match rest.span (· ≠ ',') with
    | (low, _ :: rest) =>
      match rest.span (· ≠ ']') with
      | (high, _ :: rest) => do
        let low ← Numeral.read? low
        let high ← Numeral.read? high
        let unit ← UnitText.read? rest
        some (some (low, high), unit)
      | (_, []) => none
    | (_, []) => none
  | _ => (UnitText.read? cs).map fun unit => (none, unit)

/-- The split whose number is `seen`, read backwards, followed by `rest`. -/
def splitAt? (seen rest : List Char) : Option Split := do
  let (tolerance, unit) ← readTail? rest
  let number ← Numeral.read? seen.reverse
  some ⟨number, tolerance, unit⟩

/-- The split with the longest number: a longer number is tried before a shorter one. Only
characters that satisfy `inNumeral` can be part of the number. -/
def splitFrom? (inNumeral : Char → Bool) (seen : List Char) : List Char → Option Split
  | [] => splitAt? seen []
  | c :: rest =>
    (if inNumeral c then splitFrom? inNumeral (c :: seen) rest else none) <|>
      splitAt? seen (c :: rest)

def split? (cs : List Char) : Option Split := splitFrom? (isNumeralChar cs) [] cs

/-- The value of a split. The number is valued first, then the ends of the tolerance. -/
def ofSplit (s : Split) : Except LiteralError Quantity := do
  let number ← Number.ofNumeral s.number
  let tolerance ← match s.tolerance with
    | none => .ok none
    | some (low, high) => do
      let low ← Number.ofNumeral low
      let high ← Number.ofNumeral high
      .ok (some (low.toBinary64, high.toBinary64))
  .ok {
    number
    lowTolerance := tolerance.map (·.1)
    highTolerance := tolerance.map (·.2)
    siUnits := match s.unit with
      | .expression cs => some (String.ofList cs)
      | _ => none
    unitsNode := match s.unit with
      | .node cs => some (String.ofList cs)
      | _ => none }

/-- Reads a quantity. -/
def read (text : String) : Except LiteralError Quantity :=
  match split? text.toList with
  | some s => ofSplit s
  | none => .error (.quantity text)

end Quantity

end FactGraph
