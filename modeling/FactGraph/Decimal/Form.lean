import FactGraph.Decimal.Scaled

/-!
# Writing decimals

A `NumberForm` holds the decisions of a written form: which magnitudes are written positionally,
whether a whole number keeps `.0`, how an exponent looks. `NumberForm.render` writes any double.
-/

namespace FactGraph

/-- The decisions of a written form of numbers. -/
structure NumberForm where
  /-- The exponents of the leading digit that are written positionally; `none` for all. -/
  positional : Option (Int × Int)
  /-- A whole number written positionally ends in `.0`. -/
  pointZero : Bool
  /-- A single digit before an exponent is followed by `.0`. -/
  scientificPointZero : Bool
  /-- A positive exponent has a plus sign. -/
  plus : Bool
  /-- The least number of digits of an exponent. -/
  exponentWidth : Nat
  /-- How the digits are chosen. -/
  select : Nat → Decimal
  /-- What an infinite magnitude is called. -/
  infinity : List Char

namespace NumberForm

/-- Numbers as literals carry them: the fewest digits, positionally from `0.0001` up to but
not including `10 ^ 16`, and always with a point or an exponent. -/
def literal : NumberForm where
  positional := some (-4, 16)
  pointZero := true
  scientificPointZero := false
  plus := false
  exponentWidth := 1
  select := Decimal.shortest .up
  infinity := ['i', 'n', 'f']

/-- Numbers in columns, coordinates and messages: the fewest digits, never an exponent. -/
def column : NumberForm where
  positional := none
  pointZero := false
  scientificPointZero := false
  plus := false
  exponentWidth := 1
  select := Decimal.shortest .up
  infinity := ['i', 'n', 'f']

/-- Numbers in printed answers: the fewest digits, positionally from `0.00001` up to but not
including `10 ^ 16`, otherwise with a signed exponent. -/
def answer : NumberForm where
  positional := some (-5, 16)
  pointZero := true
  scientificPointZero := false
  plus := true
  exponentWidth := 1
  select := Decimal.shortest .even
  infinity := ['i', 'n', 'f']

/-- Numbers joined into a text by a query: fifteen digits, a point always, and an exponent of
two digits outside `0.0001` to `10 ^ 15`. -/
def joined : NumberForm where
  positional := some (-4, 15)
  pointZero := true
  scientificPointZero := true
  plus := true
  exponentWidth := 2
  select := Decimal.scaled 15
  infinity := ['I', 'n', 'f']

/-- The decimal digits of a natural number. -/
def digitsOf (n : Nat) : List Char := Nat.toDigits 10 n

def zeros (n : Nat) : List Char := List.replicate n '0'

/-- The digits with the point after the first `before` of them. -/
def positionalText (form : NumberForm) (digits : List Char) (before : Int) : List Char :=
  if before ≤ 0 then '0' :: '.' :: zeros (-before).toNat ++ digits
  else if before < digits.length then
    digits.take before.toNat ++ '.' :: digits.drop before.toNat
  else
    digits ++ zeros (before.toNat - digits.length) ++ (if form.pointZero then ['.', '0'] else [])

/-- An exponent with its sign, padded to its least width. -/
def exponentText (form : NumberForm) (e : Int) : List Char :=
  let digits := digitsOf e.natAbs
  'e' :: (if e < 0 then ['-'] else if form.plus then ['+'] else [])
    ++ zeros (form.exponentWidth - digits.length) ++ digits

/-- One digit, a point before the others, and the exponent of the leading digit. -/
def scientificText (form : NumberForm) (digits : List Char) (e : Int) : List Char :=
  match digits with
  | [] => []
  | [d] => d :: (if form.scientificPointZero then ['.', '0'] else []) ++ form.exponentText e
  | d :: rest => d :: '.' :: rest ++ form.exponentText e

/-- The text of a decimal without sign. -/
def decimalText (form : NumberForm) (d : Decimal) : List Char :=
  let digits := digitsOf d.digits
  let e := d.exp + digits.length - 1
  match form.positional with
  | some (low, high) =>
    if d.digits = 0 ∨ (low ≤ e ∧ e < high) then form.positionalText digits (e + 1)
    else form.scientificText digits e
  | none => form.positionalText digits (e + 1)

/-- The text of a double. -/
def render (form : NumberForm) : Binary64 → List Char
  | .nan => ['N', 'a', 'N']
  | .ranked negative rank _ =>
    (if negative then ['-'] else []) ++
      (if rank = infinityRank then form.infinity else form.decimalText (form.select rank))

def text (form : NumberForm) (x : Binary64) : String := String.ofList (form.render x)

end NumberForm

end FactGraph
