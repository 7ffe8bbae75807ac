import FactGraph.Literal.Error

/-!
# Numerals

A numeral is an integer in base ten, sixteen, eight or two, or a decimal with a point or an
exponent; a sign may stand before it and single underscores between its digits. An integer in
base ten has no leading zero unless all its digits are zero.

`Numeral.read?` takes a whole text apart, and `Number.ofNumeral` gives its value: an integer
where the numeral is one and 64 bits hold it, otherwise the nearest double.
-/

namespace FactGraph

-- Powers are those of the core library, whatever else is in scope.
attribute [local instance (high)] instPowNat

/-! ## Numbers -/

/-- `z` is a 64-bit integer. -/
def FitsInt64 (z : Int) : Prop := -2 ^ (63 : Nat) ≤ z ∧ z < 2 ^ (63 : Nat)

instance (z : Int) : Decidable (FitsInt64 z) := by unfold FitsInt64; infer_instance

/-- A magnitude: an integer or a double. -/
inductive Number where
  | int (value : Int64)
  | float (value : Binary64)
  deriving DecidableEq, Repr

namespace Number

/-- The integer itself if 64 bits hold it, otherwise the nearest double. -/
def ofInt (z : Int) : Number :=
  if FitsInt64 z then .int (Int64.ofInt z) else .float (.ofInt z)

def toBinary64 : Number → Binary64
  | .int v => .ofInt v.toInt
  | .float x => x

def isFloat : Number → Bool
  | .int _ => false
  | .float _ => true

/-- The text of a number; that of a double has a point or an exponent, so it stays one. -/
def render : Number → List Char
  | .int v => (toString v.toInt).toList
  | .float x => NumberForm.literal.render x

def text (n : Number) : String := String.ofList n.render

end Number

/-! ## The form of numerals -/

/-- The bases that a mark after a leading zero announces. -/
inductive Base where
  | binary
  | octal
  | hexadecimal
  deriving DecidableEq, Repr

namespace Base

def size : Base → Nat
  | binary => 2
  | octal => 8
  | hexadecimal => 16

def ofMark? (c : Char) : Option Base :=
  if c = 'x' ∨ c = 'X' then some hexadecimal
  else if c = 'o' ∨ c = 'O' then some octal
  else if c = 'b' ∨ c = 'B' then some binary
  else none

end Base

/-- The value of a digit in a base of at most sixteen. -/
def digitValue? (base : Nat) (c : Char) : Option Nat :=
  let value? :=
    if '0' ≤ c ∧ c ≤ '9' then some (c.toNat - '0'.toNat)
    else if 'a' ≤ c ∧ c ≤ 'f' then some (c.toNat - 'a'.toNat + 10)
    else if 'A' ≤ c ∧ c ≤ 'F' then some (c.toNat - 'A'.toNat + 10)
    else none
  value?.filter (· < base)

/-- The digits of a text in which one underscore may stand before each digit. -/
def furtherDigits? (base : Nat) : List Char → Option (List Nat)
  | [] => some []
  | '_' :: c :: rest => do
    let d ← digitValue? base c
    let ds ← furtherDigits? base rest
    some (d :: ds)
  | c :: rest => do
    let d ← digitValue? base c
    let ds ← furtherDigits? base rest
    some (d :: ds)

/-- The digits of a text that starts with one. -/
def digits? (base : Nat) : List Char → Option (List Nat)
  | [] => none
  | c :: rest => do
    let d ← digitValue? base c
    let ds ← furtherDigits? base rest
    some (d :: ds)

/-- The natural number that digits denote, most significant first. -/
def valueOfDigits (base : Nat) (digits : List Nat) : Nat :=
  digits.foldl (fun value d => value * base + d) 0

/-- A numeral without its sign. -/
inductive Magnitude where
  | whole (digits : List Nat)
  | based (base : Base) (digits : List Nat)
  | decimal (whole fraction : List Nat) (exp : Int)
  deriving DecidableEq, Repr

/-- A sign, if there is one, and what follows it. -/
def splitSign : List Char → Bool × List Char
  | '-' :: rest => (true, rest)
  | '+' :: rest => (false, rest)
  | cs => (false, cs)

namespace Magnitude

/-- The digits of a text, none for an empty one. -/
def optionalDigits? (cs : List Char) : Option (List Nat) :=
  if cs.isEmpty then some [] else digits? 10 cs

/-- The exponent after its mark. -/
def exponent? (cs : List Char) : Option Int := do
  let (negative, rest) := splitSign cs
  let ds ← digits? 10 rest
  let value := valueOfDigits 10 ds
  some (if negative then -value else value)

def isExponentMark (c : Char) : Bool := c = 'e' || c = 'E'

/-- A numeral of base ten: the exponent mark splits off the exponent, the point the fraction. -/
def readDecimal? (cs : List Char) : Option Magnitude :=
  let (mantissa, marked) := cs.span fun c => !isExponentMark c
  let (before, pointed) := mantissa.span (· ≠ '.')
  match pointed, marked with
  | [], [] => do
    let ds ← digits? 10 before
    if ds.head? = some 0 ∧ ds.any (· ≠ 0) then none else some (.whole ds)
  | [], _ :: scale => do
    some (.decimal (← digits? 10 before) [] (← exponent? scale))
  | _ :: fraction, scale =>
    if before.isEmpty ∧ fraction.isEmpty then none
    else do
      let exp ← if scale.isEmpty then some 0 else exponent? scale.tail
      some (.decimal (← optionalDigits? before) (← optionalDigits? fraction) exp)

/-- A zero with a base mark starts a numeral of that base, anything else one of base ten. -/
def read? (cs : List Char) : Option Magnitude :=
  match cs with
  | '0' :: mark :: rest =>
    match Base.ofMark? mark with
    | some base => do
      let ds ← furtherDigits? base.size rest
      if ds.isEmpty then none else some (.based base ds)
    | none => readDecimal? cs
  | _ => readDecimal? cs

end Magnitude

/-- A numeral with the text that it was read from. -/
structure Numeral where
  text : List Char
  negative : Bool
  magnitude : Magnitude
  deriving DecidableEq, Repr

/-- Reads the whole text as a numeral. -/
def Numeral.read? (cs : List Char) : Option Numeral :=
  let (negative, rest) := splitSign cs
  (Magnitude.read? rest).map fun magnitude => ⟨cs, negative, magnitude⟩

/-- The text starts like a numeral of base sixteen. -/
def startsHexadecimal (cs : List Char) : Bool :=
  match (splitSign cs).2 with
  | '0' :: mark :: _ => Base.ofMark? mark = some .hexadecimal
  | _ => false

/-- A character that can occur in a numeral with which the text starts: a digit of its base or an
underscore, a sign, a point, or a mark of a base or an exponent. -/
def isNumeralChar (cs : List Char) (c : Char) : Bool :=
  c = '_' || c = '+' || c = '-' || (Base.ofMark? c).isSome ||
    if startsHexadecimal cs then (digitValue? 16 c).isSome
    else c.isDigit || c = '.' || Magnitude.isExponentMark c

/-! ## The value of numerals -/

namespace Number

def signed (negative : Bool) (n : Nat) : Int := if negative then -n else n

/-- The value of a numeral. With a base mark the magnitude is limited to 64 bits; a decimal
with a point or an exponent has to round to a finite double. -/
def ofNumeral (n : Numeral) : Except LiteralError Number :=
  match n.magnitude with
  | .whole ds => .ok (ofInt (signed n.negative (valueOfDigits 10 ds)))
  | .based base ds =>
    let value := valueOfDigits base.size ds
    if value < 2 ^ (64 : Nat) then .ok (ofInt (signed n.negative value))
    else .error (.tooLarge (String.ofList n.text))
  | .decimal whole fraction exp =>
    let x := Binary64.ofDecimal n.negative (valueOfDigits 10 (whole ++ fraction))
      (exp - fraction.length)
    if x.isFinite then .ok (.float x) else .error (.notFinite (String.ofList n.text))

/-- Reads a text that holds a number and nothing else. -/
def ofText (text : String) : Except LiteralError Number :=
  match Numeral.read? text.toList with
  | some n => ofNumeral n
  | none => .error (.number text)

end Number

end FactGraph
