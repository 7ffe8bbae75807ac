import FactGraph.Decimal.Form

/-!
# What can be wrong with a literal

A literal is refused for one of the causes below. A cause is of kind `malformed` when the text
does not have the form that its first character announces, and of kind `outOfRange` when the
form is right but a component lies outside its domain.
-/

namespace FactGraph

/-- Form or domain. -/
inductive LiteralErrorKind where
  | malformed
  | outOfRange
  deriving DecidableEq, Repr

def LiteralErrorKind.name : LiteralErrorKind → String
  | .malformed => "syntax"
  | .outOfRange => "range"

/-- The causes. Where a text is carried, it is the refused one. -/
inductive LiteralError where
  | empty
  | quantity (text : String)
  | number (text : String)
  | coordinate (text : String)
  | pointInTime (text : String)
  | quotedText (text : String)
  | taggedText (text : String)
  | mixedSeparators (text : String)
  | unknownKind (tag : String)
  | unitsNode (text : String)
  | precisionText (text : String)
  | tooLarge (text : String)
  | notFinite (text : String)
  | yearTooLarge (text : String)
  | year (year : Int)
  | monthZero (text : String)
  | dayZero (text : String)
  | endOfDay (text : String)
  | precision (precision : Nat)
  | latitude (degrees : Binary64)
  | longitude (degrees : Binary64)
  deriving DecidableEq, Repr

/-- The first and the last year that a date may have. -/
def firstYear : Int := 1583
def lastYear : Int := 2100

/-- The greatest precision of a date. -/
def finestPrecision : Nat := 19

namespace LiteralError

def kind : LiteralError → LiteralErrorKind
  | tooLarge _ | notFinite _ | yearTooLarge _ | year _ | monthZero _ | dayZero _ | endOfDay _
  | precision _ | latitude _ | longitude _ => .outOfRange
  | _ => .malformed

def message : LiteralError → String
  | empty => "empty literal"
  | quantity text => s!"malformed quantity: {text}"
  | number text => s!"malformed number: {text}"
  | coordinate text => s!"malformed coordinates: {text}"
  | pointInTime text => s!"malformed date/time: {text}"
  | quotedText text => s!"malformed quoted string: {text}"
  | taggedText text => s!"malformed language-qualified string: {text}"
  | mixedSeparators text => s!"mixed basic and extended separators in {text}"
  | unknownKind tag => s!"unknown data type tag `{tag}`"
  | unitsNode text => s!"bad units node {text}"
  | precisionText text => s!"bad precision {text}"
  | tooLarge text => s!"{text}: number too large to fit in target type"
  | notFinite text => s!"{text} is not finite"
  | yearTooLarge text => s!"year out of range: {text}"
  | year y => s!"year {y} outside [{firstYear}, {lastYear}]"
  | monthZero text => s!"month 00 in {text}"
  | dayZero text => s!"day 00 in {text}"
  | endOfDay text => s!"hour 24 in {text}"
  | precision p => s!"precision {p} outside [0, {finestPrecision}]"
  | latitude x => s!"latitude {NumberForm.column.text x} outside [-90, 90]"
  | longitude x => s!"longitude {NumberForm.column.text x} outside [-180, 180]"

/-- The message with its kind, as it stands in reports. -/
def report (e : LiteralError) : String := s!"literal {e.kind.name} error: {e.message}"

end LiteralError

end FactGraph
