import FactGraph.Literal.Quantity
import FactGraph.Literal.Coordinate
import FactGraph.Literal.PointInTime
import FactGraph.Literal.Quoted

/-!
# Literals

A literal is a typed value in one compact text. Its first character announces what it is:

* `"` a text, `'` a text in a language;
* a digit, a sign or a point: a quantity;
* `@` a coordinate, `^` a point in time;
* anything else: a symbol, which stands for itself.

A text that starts like one kind is never read as another. `canonicalize` gives the written
form under which statements are stored.
-/

namespace FactGraph

/-- The kinds of stored values. -/
inductive ValueKind where
  | string
  | dateAndTime
  | quantity
  | coordinate
  | symbol
  deriving DecidableEq, Repr

namespace ValueKind

def all : List ValueKind := [string, dateAndTime, quantity, coordinate, symbol]

/-- The tag of a kind in files and tables. -/
def tag : ValueKind → String
  | string => "string"
  | dateAndTime => "date_and_time"
  | quantity => "quantity"
  | coordinate => "coordinate"
  | symbol => "symbol"

def ofTag (tag : String) : Except LiteralError ValueKind :=
  match all.find? (·.tag = tag) with
  | some kind => .ok kind
  | none => .error (.unknownKind tag)

end ValueKind

/-- A typed value as it is written. -/
inductive Literal where
  | text (text : String)
  | tagged (text : TaggedText)
  | quantity (quantity : Quantity)
  | coordinate (coordinate : Coordinate)
  | pointInTime (time : PointInTime)
  | symbol (symbol : String)
  deriving DecidableEq, Repr

namespace Literal

def kind : Literal → ValueKind
  | text _ | tagged _ => .string
  | quantity _ => .quantity
  | coordinate _ => .coordinate
  | pointInTime _ => .dateAndTime
  | symbol _ => .symbol

def render : Literal → List Char
  | text t => Quoted.render '"' t
  | tagged t => t.render
  | quantity q => q.render
  | coordinate c => c.render
  | pointInTime t => t.render
  | symbol s => s.toList

/-- The written form. -/
def encode (l : Literal) : String := String.ofList l.render

/-- Starts a quantity. -/
def startsQuantity (c : Char) : Bool := c.isDigit || c = '+' || c = '-' || c = '.'

/-- Reads a literal of the kind that the first character announces. -/
def decode (s : String) : Except LiteralError Literal :=
  match s.toList.head? with
  | none => .error .empty
  | some c =>
    if c = '"' then (Quoted.read s).map text
    else if c = '\'' then (TaggedText.read s).map tagged
    else if startsQuantity c then (Quantity.read s).map quantity
    else if c = '@' then (Coordinate.read s).map coordinate
    else if c = '^' then (PointInTime.read s).map pointInTime
    else .ok (symbol s)

/-- The form under which a literal is stored: that of its value. -/
def canonicalize (s : String) : Except LiteralError String := (decode s).map encode

end Literal

end FactGraph
