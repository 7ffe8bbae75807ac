import FactGraph.Literal.Numeral
import FactGraph.Text.Encoding

/-!
# Cells

What one column of one row holds, and what a query binds. Cells are ordered by class first:
null, numbers, texts, bytes. Integers and doubles are one class and compare by value; texts
compare by the bytes of their encoding.
-/

namespace FactGraph

-- Powers are those of the core library, whatever else is in scope.
attribute [local instance (high)] instPowNat

inductive Cell where
  | null
  | int (value : Int64)
  | real (value : Binary64)
  | text (text : String)
  | bytes (bytes : List UInt8)
  deriving DecidableEq, Repr

namespace Cell

/-- A text, or null where there is none. -/
def ofText? : Option String → Cell
  | some t => text t
  | none => null

def ofReal? : Option Binary64 → Cell
  | some x => real x
  | none => null

def ofInt? : Option Int → Cell
  | some z => int (Int64.ofInt z)
  | none => null

def ofNumber : Number → Cell
  | .int v => int v
  | .float x => real x

/-- The text in a cell, if it holds one. -/
def text? : Cell → Option String
  | text t => some t
  | _ => none

/-- The cell as it is after it was written. -/
def kept (encoding : TextEncoding) : Cell → Cell
  | text t => text (encoding.kept t)
  | c => c

/-! ## Order -/

/-- The class of a cell in the order of cells. -/
def rank : Cell → Nat
  | null => 0
  | int _ | real _ => 1
  | text _ => 2
  | bytes _ => 3

/-- The value of a number in units of the least positive double, zero for other cells. -/
def units : Cell → Int
  | int v => v.toInt * 2 ^ (1074 : Nat)
  | real x => x.units
  | _ => 0

/-- The order of two cells: by class, then by value. -/
def compare (encoding : TextEncoding) (a b : Cell) : Ordering :=
  (Ord.compare a.rank b.rank).then <| (Ord.compare a.units b.units).then <|
    match a, b with
    | text s, text t => encoding.compare s t
    | bytes s, bytes t => compareOfLessAndEq s t
    | _, _ => .eq

/-- The order of two rows of cells: the first cells that differ decide. -/
def compareRows (encoding : TextEncoding) : List Cell → List Cell → Ordering
  | [], [] => .eq
  | [], _ => .lt
  | _, [] => .gt
  | a :: as, b :: bs => (compare encoding a b).then (compareRows encoding as bs)

end Cell

end FactGraph
