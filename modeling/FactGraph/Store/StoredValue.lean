import FactGraph.Cell
import FactGraph.Error
import FactGraph.Statement

/-!
# Values in tables

Each kind of value has a table whose columns hold its parts. Columns of doubles keep no sign of
zero and nothing that is no number: where such a column is optional it becomes empty, and where
it is required the value is refused. The column of a number takes integers and doubles as they
are.

What is read back is what was written, up to the sign of zero in columns of doubles.
-/

namespace FactGraph

/-- The columns of a value of a kind. -/
inductive StoredValue : ValueKind → Type where
  | string (text : String) (language : Option String) : StoredValue .string
  | pointInTime (text : String) (precision : Option Int) (calendar : Option String) :
    StoredValue .dateAndTime
  | quantity (number : Cell) (unit : Option String) (lowTolerance highTolerance : Option Binary64) :
    StoredValue .quantity
  | coordinate (latitude longitude : Binary64) (precision : Option Binary64) :
    StoredValue .coordinate
  | symbol (symbol : String) : StoredValue .symbol
  deriving DecidableEq

/-- A double in a column of doubles. -/
def columnValue? (x : Binary64) : Option Binary64 :=
  if x.isNaN then none else some x.unsignedZero

/-- A number in its column. -/
def numberCell? : Number → Option Cell
  | .int v => some (.int v)
  | .float x => if x.isNaN then none else some (.real x)

namespace StoredValue

/-- The columns of a value, unless one that is required would be empty. -/
def ofValue? : (v : Value) → Option (StoredValue v.kind)
  | .string text language => some (.string text language)
  | .pointInTime t =>
    some (.pointInTime t.text (t.precision.map fun p => (p.toNat : Int)) t.calendar)
  | .quantity q => do
    let number ← numberCell? q.number
    some (.quantity number q.unit (q.lowTolerance.bind columnValue?)
      (q.highTolerance.bind columnValue?))
  | .coordinate c => do
    let latitude ← columnValue? c.latitude
    let longitude ← columnValue? c.longitude
    some (.coordinate latitude longitude (c.precision.bind columnValue?))
  | .symbol s => some (.symbol s)

/-- The columns as they are after they were written. -/
def kept {kind : ValueKind} (encoding : TextEncoding) : StoredValue kind → StoredValue kind
  | .string text language => .string (encoding.kept text) (language.map encoding.kept)
  | .pointInTime text precision calendar =>
    .pointInTime (encoding.kept text) precision (calendar.map encoding.kept)
  | .quantity number unit low high =>
    .quantity (number.kept encoding) (unit.map encoding.kept) low high
  | .coordinate latitude longitude precision => .coordinate latitude longitude precision
  | .symbol s => .symbol (encoding.kept s)

/-- The columns of a value after its id. -/
def cells : {kind : ValueKind} → StoredValue kind → List Cell
  | _, .string text language => [.text text, .ofText? language]
  | _, .pointInTime text precision calendar =>
    [.text text, .ofInt? precision, .ofText? calendar]
  | _, .quantity number unit low high => [number, .ofText? unit, .ofReal? low, .ofReal? high]
  | _, .coordinate latitude longitude precision =>
    [.real latitude, .real longitude, .ofReal? precision]
  | _, .symbol s => [.text s]

/-- A precision is a natural number below 256; any other reads as absent. -/
def precisionOf (p : Int) : Option UInt8 :=
  if 0 ≤ p ∧ p < 256 then some (UInt8.ofNat p.toNat) else none

/-- The number in a cell. A text counts if it is a numeral. -/
def numberOf : Cell → Except StoreError Number
  | .int v => .ok (.int v)
  | .real x => .ok (.float x)
  | .text t => (Number.ofText t).mapError fun _ => .query
  | .null | .bytes _ => .error .query

/-- The unit in its column: a node identifier is a node, any other text an expression. -/
def quantityOf (number : Number) (unit : Option String) (low high : Option Binary64) : Quantity :=
  let q : Quantity := ⟨number, low, high, none, none⟩
  match unit with
  | some unit => q.withUnit unit
  | none => q

/-- The value of the columns. -/
def toValue : {kind : ValueKind} → StoredValue kind → Except StoreError Value
  | _, .string text language => .ok (.string text language)
  | _, .pointInTime text precision calendar =>
    .ok (.pointInTime ⟨text, precision.bind precisionOf, calendar⟩)
  | _, .quantity number unit low high =>
    (numberOf number).map fun n => .quantity (quantityOf n unit low high)
  | _, .coordinate latitude longitude precision =>
    .ok (.coordinate ⟨latitude, longitude, precision⟩)
  | _, .symbol s => .ok (.symbol s)

end StoredValue

/-- A row of a value table: the id of the edge and the columns. -/
structure ValueRow (kind : ValueKind) where
  edgeId : String
  stored : StoredValue kind
  deriving DecidableEq

end FactGraph
