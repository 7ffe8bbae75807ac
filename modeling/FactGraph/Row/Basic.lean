import FactGraph.Error
import FactGraph.Statement

/-!
# Rows

A flat row holds a statement with its value as one written literal; an exploded row holds one
column for each part of the value.

The columns of an exploded row are kept in the order of `Field.all`, so rows with the same
columns are equal.
-/

namespace FactGraph

/-- A statement as a row with a written value. The id may be absent. -/
structure FlatRow where
  id : Option String
  node1 : String
  label : String
  node2 : String
  deriving DecidableEq, Repr

/-- The columns for the parts of a value. -/
inductive Field where
  | number | lowTolerance | highTolerance | siUnits | unitsNode
  | dateAndTime | precision | calendar
  | text | language | languageSuffix
  | latitude | longitude
  | symbol
  deriving DecidableEq, Repr

namespace Field

/-- All columns, in the order of files. -/
def all : List Field :=
  [number, lowTolerance, highTolerance, siUnits, unitsNode, dateAndTime, precision, calendar,
   text, language, languageSuffix, latitude, longitude, symbol]

def name : Field → String
  | number => "number"
  | lowTolerance => "low_tolerance"
  | highTolerance => "high_tolerance"
  | siUnits => "si_units"
  | unitsNode => "units_node"
  | dateAndTime => "date_and_time"
  | precision => "precision"
  | calendar => "calendar"
  | text => "text"
  | language => "language"
  | languageSuffix => "language_suffix"
  | latitude => "latitude"
  | longitude => "longitude"
  | symbol => "symbol"

def ofName? (name : String) : Option Field := all.find? (·.name = name)

end Field

/-- The columns that have a text. -/
abbrev Fields := List (Field × String)

namespace Fields

/-- The columns with the texts that `f` gives them, in the order of all columns. -/
def ofFn (f : Field → Option String) : Fields :=
  Field.all.filterMap fun field => (f field).map (field, ·)

def get? (fields : Fields) (field : Field) : Option String :=
  (fields.find? (·.1 = field)).map (·.2)

end Fields

/-- A statement as a row with a column for each part of its value. The tag is any text. -/
structure ExplodedRow where
  id : String
  node1 : String
  label : String
  node2 : String
  tag : String
  fields : Fields
  deriving DecidableEq, Repr

namespace ExplodedRow

/-- The text of a column; an empty one counts as absent. -/
def field? (row : ExplodedRow) (field : Field) : Option String :=
  (row.fields.get? field).filter (!·.isEmpty)

end ExplodedRow

/-- Why a flat row was rejected. -/
inductive RowFault where
  | node1Empty
  | labelEmpty
  | node2 (cause : LiteralError)
  deriving DecidableEq, Repr

namespace RowFault

def column : RowFault → String
  | node1Empty => "node1"
  | labelEmpty => "label"
  | node2 _ => "node2"

def message : RowFault → String
  | node1Empty => "node1 is empty"
  | labelEmpty => "label is empty"
  | node2 cause => cause.report

end RowFault

/-- A rejected row with its line, where the header is line one. -/
structure RowError where
  line : Nat
  fault : RowFault
  deriving DecidableEq, Repr

end FactGraph
