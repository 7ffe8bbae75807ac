import FactGraph.Row.Basic
import FactGraph.Text.Blank

/-!
# From rows to statements and back

`explode` reads the values of flat rows; a rejected row gives an error and nothing else.
`Statement.toExploded` and `Statement.ofExploded` go between a statement and its columns.

A row without an id gets a derived one. Among equal statements of one run the first, second
and so on get different ids, and rejected rows are not counted.
-/

namespace FactGraph

/-- What the ids of a run depend on: node, label and written value. -/
abbrev Triple := String × String × String

/-- The outcome of a run over flat rows. -/
structure ExplodeReport where
  statements : List Statement
  errors : List RowError
  deriving DecidableEq, Repr

/-- Reads one row. `seen` lists the triples that were given derived ids so far; it grows by
one whenever another derived id is given. -/
def explodeRow (seen : List Triple) (row : FlatRow) :
    Except RowFault (Statement × List Triple) :=
  if Text.isBlankText row.node1 then .error .node1Empty
  else if Text.isBlankText row.label then .error .labelEmpty
  else match Literal.decode row.node2 with
    | .error cause => .error (.node2 cause)
    | .ok l =>
      match row.id.filter (!·.isEmpty) with
      | some id => .ok (.ofLiteral id row.node1 row.label l, seen)
      | none =>
        let triple := (row.node1, row.label, l.encode)
        let id := edgeId row.node1 row.label l.encode (seen.count triple)
        .ok (.ofLiteral id row.node1 row.label l, triple :: seen)

/-- Reads the rows from line `line` on. With `failFast` the first rejected row ends the run. -/
def explodeFrom (failFast : Bool) (line : Nat) (seen : List Triple) :
    List FlatRow → ExplodeReport
  | [] => ⟨[], []⟩
  | row :: rows =>
    match explodeRow seen row with
    | .ok (statement, seen) =>
      let report := explodeFrom failFast (line + 1) seen rows
      { report with statements := statement :: report.statements }
    | .error fault =>
      let report := if failFast then ⟨[], []⟩ else explodeFrom failFast (line + 1) seen rows
      { report with errors := ⟨line, fault⟩ :: report.errors }

/-- Reads the rows of a file, whose header is line one. -/
def explode (failFast : Bool) (rows : List FlatRow) : ExplodeReport :=
  explodeFrom failFast 2 [] rows

namespace Statement

/-! ## Columns -/

/-- The text of a double in a column. -/
def columnText (x : Binary64) : String := NumberForm.column.text x

/-- The columns of a value. -/
def fieldOf (value : Value) (field : Field) : Option String :=
  match value, field with
  | .quantity q, .number => some q.number.text
  | .quantity q, .lowTolerance => q.lowTolerance.map columnText
  | .quantity q, .highTolerance => q.highTolerance.map columnText
  | .quantity q, .siUnits => q.siUnits
  | .quantity q, .unitsNode => q.unitsNode
  | .pointInTime t, .dateAndTime => some t.text
  | .pointInTime t, .precision => t.precision.map fun p => toString p.toNat
  | .pointInTime t, .calendar => t.calendar
  | .string text _, .text => some text
  | .string _ (some tag), .language => some (TaggedText.splitTag tag).1
  | .string _ (some tag), .languageSuffix => (TaggedText.splitTag tag).2
  | .coordinate c, .latitude => some (columnText c.latitude)
  | .coordinate c, .longitude => some (columnText c.longitude)
  | .coordinate c, .precision => c.precision.map columnText
  | .symbol s, .symbol => some s
  | _, _ => none

/-- The statement in columns. -/
def toExploded (s : Statement) : ExplodedRow :=
  ⟨s.edge.id, s.edge.node1, s.edge.label, s.edge.node2, s.edge.kind.tag,
   .ofFn (fieldOf s.value)⟩

/-- The statement as a flat row. -/
def toFlat (s : Statement) : FlatRow :=
  ⟨some s.edge.id, s.edge.node1, s.edge.label, s.edge.node2⟩

/-- A column that the kind of the row needs. -/
def required (row : ExplodedRow) (field : Field) : Except StoreError String :=
  match row.field? field with
  | some text => .ok text
  | none => .error (.invalidInput (.rowField row.id row.tag field.name))

def readNumber (text : String) : Except StoreError Number :=
  (Number.ofText text).mapError .literal

def readBinary64 (text : String) : Except StoreError Binary64 :=
  (readNumber text).map Number.toBinary64

/-- The double in a column, if the column has a text. -/
def optionalBinary64 (row : ExplodedRow) (field : Field) : Except StoreError (Option Binary64) :=
  match row.field? field with
  | some text => (readBinary64 text).map some
  | none => .ok none

/-- A natural number below 256 in decimal digits; a plus sign may stand before them. -/
def readByte? (text : String) : Option UInt8 :=
  let digits := match text.toList with
    | '+' :: rest => rest
    | cs => cs
  if digits.isEmpty then none
  else do
    let n := valueOfDigits 10 (← digits.mapM (digitValue? 10))
    if n < 256 then some (UInt8.ofNat n) else none

def quantityOfExploded (row : ExplodedRow) : Except StoreError Quantity := do
  let number ← readNumber (← required row .number)
  let lowTolerance ← optionalBinary64 row .lowTolerance
  let highTolerance ← optionalBinary64 row .highTolerance
  match row.field? .unitsNode with
  | some node =>
    if isUnitsNode node then .ok ⟨number, lowTolerance, highTolerance, none, some node⟩
    else .error (.literal (.unitsNode node))
  | none => .ok ⟨number, lowTolerance, highTolerance, row.field? .siUnits, none⟩

def pointInTimeOfExploded (row : ExplodedRow) : Except StoreError PointInTime := do
  let precision ← match row.field? .precision with
    | some text =>
      match readByte? text with
      | some p => .ok (some p)
      | none => .error (.literal (.precisionText text))
    | none => .ok none
  let text ← required row .dateAndTime
  (PointInTime.ofParts text precision (row.field? .calendar)).mapError .literal

/-- The language tag in the columns; a suffix without a language is left out. -/
def tagOfExploded (row : ExplodedRow) : Option String :=
  match row.field? .language, row.field? .languageSuffix with
  | some language, some suffix => some (language ++ "-" ++ suffix)
  | some language, none => some language
  | none, _ => none

def coordinateOfExploded (row : ExplodedRow) : Except StoreError Coordinate := do
  let latitude ← readBinary64 (← required row .latitude)
  let longitude ← readBinary64 (← required row .longitude)
  let c ← (Coordinate.ofDegrees latitude longitude).mapError .literal
  let precision ← optionalBinary64 row .precision
  .ok { c with precision }

def valueOfExploded (row : ExplodedRow) : ValueKind → Except StoreError Value
  | .quantity => (quantityOfExploded row).map .quantity
  | .dateAndTime => (pointInTimeOfExploded row).map .pointInTime
  | .string => .ok (.string ((row.fields.get? .text).getD "") (tagOfExploded row))
  | .coordinate => (coordinateOfExploded row).map .coordinate
  | .symbol => (required row .symbol).map .symbol

/-- The statement of a row of columns. Its written value is that of the columns; the one in
the row is not looked at. -/
def ofExploded (row : ExplodedRow) : Except StoreError Statement :=
  match ValueKind.ofTag row.tag with
  | .error _ => .error (.invalidInput (.rowTag row.id row.tag))
  | .ok kind => do
    let value ← valueOfExploded row kind
    .ok ⟨⟨row.id, row.node1, row.label, value.toLiteral.encode, kind⟩, value⟩

end Statement

/-- Packs a row of columns into a flat row. -/
def implode (row : ExplodedRow) : Except StoreError FlatRow :=
  (Statement.ofExploded row).map Statement.toFlat

end FactGraph
