import FactGraph.Schema.Designation
import FactGraph.Store.Session

/-!
# Direct edits

Edits of single tables that by-pass the checks of a store, as a tool for repairs makes them. An
edit answers how many rows it changed, and is refused where the tables themselves refuse it:
a table that does not exist, an id that is taken, a kind that there is not.

References between tables are not looked after, except in an open transaction, where they
cannot be switched off: values go with their edge and need one, and the table of edges.
-/

namespace FactGraph

/-- An edit of one table, which is named as in a statement. -/
inductive Edit where
  | deleteValue (table id : String)
  | deleteEdge (id : String)
  | retag (id tag : String)
  | insertValue (table id text : String)
  | setNumber (id : String) (number : Cell)
  | setPrecision (id : String) (precision : Int)
  | setVersion (version : Int)
  | dropTable (table : String)
  deriving DecidableEq, Repr

/-- The order in which an edit is written. -/
def Edit.order : Edit → WriteOrder
  | .insertValue _ id _ => ⟨[], [id]⟩
  | _ => .none

namespace Database

/-- The kind whose values the table holds, if it exists. -/
def kindOf? (db : Database) (table : TableDesignation) : Option ValueKind :=
  match table.table? with
  | some (.values kind) => if db.has (.values kind) then some kind else none
  | _ => none

/-- The kind whose values have their main text in the column that is written for a table. For a
table that is not called by its plain name that is the column of numbers. -/
def textKind (table : String) : ValueKind :=
  ([.string, .dateAndTime, .symbol].find? (TableName.ofKind · = table)).getD .quantity

/-- A row of values with one text, where the other columns may be empty. -/
def valueOfText? (text : String) : (kind : ValueKind) → Option (StoredValue kind)
  | .string => some (.string text none)
  | .dateAndTime => some (.pointInTime text none none)
  | .quantity => some (.quantity (.text text) none none none)
  | .coordinate => none
  | .symbol => some (.symbol text)

/-- The contents without the rows of a table. -/
def clearTable (db : Database) : TableName → Database
  | .edges => { db with tables := db.tables.detachEdges fun _ => true }
  | .values kind => { db with tables := db.tables.setValues kind .empty }
  | .version => { db with version := none }
  | .history => { db with history := [] }

/-- Changes the columns of the value of an id. -/
def updateValue {kind : ValueKind} (db : Database) (id : String)
    (f : StoredValue kind → StoredValue kind) : Option (Database × Nat) :=
  if db.has (.values kind) then
    let id := db.tables.kept id
    let rows := (db.tables.values kind).mapRows
      (fun row => if row.edgeId = id then { row with stored := f row.stored } else row)
      (fun row => by split <;> rfl)
    some ({ db with tables := db.tables.setValues kind rows },
      if (db.tables.values kind).contains id then 1 else 0)
  else none

/-- The database after an edit and the number of rows changed, or nothing if it is refused.
`guarded` tells that references are looked after, and `engine` whether tags are. -/
def edit? (db : Database) (engine : Engine) (guarded : Bool) : Edit → Option (Database × Nat)
  | .deleteValue table id => do
    let kind ← db.kindOf? (← TableDesignation.ofStatement? table)
    let values := (db.tables.values kind).erase (db.tables.kept id)
    if guarded && !db.has .edges then none
    else some ({ db with tables := db.tables.setValues kind values },
      if db.tables.containsValue kind id then 1 else 0)
  | .deleteEdge id =>
    if db.has .edges then
      let names (e : Edge) : Bool := e.id = db.tables.kept id
      let tables := if guarded then db.tables.removeEdges names else db.tables.detachEdges names
      some ({ db with tables := tables }, if db.tables.containsEdge id then 1 else 0)
    else none
  | .retag id tag =>
    if db.has .edges then
      if !db.tables.containsEdge id then some (db, 0)
      else if engine.checksTags && (ValueKind.ofTag tag).toOption.isNone then none
      else some ({ db with tables := db.tables.retag id tag }, 1)
    else none
  | .insertValue table id text => do
    let kind ← db.kindOf? (← TableDesignation.ofStatement? table)
    let stored ← if kind = textKind table then valueOfText? text kind else none
    if db.tables.containsValue kind id || (guarded && !db.tables.containsEdge id) then none
    else some ({ db with tables := db.tables.addValue ⟨id, stored⟩ }, 1)
  | .setNumber id number =>
    db.updateValue id fun
      | .quantity _ unit low high => .quantity (number.kept db.tables.encoding) unit low high
  | .setPrecision id precision =>
    db.updateValue id fun
      | .pointInTime text _ calendar => .pointInTime text (some precision) calendar
  | .setVersion version =>
    if db.has .version then
      some (if db.version.isSome then ({ db with version := some version }, 1) else (db, 0))
    else none
  | .dropTable table => do
    let (designation, mayBeMissing) ← TableDesignation.ofDrop? table
    if designation.isRemovalTable && db.doomed.isSome then
      return ({ db with doomed := none }, 0)
    match designation.table?.filter db.has with
    | some name =>
      let cleared := if guarded && name = .edges
        then { db with tables := db.tables.removeEdges fun _ => true } else db
      some ({ cleared.clearTable name with schema := db.schema.dropTable name }, 0)
    | none =>
      if mayBeMissing && !TableDesignation.isBuiltIn designation.name then some (db, 0) else none

end Database

/-- Makes an edit and answers the number of rows changed, or nothing if it is refused. -/
def Store.edit (s : Store) (e : Edit) : Option Nat × Store :=
  let isOpen := s.saved.isSome
  match s.database.edit? s.engine isOpen e with
  | none => (none, s)
  | some (changed, n) =>
    match s.database.followed? changed fun _ => e.order with
    | some db => (some n, { s with database := if isOpen then db else db.settled })
    | none => (none, s.exhausted)

end FactGraph
