import FactGraph.Paging.Pages

/-!
# Databases

A database has contents, the version of its schema with the history of migrations, and the
tables and indexes that exist. A table that does not exist is empty, and what needs it fails.

Reading functions answer from the contents, after a check that the tables they name exist.
-/

namespace FactGraph

/-- The tables and indexes that exist. -/
structure Schema where
  tables : List TableName
  indexes : List IndexName
  deriving DecidableEq, Repr

namespace Schema

def empty : Schema := ⟨[], []⟩

def addTable (s : Schema) (t : TableName) : Schema :=
  if t ∈ s.tables then s else { s with tables := s.tables ++ [t] }

def addIndex (s : Schema) (i : IndexName) : Schema :=
  if i ∈ s.indexes then s else { s with indexes := s.indexes ++ [i] }

/-- The schema without a table. The indexes of the edges go with their table. -/
def dropTable (s : Schema) (t : TableName) : Schema :=
  ⟨s.tables.filter (· ≠ t), if t = .edges then [] else s.indexes⟩

/-- All that exists, indexes first, each in the order of their names. -/
def objects (s : Schema) : List String :=
  sortedTexts (s.tables.map (fun t => SchemaObject.text (.table t)) ++
    s.indexes.map (fun i => SchemaObject.text (.index i)))

end Schema

/-- A migration step that was made: the version it led to, and when. -/
structure AppliedMigration where
  version : Int
  appliedAt : String
  deriving DecidableEq, Repr

/-- Contents, version, history and schema. -/
structure Database where
  tables : Tables
  version : Option Int
  history : List AppliedMigration
  schema : Schema
  /-- As long as the database is open: the ids of edges to be removed, once there is a table for
  them. -/
  doomed : Option (List String)
  /-- The pages that it takes. Nobody counts them unless there is a limit. -/
  pages : Option Pages
  /-- The tables whose rows something else has written over. They exist, but cannot be used. -/
  lost : List TableName

namespace Database

/-- The database without tables. -/
def empty : Database := ⟨.empty, none, [], .empty, none, none, []⟩

/-- The table exists and can be used. -/
def has (db : Database) (t : TableName) : Bool := t ∈ db.schema.tables && t ∉ db.lost

/-- Both databases have the same schema, version and history. -/
def hasShapeOf (db other : Database) : Bool :=
  db.schema = other.schema && db.version = other.version && db.history = other.history

/-- The database when it is opened. One without schema takes an encoding; any other keeps its
own. -/
def reopened (db : Database) (encoding : TextEncoding) : Database :=
  let db := { db with doomed := none }
  if db.schema = .empty then { db with tables := { db.tables with encoding := encoding } } else db

/-- Fails unless the table exists. -/
def require (db : Database) (t : TableName) (cause : StoreError := .query) :
    Except StoreError Unit :=
  if db.has t then .ok () else .error cause

/-! ## Reading -/

/-- An edge as it is read: a tag that names no kind cannot be read. -/
def readEdge (db : Database) (e : Edge) : Except StoreError Edge :=
  match db.tables.unknownTag? e with
  | some _ => .error .query
  | none => .ok e

/-- The edges of a node with a label, in the order of their ids. -/
def lookup (db : Database) (node1 label : String) : Except StoreError (List Edge) := do
  db.require .edges
  (db.tables.lookup node1 label).mapM db.readEdge

/-- The nodes with an edge of this label and written value, in ascending order. -/
def subjects (db : Database) (label node2 : String) : Except StoreError (List String) := do
  db.require .edges
  .ok (db.tables.subjects label node2)

def edge (db : Database) (id : String) : Except StoreError Edge := do
  db.require .edges
  match db.tables.edges.find? (db.tables.kept id) with
  | some e => db.readEdge e
  | none => .error (.notFound (.edge id))

/-- The value of an edge, if there is one in the table of its kind. -/
def valueOf (db : Database) (e : Edge) : Except StoreError (Option Value) := do
  db.require (.values e.kind)
  db.tables.value e.kind e.id

/-- The value stored under an id. -/
def value (db : Database) (id : String) : Except StoreError (Option Value) := do
  db.valueOf (← db.edge id)

/-- The edge with its value. -/
def attach (db : Database) (e : Edge) : Except StoreError Statement := do
  match ← db.valueOf e with
  | some v => .ok ⟨e, v⟩
  | none => .error (.notFound (.value e.id))

def statement (db : Database) (id : String) : Except StoreError Statement := do
  db.attach (← db.edge id)

/-- The statements of a node with a label, in the order of their ids. -/
def statements (db : Database) (node1 label : String) : Except StoreError (List Statement) := do
  (← db.lookup node1 label).mapM db.attach

/-- All statements in the order of their ids. -/
def allStatements (db : Database) : Except StoreError (List Statement) := do
  db.require .edges
  (← db.tables.edgeList.mapM db.readEdge).mapM db.attach

/-- The number of edges. They are counted in an index, which is there even if the table is lost. -/
def size (db : Database) : Except StoreError Nat :=
  if .edges ∈ db.schema.tables then .ok db.tables.edges.size else .error .query

/-- The number of values of each kind. -/
def valueCounts (db : Database) : Except StoreError (List (ValueKind × Nat)) :=
  ValueKind.all.mapM fun kind => do
    db.require (.values kind)
    .ok (kind, (db.tables.values kind).size)

/-- The text in a value that is a text or a symbol. -/
def textIn : Value → Option String
  | .string text _ => some text
  | .symbol s => some s
  | _ => none

/-- The first text or symbol that a node has under a label. -/
def textOf (db : Database) (node label : String) : Except StoreError (Option String) := do
  .ok ((← db.statements node label).findSome? fun s => textIn s.value)

/-- The label of a node. -/
def nodeLabel (db : Database) (node : String) : Except StoreError (Option String) :=
  db.textOf node Vocabulary.label

end Database

end FactGraph
