import FactGraph.Schema.Migration
import FactGraph.Store.Batch
import FactGraph.Text.Blank

/-!
# Insertion

Statements are inserted in two rounds, each in chunks that one statement of the database can
take: first the edges, then the values of the edges that were new, kind by kind. A statement
whose id is stored, or has come before in the same list, is not new: it is skipped, or in strict
mode ends the insertion.
-/

namespace FactGraph

-- Sums are those of the core library, whatever else is in scope.
attribute [local instance (high)] Zero.ofOfNat0

/-- What becomes of a statement whose id is stored. -/
inductive InsertMode where
  /-- It is skipped. -/
  | idempotent
  /-- The insertion fails. -/
  | strict
  deriving DecidableEq, Repr

def InsertMode.name : InsertMode → String
  | idempotent => "idempotent"
  | strict => "strict"

/-- What an insertion did. -/
structure ImportStats where
  inserted : Nat
  skipped : Nat
  values : Nat
  deriving DecidableEq, Repr

def ImportStats.none : ImportStats := ⟨0, 0, 0⟩

/-- A statement needs an id, a node and a label, and a value of the kind of its edge. -/
def Statement.check (s : Statement) : Except InvalidInput Unit :=
  if Text.isBlankText s.edge.id then .error .edgeId
  else if Text.isBlankText s.edge.node1 then .error (.edgeNode1 s.edge.id)
  else if Text.isBlankText s.edge.label then .error (.edgeLabel s.edge.id)
  else if s.edge.kind ≠ s.value.kind then
    .error (.edgeKind s.edge.id s.edge.kind.tag s.value.kind.tag)
  else .ok ()

/-- The first statement that is not in order decides. -/
def checkStatements (statements : List Statement) : Except StoreError Unit :=
  statements.forM fun s => s.check.mapError .invalidInput

/-- The number of columns of an edge. -/
def edgeWidth : Nat := 5

/-- The number of columns of a value, its id included. -/
def valueWidth : ValueKind → Nat
  | .string => 3
  | .dateAndTime => 4
  | .quantity => 5
  | .coordinate => 4
  | .symbol => 2

namespace Update

/-- Adds an edge unless its id is stored. Answers the id under which it was added. -/
def addEdge (e : Edge) : Update (Option String) := do
  let tables := (← get).tables
  if tables.containsEdge e.id then return none
  modify fun db => { db with tables := tables.addEdge e }
  return some (tables.kept e.id)

/-- One statement of the database: adds edges whose ids are not stored, and answers the ids that
were added. Without edges there is no statement. -/
def writeEdges (edges : List Edge) : Update (List String) := do
  if edges.isEmpty then return []
  read (·.require .edges)
  return (← edges.mapM addEdge).reduceOption

/-- Which of the ids come for the first time, after those that were seen before. -/
def firstSeen (seen : List String) : List String → List Bool
  | [] => []
  | id :: ids => (id ∉ seen : Bool) :: firstSeen (id :: seen) ids

/-- Adds the edges of a chunk and tells which were new: those whose ids have not been seen in the
insertion before and are answered by the database. In strict mode one that is not new ends the
insertion. -/
def addEdges (mode : InsertMode) (chunk : List Statement) :
    StateT (List String) Update (List Bool) := do
  let ids := chunk.map (·.edge.id)
  let first := firstSeen (← get) ids
  modify (ids ++ ·)
  let written ← writeEdges (((chunk.zip first).filter (·.2)).map (·.1.edge))
  let fresh := (ids.zip first).map fun (id, first) => first && id ∈ written
  match mode, (chunk.zip fresh).find? (!·.2) with
  | .strict, some (s, _) => throw (.importConflict s.edge.id)
  | _, _ => return fresh

/-- Adds a value unless its id has one of its kind, and tells whether it was new. -/
def addValue (id : String) (v : Value) : Update Bool := do
  read (·.require (.values v.kind))
  match StoredValue.ofValue? v with
  | none => throw .query
  | some stored =>
    let isNew := !(← get).tables.containsValue v.kind id
    modify fun db => { db with tables := db.tables.addValue ⟨id, stored⟩ }
    return isNew

/-- Adds the values of one kind, and tells how many were new. -/
def addValues (config : BatchConfig) (kind : ValueKind) (statements : List Statement) :
    Update Nat := do
  let group := statements.filter fun s => s.value.kind = kind
  if group.isEmpty then return 0
  let added ← (config.perStatement (valueWidth kind)).execute
    (fun chunk => chunk.mapM fun s => addValue s.edge.id s.value) group
  return added.count true

/-- Inserts statements that are in order. -/
def insert (config : BatchConfig) (mode : InsertMode) (statements : List Statement) :
    Update ImportStats := do
  let fresh ← ((config.perStatement edgeWidth).execute (addEdges mode) statements).run' []
  let added := ((statements.zip fresh).filter (·.2)).map (·.1)
  let values ← ValueKind.all.mapM fun kind => addValues config kind added
  return ⟨fresh.count true, fresh.count false, values.sum⟩

end Update

end FactGraph
