import FactGraph.Store.StoredValue
import FactGraph.Store.Table
import FactGraph.Text.Encoding
import FactGraph.Vocabulary

/-!
# Edges and values

The contents of a database: the table of edges, and a table of values for each kind. An edge is
added unless its id is stored; removing edges removes the values stored under their ids, in
whatever table they are.

Texts are in one encoding, which decides about their order and replaces what it cannot write, also
in what a text is looked for. An edge can have a tag that names no
kind only if tags are not checked; such tags are kept apart.
-/

namespace FactGraph

abbrev EdgeTable := Table Edge Edge.id
abbrev ValueTable (kind : ValueKind) := Table (ValueRow kind) ValueRow.edgeId

/-- The edges and the values of each kind. -/
structure Tables where
  encoding : TextEncoding
  edges : EdgeTable
  strings : ValueTable .string
  dates : ValueTable .dateAndTime
  quantities : ValueTable .quantity
  coordinates : ValueTable .coordinate
  symbols : ValueTable .symbol
  /-- The tags that name no kind, by the ids of their edges. -/
  unknownTags : List (String × String)

namespace Tables

/-- No edges and no values. -/
def empty : Tables := ⟨.utf8, .empty, .empty, .empty, .empty, .empty, .empty, []⟩

/-- The values of a kind. -/
def values (t : Tables) : (kind : ValueKind) → ValueTable kind
  | .string => t.strings
  | .dateAndTime => t.dates
  | .quantity => t.quantities
  | .coordinate => t.coordinates
  | .symbol => t.symbols

def setValues (t : Tables) : (kind : ValueKind) → ValueTable kind → Tables
  | .string, v => { t with strings := v }
  | .dateAndTime, v => { t with dates := v }
  | .quantity, v => { t with quantities := v }
  | .coordinate, v => { t with coordinates := v }
  | .symbol, v => { t with symbols := v }

@[simp] theorem values_setValues (t : Tables) (kind : ValueKind) (v : ValueTable kind) :
    (t.setValues kind v).values kind = v := by
  cases kind <;> rfl

theorem values_setValues_of_ne (t : Tables) {kind other : ValueKind} (h : kind ≠ other)
    (v : ValueTable kind) : (t.setValues kind v).values other = t.values other := by
  cases kind <;> cases other <;> first | rfl | exact absurd rfl h

/-- A text as it is after it was written. -/
def kept (t : Tables) (text : String) : String := t.encoding.kept text

/-! ## Writing -/

/-- An edge as it is after it was written. -/
def keptEdge (t : Tables) (e : Edge) : Edge :=
  ⟨t.kept e.id, t.kept e.node1, t.kept e.label, t.kept e.node2, e.kind⟩

/-- The edge with this id is stored. -/
def containsEdge (t : Tables) (id : String) : Bool := t.edges.contains (t.kept id)

/-- Adds an edge unless its id is stored. -/
def addEdge (t : Tables) (e : Edge) : Tables := { t with edges := t.edges.insert (t.keptEdge e) }

/-- A value with this id is stored in the table of a kind. -/
def containsValue (t : Tables) (kind : ValueKind) (id : String) : Bool :=
  (t.values kind).contains (t.kept id)

/-- Adds a row of values unless its id is stored in that table. -/
def addValue (t : Tables) {kind : ValueKind} (row : ValueRow kind) : Tables :=
  t.setValues kind ((t.values kind).insert ⟨t.kept row.edgeId, row.stored.kept t.encoding⟩)

/-- The values that satisfy `p` by their id, in all tables. -/
def filterValues (t : Tables) (p : String → Bool) : Tables :=
  { t with
    strings := t.strings.filter (p ·.edgeId)
    dates := t.dates.filter (p ·.edgeId)
    quantities := t.quantities.filter (p ·.edgeId)
    coordinates := t.coordinates.filter (p ·.edgeId)
    symbols := t.symbols.filter (p ·.edgeId) }

/-- Removes the edges that satisfy `p`, but not their values. -/
def detachEdges (t : Tables) (p : Edge → Bool) : Tables :=
  let removed := (t.edges.rows.filter p).map Edge.id
  { t with
    edges := t.edges.filter (!p ·)
    unknownTags := t.unknownTags.filter (·.1 ∉ removed) }

/-- Removes the edges that satisfy `p`, together with their values. -/
def removeEdges (t : Tables) (p : Edge → Bool) : Tables :=
  let removed := (t.edges.rows.filter p).map Edge.id
  (t.filterValues (· ∉ removed)).detachEdges p

/-! ## Tags -/

/-- The tag of an edge, if it names no kind. -/
def unknownTag? (t : Tables) (e : Edge) : Option String := t.unknownTags.lookup e.id

/-- The kind that the tag of an edge names. -/
def kindOf? (t : Tables) (e : Edge) : Option ValueKind :=
  match t.unknownTag? e with
  | some _ => none
  | none => some e.kind

/-- The tag of an edge. -/
def tagOf (t : Tables) (e : Edge) : String := (t.unknownTag? e).getD e.kind.tag

/-- Gives the edge of an id a tag, which may name no kind. -/
def retag (t : Tables) (id tag : String) : Tables :=
  let id := t.kept id
  let others := t.unknownTags.filter (·.1 ≠ id)
  match ValueKind.ofTag tag with
  | .ok kind =>
    { t with
      edges := t.edges.mapRows (fun e => if e.id = id then { e with kind := kind } else e)
        (fun e => by split <;> rfl)
      unknownTags := others }
  | .error _ => { t with unknownTags := (id, tag) :: others }

/-! ## Reading -/

/-- The edges in the order of their ids. -/
def edgeList (t : Tables) : List Edge := t.encoding.arrange Edge.id t.edges.rows

/-- The texts in ascending order, each once. -/
def distinctTexts (t : Tables) (texts : List String) : List String :=
  t.encoding.arrange id (sortedTexts texts)

/-- The edges of a node with a label, in the order of their ids. -/
def lookup (t : Tables) (node1 label : String) : List Edge :=
  let (node1, label) := (t.kept node1, t.kept label)
  t.edgeList.filter fun e => e.node1 = node1 ∧ e.label = label

/-- The nodes with an edge of this label and written value, in ascending order. -/
def subjects (t : Tables) (label node2 : String) : List String :=
  let (label, node2) := (t.kept label, t.kept node2)
  t.distinctTexts ((t.edgeList.filter fun e => e.label = label ∧ e.node2 = node2).map Edge.node1)

/-- The value that an id has in the table of a kind. -/
def value (t : Tables) (kind : ValueKind) (id : String) : Except StoreError (Option Value) :=
  match (t.values kind).find? id with
  | some row => row.stored.toValue.map some
  | none => .ok none

/-- The ids in the table of a kind. -/
def valueIds (t : Tables) (kind : ValueKind) : List String := (t.values kind).rows.map (·.edgeId)

/-! ## Observations -/

/-- The edge is linked to the dataset. -/
def inDataset (t : Tables) (dataset id : String) : Bool :=
  (t.lookup id Vocabulary.dataset).any (·.node2 = t.kept dataset)

/-- The observations of a property in a dataset. -/
def observations (t : Tables) (dataset property : String) : List Edge :=
  let property := t.kept property
  t.edges.rows.filter fun e => e.label = property ∧ t.inDataset dataset e.id

end Tables

end FactGraph
