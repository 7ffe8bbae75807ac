import FactGraph.Store.Database

/-!
# The upkeep of pages

When a database has changed, its pages follow: rows are removed, changed and added one by one. What
there is to do is seen by comparing the tables before and after. Only the order has to be told,
because new rows are numbered as they come.

Edges that are named for removal go first: those about them, and then themselves, each in the order
of their numbers. Values go with their edge.
-/

namespace FactGraph

/-- The order in which a change is written. -/
structure WriteOrder where
  /-- The ids of the edges to be removed with the edges about them. -/
  removed : List String
  /-- The ids of what is added, in the order in which it comes. -/
  added : List String
  deriving DecidableEq, Repr

def WriteOrder.none : WriteOrder := ⟨[], []⟩

/-! ## Comparing tables -/

namespace Table

variable {α : Type} {key : α → String}

/-- The rows of ascending lists whose keys are in the first only. -/
def rowsMissing (key : α → String) : List α → List α → List α
  | [], _ => []
  | a :: as, bs =>
    let bs := bs.dropWhile fun b => key b < key a
    match bs with
    | [] => a :: as
    | b :: rest =>
      if key a = key b then rowsMissing key as rest else a :: rowsMissing key as (b :: rest)

/-- The rows of two ascending lists that have a key in common. -/
def rowsShared (key : α → String) : List α → List α → List (α × α)
  | [], _ => []
  | a :: as, bs =>
    let bs := bs.dropWhile fun b => key b < key a
    match bs with
    | [] => []
    | b :: rest =>
      if key a = key b then (a, b) :: rowsShared key as rest else rowsShared key as (b :: rest)

/-- The rows that the other table does not have. -/
def without (t other : Table α key) : List α := rowsMissing key t.rows other.rows

/-- The rows whose key both tables have, as they are in one and in the other. -/
def shared (t other : Table α key) : List (α × α) := rowsShared key t.rows other.rows

end Table

namespace Pages

/-! ## Rows -/

/-- Removes the values with an id that a table has and the other does not. -/
def removeValues (before after : Tables) (id : String) : PageWork Unit :=
  ValueKind.all.reverse.forM fun kind => do
    if !(after.values kind).contains id then
      if let some row := (before.values kind).find? id then
        removeRow (.values kind) (before.pagedValue row)

/-- Removes edges in the order of their numbers, with their values. -/
def removeEdges (before after : Tables) (edges : List Edge) : PageWork Unit := do
  let p ← get
  let number (e : Edge) : Nat := (p.rowOf? .edges e.id).getD 0
  let sorted := (edges.map fun e => (number e, e)).mergeSort fun a b => a.1 ≤ b.1
  sorted.forM fun (_, e) => do
    removeRow .edges (before.pagedEdge e)
    removeValues before after e.id

/-- Removes the values that the other tables do not have. -/
def removeOtherValues (before after : Tables) : PageWork Unit :=
  ValueKind.all.forM fun kind =>
    ((before.values kind).without (after.values kind)).forM fun row =>
      removeRow (.values kind) (before.pagedValue row)

/-- Changes the rows that are of another size. -/
def resizeRows (before after : Tables) : PageWork Unit := do
  let haveSameTags := before.unknownTags = after.unknownTags
  (before.edges.shared after.edges).forM fun (old, new) =>
    if haveSameTags && old = new then pure ()
    else resizeRow .edges (before.pagedEdge old) (after.pagedEdge new)
  ValueKind.all.forM fun kind =>
    ((before.values kind).shared (after.values kind)).forM fun (old, new) =>
      if old = new then pure ()
      else resizeRow (.values kind) (before.pagedValue old) (after.pagedValue new)

/-- Adds the rows of these ids that are new. -/
def addRows (after : Tables) (ids : List String) : PageWork Unit := do
  let ids := ids.map after.kept
  (ids.filterMap after.edges.find?).forM fun e => addRow .edges (after.pagedEdge e)
  ValueKind.all.forM fun kind =>
    (ids.filterMap (after.values kind).find?).forM fun row =>
      addRow (.values kind) (after.pagedValue row)

/-! ## Databases -/

/-- Creates the tables and indexes that are new. -/
def createMissing (before after : Database) : PageWork Unit := do
  let isNew (t : TableName) : Bool := t ∈ after.schema.tables && t ∉ before.schema.tables
  (TableName.edges :: ValueKind.all.map .values).forM fun t =>
    if isNew t then createTable t else pure ()
  let createIndexes (names : List IndexName) : PageWork Unit := names.forM fun i =>
    if i ∈ after.schema.indexes && i ∉ before.schema.indexes then
      createIndex i (before.tables.edges.rows.map before.tables.pagedEdge)
    else pure ()
  createIndexes [.node1Label, .labelNode2]
  [TableName.version, .history].forM fun t => if isNew t then createTable t else pure ()
  createIndexes [.node2]

/-- Follows a change of a database. -/
def follow (order : WriteOrder) (before after : Database) : PageWork Unit := do
  let start := before.tables
  let removed := order.removed.map start.kept
  let about := start.edges.rows.filter fun e => e.node1 ∈ removed
  let between := start.removeEdges fun e => e.node1 ∈ removed
  removeEdges start between about
  let named := between.edges.rows.filter fun e => e.id ∈ removed
  let left := between.removeEdges fun e => e.id ∈ removed
  removeEdges between left named
  removeEdges left after.tables (left.edges.without after.tables.edges)
  removeOtherValues left after.tables
  (before.schema.tables.filter fun t => t ∉ after.schema.tables).forM dropTable
  resizeRows left after.tables
  createMissing before after
  addRows after.tables order.added

/-- The pages of a database when its rows have come in the order of their ids. -/
def ofDatabase (layout : PageLayout) (db : Database) : Option Pages :=
  let work := do
    createMissing .empty db
    db.tables.edgeList.forM fun e => addRow .edges (db.tables.pagedEdge e)
    ValueKind.all.forM fun kind => (db.tables.values kind).rows.forM fun row =>
      addRow (.values kind) (db.tables.pagedValue row)
  (work.run (blank layout db.tables.encoding)).map (·.2)

end Pages

namespace Database

/-- The number of pages of a database when its rows have come in the order of their ids. -/
def extent (db : Database) (layout : PageLayout) : Nat :=
  ((Pages.ofDatabase layout db).map (·.supply.total)).getD 1

/-- The database with pages that are counted, up to a limit. -/
def counted (db : Database) (layout : PageLayout) (limit : Option Nat) : Database :=
  let pages := db.pages.or (if limit.isSome then Pages.ofDatabase layout db else none)
  { db with pages := pages.map fun p => { p with supply := p.supply.limited limit } }

/-- The database at the end of a transaction. -/
def settled (db : Database) : Database :=
  { db with pages := db.pages.map fun p => { p with supply := p.supply.settled } }

/-- The database after a change whose pages have followed, if there is room. -/
def followed? (before after : Database) (order : Tables → WriteOrder) : Option Database :=
  match before.pages with
  | none => some after
  | some p => ((Pages.follow (order before.tables) before after).run p).map fun (_, p) =>
    { after with pages := some p }

end Database

end FactGraph
