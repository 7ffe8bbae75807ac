import FactGraph.Store.Insertion

/-!
# Removal

An edge is removed together with the edges about it, which have its id as their node, and with
the values of all of them. The edges about those stay. Replacing removes what a node says under
some predicates, except for the statements that are put in its place.

What is to be removed is put on a list of ids first. Then two commands follow: one removes the edges
about those on the list, the other those on it.
-/

namespace FactGraph

namespace Tables

/-- The ids of the observations of the properties in the dataset. -/
def observationIds (t : Tables) (dataset : String) (properties : List String) : List String :=
  properties.flatMap fun p => (t.observations dataset p).map Edge.id

/-- The ids of what the node says under the predicates, except for those that stay. -/
def staleIds (t : Tables) (node : String) (predicates staying : List String) : List String :=
  (predicates.flatMap fun p => (t.lookup node p).map Edge.id).filter fun id =>
    id ∉ staying.map t.kept

end Tables

namespace Update

/-! ## The list -/

/-- From now on there is a list of edges to be removed. -/
def createDoomed : Update Unit := modify fun db => { db with doomed := some (db.doomed.getD []) }

def clearDoomed : Update Unit := modify fun db => { db with doomed := some [] }

/-- Puts an id on the list. -/
def doom (id : String) : Update Unit :=
  modify fun db => { db with doomed := some (db.doomed.getD [] ++ [db.tables.kept id]) }

/-- Puts the ids of stored edges on the list. -/
def doomEdges (edges : Tables → List Edge) : Update Unit := do
  read (·.require .edges)
  modify fun db =>
    { db with doomed := some (db.doomed.getD [] ++ (edges db.tables).map Edge.id) }

/-- Takes an id off the list. -/
def spare (id : String) : Update Unit :=
  modify fun db =>
    { db with doomed := some ((db.doomed.getD []).filter (· ≠ db.tables.kept id)) }

/-! ## Removal -/

/-- Removes the edges that the list asks for, and tells how many. -/
def deleteEdges (isGone : List String → Edge → Bool) : Update Nat := do
  read (·.require .edges)
  let db ← get
  let isGone := isGone (db.doomed.getD [])
  modify fun db => { db with tables := db.tables.removeEdges isGone }
  return db.tables.edges.rows.countP isGone

/-- Removes the edges about those on the list. -/
def deleteAbout : Update Nat := deleteEdges fun ids e => e.node1 ∈ ids

/-- Removes the edges on the list. -/
def deleteListed : Update Nat := deleteEdges fun ids e => e.id ∈ ids

/-- Removes the listed edges and the edges about them, clears the list, and tells how many edges
they were. -/
def purgeDoomed : Update Nat := do
  let about ← deleteAbout
  let listed ← deleteListed
  clearDoomed
  return about + listed

/-- Removes the edges that are put on the list, and tells how many. What was listed before does not
count. -/
def purgeListed (list : Update Unit) : Update Nat := do
  createDoomed
  clearDoomed
  list
  purgeDoomed

/-- Removes the edges with these ids and the edges about them, and tells how many. -/
def purge (ids : List String) : Update Nat := purgeListed (ids.forM doom)

/-- Removes the observations of the properties in the dataset. -/
def purgeObservations (dataset : String) (properties : List String) : Update Nat :=
  purgeListed (properties.forM fun p => doomEdges (·.observations dataset p))

/-- Puts the statements in the place of those that the node has under the predicates. -/
def replace (config : BatchConfig) (node : String) (predicates : List String)
    (statements : List Statement) : Update ImportStats := do
  let _ ← purgeListed do
    predicates.forM fun p => doomEdges (·.lookup node p)
    statements.forM fun s => spare s.edge.id
  insert config .idempotent statements

end Update

end FactGraph
