import FactGraph.Qualifier.Basic
import FactGraph.Store.Database

/-!
# Which qualifiers there are

A variable declares its qualifiers. One that declares none has those that are found on the
observations of its property: the predicates of the edges about them, with the kind of value
they have.
-/

namespace FactGraph

/-- The first of the tags in ascending order. -/
def firstTag (tag : String) (tags : List String) : String :=
  tags.foldl (fun first t => if t < first then t else first) tag

namespace Tables

/-- The edges about the observations of a property in a dataset, other than their links to
datasets. -/
def qualifierEdges (t : Tables) (dataset property : String) : List Edge :=
  let ids := (t.observations dataset property).map Edge.id
  t.edges.rows.filter fun e => e.node1 ∈ ids ∧ e.label ≠ Vocabulary.dataset

/-- The predicates of those edges in ascending order, each with its first tag. -/
def observedQualifiers (t : Tables) (dataset property : String) : List (String × String) :=
  let edges := t.qualifierEdges dataset property
  (t.distinctTexts (edges.map Edge.label)).filterMap fun label =>
    match (edges.filter (·.label = label)).map t.tagOf with
    | [] => none
    | tag :: tags => some (label, firstTag tag tags)

end Tables

namespace Database

/-- The label of a node, or the node itself where it has none. -/
def labelOr (db : Database) (node : String) : Except StoreError String := do
  .ok ((← db.nodeLabel node).getD node)

/-- The qualifiers found on the observations of a property in a dataset. -/
def discoverQualifiers (db : Database) (dataset property : String) :
    Except StoreError (List Qualifier) := do
  db.require .edges
  let observed ← (db.tables.observedQualifiers dataset property).mapM fun (predicate, tag) =>
    ((ValueKind.ofTag tag).map (predicate, ·)).mapError fun _ => StoreError.query
  observed.mapM fun (predicate, kind) => do
    Qualifier.resolve predicate none (← db.labelOr predicate) (some kind)

/-- The qualifier of a property as it is described. -/
def describedQualifier (db : Database) (property : String) : Except StoreError Qualifier := do
  let label ← db.labelOr property
  let declared ← db.textOf property Vocabulary.declaredDatatype
  Qualifier.resolve property declared label none

/-- The qualifiers of a variable, whose observations are in the dataset. -/
def resolveQualifiers (db : Database) (dataset variableNode : String) :
    Except StoreError (List Qualifier) := do
  match ← db.lookup variableNode Vocabulary.hasQualifier with
  | [] =>
    match (← db.lookup variableNode Vocabulary.correspondsTo).head? with
    | some e => db.discoverQualifiers dataset e.node2
    | none => .error (.notFound (.property variableNode))
  | declared => declared.mapM fun e => db.describedQualifier e.node2

end Database

end FactGraph
