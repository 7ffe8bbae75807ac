import FactGraph.Metadata.Basic
import FactGraph.Qualifier.Discovery
import FactGraph.Store.Session

/-!
# Descriptions in a store

A description that is put replaces what was said before under the same predicates, and is read
back from the statements about its node. A variable needs its dataset.
-/

namespace FactGraph

namespace Database

/-! ## Reading -/

/-- The node is an instance of the class. -/
def isInstance (db : Database) (node classNode : String) : Except StoreError Bool := do
  .ok ((← db.lookup node Vocabulary.instanceOf).any (·.node2 = classNode))

/-- The text of a field, empty if it is absent. -/
def fieldText (db : Database) (node label : String) : Except StoreError String := do
  .ok ((← db.textOf node label).getD "")

/-- The dataset that a node is. -/
def findDataset (db : Database) (node : String) : Except StoreError (Option Dataset) := do
  if ← db.isInstance node Vocabulary.datasetClass then
    .ok (some {
      node
      shortName := ← db.fieldText node Vocabulary.shortName
      name := ← db.fieldText node Vocabulary.label
      description := ← db.fieldText node Vocabulary.description
      url := ← db.fieldText node Vocabulary.url })
  else .ok none

/-- The first of the nodes that is a dataset. -/
def firstDataset? (db : Database) : List String → Except StoreError (Option Dataset)
  | [] => .ok none
  | node :: nodes => do
    match ← db.findDataset node with
    | some d => .ok (some d)
    | none => db.firstDataset? nodes

/-- The dataset with a short name. -/
def datasetByShortName? (db : Database) (shortName : String) :
    Except StoreError (Option Dataset) := do
  db.firstDataset? (← db.subjects Vocabulary.shortName (Literal.text shortName).encode)

/-- The variable that a node is. -/
def findVariable (db : Database) (node : String) : Except StoreError (Option Variable) := do
  if ← db.isInstance node Vocabulary.variableClass then
    let qualifiers := (← db.lookup node Vocabulary.hasQualifier).map Edge.node2
    .ok (some {
      node
      shortName := ← db.fieldText node Vocabulary.shortName
      name := ← db.fieldText node Vocabulary.label
      datasetNode := ← db.fieldText node Vocabulary.dataset
      property := ← db.fieldText node Vocabulary.correspondsTo
      description := ← db.textOf node Vocabulary.description
      qualifiers })
  else .ok none

/-- The first of the nodes that is a variable of the dataset. -/
def firstVariableNode? (db : Database) (dataset : String) :
    List String → Except StoreError (Option String)
  | [] => .ok none
  | node :: nodes => do
    let inDataset := (← db.lookup node Vocabulary.dataset).any (·.node2 = dataset)
    let found ← if inDataset then db.isInstance node Vocabulary.variableClass else .ok false
    if found then .ok (some node) else db.firstVariableNode? dataset nodes

/-- The node of the variable for a property in a dataset. -/
def variableNode? (db : Database) (dataset property : String) :
    Except StoreError (Option String) := do
  db.firstVariableNode? dataset (← db.subjects Vocabulary.correspondsTo property)

/-- The variable for a property in a dataset. -/
def variableFor? (db : Database) (dataset property : String) :
    Except StoreError (Option Variable) := do
  match ← db.variableNode? dataset property with
  | some node => db.findVariable node
  | none => .ok none

end Database

/-! ## Writing -/

namespace StoreM

/-- Puts the description of a dataset. -/
def putDataset (d : Dataset) : StoreM ImportStats := do
  replace d.node Dataset.fields (← d.statements)

/-- Puts the description of a variable of a known dataset. -/
def putVariable (v : Variable) : StoreM ImportStats := do
  if (← read (·.findDataset v.datasetNode)).isNone then
    throw (.notFound (.dataset v.datasetNode))
  replace v.node Variable.fields (← v.statements)

/-- Puts the description of a qualifier property. -/
def putProperty (q : QualifierProperty) : StoreM ImportStats := do
  replace q.property QualifierProperty.fields (← q.statements)

end StoreM

end FactGraph
