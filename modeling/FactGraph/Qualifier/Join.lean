import FactGraph.Qualifier.Basic
import FactGraph.Query.Term

/-!
# Qualifiers in queries

A qualifier contributes output columns, the first of which has its name, and the joins that
they need. All joins hang off the observation.
-/

namespace FactGraph.Qualifier

def source (q : Qualifier) (part : QualifierPart) : Alias := .qualifier part q.name

/-- The node at the end of the edge: for a region, the place. -/
def node (q : Qualifier) : Operand := ⟨q.source .edge, .node2⟩

/-- The unit of a quantity. -/
def unit (q : Qualifier) : Operand := ⟨q.source .value, .unit⟩

/-- The text of the label of the node or unit. -/
def labelText (q : Qualifier) : Operand := ⟨q.source .labelText, .text⟩

/-- The expression of the first column. -/
def valueExpr (q : Qualifier) : Expr :=
  match q.kind with
  | .stored .dateAndTime => .operand ⟨q.source .value, .dateAndTime⟩
  | .stored .quantity => .operand ⟨q.source .value, .number⟩
  | .stored .string => .operand ⟨q.source .value, .text⟩
  | .stored .coordinate => .point (q.source .value)
  | .stored .symbol | .location => .operand q.labelText

/-- The output columns with their expressions. -/
def fields (q : Qualifier) : List (String × Expr) :=
  (q.name, q.valueExpr) :: match q.kind with
    | .stored .dateAndTime =>
      [(q.name ++ "_precision", .operand ⟨q.source .value, .precision⟩)]
    | .stored .quantity =>
      [(q.name ++ "_unit_id", .operand q.unit), (q.name ++ "_unit", .firstOf q.labelText q.unit)]
    | .stored .symbol | .location => [(q.name ++ "_id", .operand q.node)]
    | .stored .string | .stored .coordinate => []

def fieldNames (q : Qualifier) : List String := q.fields.map (·.1)

/-- The expression of an output column of the qualifier. -/
def field? (q : Qualifier) (column : String) : Option Expr :=
  (q.fields.find? (·.1 = column)).map (·.2)

def owns (q : Qualifier) (column : String) : Bool := (q.field? column).isSome

/-- The edge of the qualifier. -/
def edgeJoin (q : Qualifier) : PlanJoin :=
  ⟨if q.isOptional then .left else .inner, .edges, q.source .edge,
   .about (q.source .edge) ⟨.observation, .id⟩ q.predicate⟩

/-- The value of that edge. -/
def valueJoin (q : Qualifier) (kind : ValueKind) : PlanJoin :=
  ⟨.left, .values kind, q.source .value, .valueOf (q.source .value) (q.source .edge)⟩

/-- The label of a node or unit. -/
def labelled (q : Qualifier) (node : Operand) : List PlanJoin :=
  labelJoins (q.source .labelEdge) (q.source .labelText) node

/-- The joins of the qualifier, owned by its name. -/
def fragment (q : Qualifier) : JoinFragment where
  owner := q.name
  joins := q.edgeJoin :: match q.kind with
    | .stored .quantity => q.valueJoin .quantity :: q.labelled q.unit
    | .stored .symbol | .location => q.labelled q.node
    | .stored kind => [q.valueJoin kind]

end FactGraph.Qualifier
