import FactGraph.Place
import FactGraph.Query.Select
import FactGraph.Schema.Object

/-!
# Terms of observation queries

The names, expressions and conditions that observation queries are made of, and how each is
written as SQL. An observation is an edge with a quantity; its qualifiers are edges about it.
-/

namespace FactGraph

/-- The four tables that a qualifier joins. -/
inductive QualifierPart where
  /-- The edge of the qualifier. -/
  | edge
  /-- The value of that edge. -/
  | value
  /-- The edge that labels the node or unit. -/
  | labelEdge
  /-- The text of that label. -/
  | labelText
  deriving DecidableEq, Repr

def QualifierPart.mark : QualifierPart → String
  | edge => "eq"
  | value => "vq"
  | labelEdge => "lq"
  | labelText => "sq"

/-- The names under which tables are joined. -/
inductive Alias where
  | observation
  | amount
  | dataset
  | unitLabel
  | unitText
  | subjectLabel
  | subjectText
  | place (level : AdminLevel)
  | qualifier (part : QualifierPart) (name : String)
  deriving DecidableEq, Repr

/-- Names of qualifiers come from labels, so names made of them are quoted. -/
def Alias.sql : Alias → String
  | observation => "e_main"
  | amount => "q_main"
  | dataset => "e_dataset"
  | unitLabel => "l_unit"
  | unitText => "s_unit"
  | subjectLabel => "l_subject"
  | subjectText => "s_subject"
  | place level => "e_" ++ level.name
  | qualifier part name => quoteName (part.mark ++ "_" ++ name)

/-- The columns of edges and values. -/
inductive Column where
  | id | node1 | label | node2
  | edgeId
  | text
  | dateAndTime | precision
  | number | unit | lowTolerance | highTolerance
  | latitude | longitude
  deriving DecidableEq, Repr

def Column.sql : Column → String
  | id => "id"
  | node1 => "node1"
  | label => "label"
  | node2 => "node2"
  | edgeId => "edge_id"
  | text => "text"
  | dateAndTime => "date_and_time"
  | precision => "precision"
  | number => "number"
  | unit => "unit"
  | lowTolerance => "low_tolerance"
  | highTolerance => "high_tolerance"
  | latitude => "latitude"
  | longitude => "longitude"

/-- A column of a joined table. -/
structure Operand where
  source : Alias
  column : Column
  deriving DecidableEq, Repr

def Operand.sql (o : Operand) : String := o.source.sql ++ "." ++ o.column.sql

/-- What an output column shows. -/
inductive Expr where
  | operand (operand : Operand)
  /-- The first operand, or the second where the first is null. -/
  | firstOf (first second : Operand)
  /-- Longitude and latitude as one text. -/
  | point (source : Alias)
  deriving DecidableEq, Repr

def Expr.sql : Expr → String
  | operand o => o.sql
  | firstOf a b => "COALESCE(" ++ a.sql ++ ", " ++ b.sql ++ ")"
  | point source =>
    "'POINT(' || " ++ Operand.sql ⟨source, .longitude⟩ ++ " || ' ' || "
      ++ Operand.sql ⟨source, .latitude⟩ ++ " || ')'"

/-- What joined rows have to meet. -/
inductive Condition where
  /-- The value belongs to the edge. -/
  | valueOf (value edge : Alias)
  /-- The edge starts at the node and has the label. -/
  | about (edge : Alias) (node : Operand) (label : String)
  /-- The edge is the first label of the node, by id. -/
  | firstLabel (edge : Alias) (node : Operand)
  | equals (operand : Operand) (text : String)
  /-- One of the operands is one of its texts; without operands there is no restriction. -/
  | anyIn (alternatives : List (Operand × List String))
  deriving DecidableEq, Repr

/-- The condition `expr = text`. -/
def equalsSql (expr text : String) : SqlText := .raw (expr ++ " = ") ++ .mark (.text text)

def Condition.sql : Condition → SqlText
  | valueOf value edge =>
    .raw (Operand.sql ⟨value, .edgeId⟩ ++ " = " ++ Operand.sql ⟨edge, .id⟩)
  | about edge node label =>
    .raw (Operand.sql ⟨edge, .node1⟩ ++ " = " ++ node.sql ++ " AND ")
      ++ equalsSql (Operand.sql ⟨edge, .label⟩) label
  | firstLabel edge node =>
    .raw (Operand.sql ⟨edge, .id⟩ ++ " = (SELECT l.id FROM edges AS l WHERE l.node1 = "
        ++ node.sql ++ " AND ")
      ++ equalsSql "l.label" Vocabulary.label ++ .raw " ORDER BY l.id LIMIT 1)"
  | equals operand text => equalsSql operand.sql text
  | anyIn alternatives =>
    .anyOf (alternatives.map fun (operand, texts) => .isIn operand.sql texts)

/-! ## Plans -/

/-- A query in these terms. -/
abbrev Plan := Select TableName Alias Expr Condition

/-- The joins of one owner. -/
abbrev JoinFragment := Fragment TableName Alias Condition

abbrev PlanJoin := Join TableName Alias Condition

namespace Plan

/-- The query as SQL. -/
def toSql (plan : Plan) : SqlSelect :=
  plan.map TableName.name Alias.sql Expr.sql Condition.sql

end Plan

/-- The joins that find the label of a node: the edge of the first label, and its text. Taking
one label keeps one row where a node has several. -/
def labelJoins (edge text : Alias) (node : Operand) : List PlanJoin :=
  [⟨.left, .edges, edge, .firstLabel edge node⟩,
   ⟨.left, .values .string, text, .valueOf text edge⟩]

end FactGraph
