import FactGraph.Literal.Basic

/-!
# Tables and indexes

The names of what a database is made of: the table of edges, one table of values for each kind,
two tables for the version of the schema, and the indexes of the edges.
-/

namespace FactGraph

/-- The tables. -/
inductive TableName where
  | edges
  | values (kind : ValueKind)
  | version
  | history
  deriving DecidableEq, Repr

namespace TableName

/-- The name of the table that holds the values of a kind. -/
def ofKind : ValueKind → String
  | .string => "strings"
  | .dateAndTime => "dates"
  | .quantity => "quantities"
  | .coordinate => "coordinates"
  | .symbol => "symbols"

def name : TableName → String
  | edges => "edges"
  | values kind => ofKind kind
  | version => "store_meta"
  | history => "store_meta_history"

def all : List TableName := edges :: ValueKind.all.map values ++ [version, history]

def ofName? (name : String) : Option TableName := all.find? (·.name = name)

end TableName

/-- The indexes, all of them on edges. -/
inductive IndexName where
  | node1Label
  | labelNode2
  | node2
  deriving DecidableEq, Repr

namespace IndexName

def name : IndexName → String
  | node1Label => "idx_edges_node1_label"
  | labelNode2 => "idx_edges_label_node2"
  | node2 => "idx_edges_node2"

def all : List IndexName := [node1Label, labelNode2, node2]

def ofName? (name : String) : Option IndexName := all.find? (·.name = name)

end IndexName

/-- What a database can contain. -/
inductive SchemaObject where
  | table (name : TableName)
  | index (name : IndexName)
  deriving DecidableEq, Repr

/-- The kind of an object and its name. -/
def SchemaObject.text : SchemaObject → String
  | .table t => "table " ++ t.name
  | .index i => "index " ++ i.name

end FactGraph
