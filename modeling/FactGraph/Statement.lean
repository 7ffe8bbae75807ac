import FactGraph.Digest
import FactGraph.Literal.Basic

/-!
# Statements

A statement is an edge `node1 --label--> node2` with an id, together with the typed value that
the text of `node2` stands for. Edges about another edge have its id as their `node1`.

Ids are derived from what an edge says and from how often it has been said before, so that the
same file gives the same ids again.
-/

namespace FactGraph

/-- An edge with the kind of its value. -/
structure Edge where
  id : String
  node1 : String
  label : String
  node2 : String
  kind : ValueKind
  deriving DecidableEq, Repr

/-- The typed value of an edge. A text keeps its language as one tag. -/
inductive Value where
  | string (text : String) (language : Option String)
  | pointInTime (time : PointInTime)
  | quantity (quantity : Quantity)
  | coordinate (coordinate : Coordinate)
  | symbol (symbol : String)
  deriving DecidableEq, Repr

namespace Value

def kind : Value → ValueKind
  | string .. => .string
  | pointInTime _ => .dateAndTime
  | quantity _ => .quantity
  | coordinate _ => .coordinate
  | symbol _ => .symbol

def toLiteral : Value → Literal
  | string text (some tag) => .tagged (.ofTag text tag)
  | string text none => .text text
  | pointInTime t => .pointInTime t
  | quantity q => .quantity q
  | coordinate c => .coordinate c
  | symbol s => .symbol s

def ofLiteral : Literal → Value
  | .text t => string t none
  | .tagged t => string t.text (some t.tag)
  | .quantity q => quantity q
  | .coordinate c => coordinate c
  | .pointInTime t => pointInTime t
  | .symbol s => symbol s

end Value

/-- An edge and its value. -/
structure Statement where
  edge : Edge
  value : Value
  deriving DecidableEq, Repr

namespace Statement

/-- The statement of a typed value: its `node2` is the written form of the value. -/
def ofLiteral (id node1 label : String) (l : Literal) : Statement :=
  ⟨⟨id, node1, label, l.encode, l.kind⟩, .ofLiteral l⟩

/-- The statement of a written value. -/
def parse (id node1 label raw : String) : Except LiteralError Statement :=
  (Literal.decode raw).map (ofLiteral id node1 label)

end Statement

/-! ## Derived ids -/

/-- The bytes that are hashed: the three texts and the occurrence, joined by tabs. -/
def idBytes (node1 label node2 : String) (occurrence : Nat) : List UInt8 :=
  (node1 ++ "\t" ++ label ++ "\t" ++ node2 ++ "\t" ++ toString occurrence).toUTF8.data.toList

/-- The id of the edge when it is met for the `occurrence`-th time, counted from zero. -/
def edgeId (node1 label node2 : String) (occurrence : Nat) : String :=
  node1 ++ "-" ++ label ++ "-" ++
    String.ofList (Digest.stem (idBytes node1 label node2 occurrence))

end FactGraph
