import FactGraph.Cell

/-!
# Query text

A piece of SQL is a text with the cells that its question marks stand for, in the order of the
marks. Pieces are put together by appending texts and cells alike, so a mark and its cell stay
together.
-/

namespace FactGraph

/-- A text with the cells for its question marks. -/
structure SqlText where
  text : String
  params : List Cell
  deriving DecidableEq, Repr

namespace SqlText

/-- A text without marks. -/
def raw (text : String) : SqlText := ⟨text, []⟩

def empty : SqlText := raw ""

instance : Inhabited SqlText := ⟨empty⟩

def append (a b : SqlText) : SqlText := ⟨a.text ++ b.text, a.params ++ b.params⟩

instance : Append SqlText := ⟨append⟩

/-- One mark. -/
def mark (param : Cell) : SqlText := ⟨"?", [param]⟩

/-- All of the pieces, one after the other. -/
def concat (parts : List SqlText) : SqlText := parts.foldr (· ++ ·) empty

/-- The pieces with a separator between them. -/
def join (separator : String) (parts : List SqlText) : SqlText :=
  concat (parts.intersperse (raw separator))

/-- The condition that always holds. -/
def always : SqlText := raw "1=1"

/-- One of the conditions holds; without conditions there is no restriction. -/
def anyOf (parts : List SqlText) : SqlText :=
  if parts.isEmpty then always
  else raw "(" ++ join " OR " (parts.map fun part => raw "(" ++ part ++ raw ")") ++ raw ")"

/-- The expression is one of the texts. -/
def isIn (expr : String) (values : List String) : SqlText :=
  raw (expr ++ " IN (") ++ join ", " (values.map fun v => mark (.text v)) ++ raw ")"

end SqlText

/-- A name in double quotes; a quote inside is written twice. -/
def quoteName (name : String) : String :=
  String.ofList ('"' :: name.toList.flatMap (fun c => if c = '"' then ['"', '"'] else [c]) ++ ['"'])

end FactGraph
