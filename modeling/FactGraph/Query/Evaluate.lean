import FactGraph.Query.Observation
import FactGraph.Store.Batch
import FactGraph.Store.Database

/-!
# The rows of a query

A query is evaluated by nested loops. An environment assigns a record to each name joined so
far, or none where a left join found no partner; a condition on what is not there does not hold.
Each join extends every environment in all the ways that its condition admits.

A query that uses a name before it is joined, or a table that does not exist, or that is too
large, has no rows but fails.
-/

namespace FactGraph

/-- A row of a table. -/
inductive Record where
  | edge (edge : Edge)
  | value {kind : ValueKind} (row : ValueRow kind)

namespace Record

def edgeCell (e : Edge) : Column → Cell
  | .id => .text e.id
  | .node1 => .text e.node1
  | .label => .text e.label
  | .node2 => .text e.node2
  | _ => .null

def storedCell : {kind : ValueKind} → StoredValue kind → Column → Cell
  | _, .string text _, .text => .text text
  | _, .pointInTime text _ _, .dateAndTime => .text text
  | _, .pointInTime _ (some precision) _, .precision => .int (Int64.ofInt precision)
  | _, .quantity number _ _ _, .number => number
  | _, .quantity _ unit _ _, .unit => .ofText? unit
  | _, .quantity _ _ low _, .lowTolerance => .ofReal? low
  | _, .quantity _ _ _ high, .highTolerance => .ofReal? high
  | _, .coordinate latitude _ _, .latitude => .real latitude
  | _, .coordinate _ longitude _, .longitude => .real longitude
  | _, .coordinate _ _ precision, .precision => .ofReal? precision
  | _, _, _ => .null

/-- The cell of a column; null if the row has no such column. -/
def cell : Record → Column → Cell
  | edge e, column => edgeCell e column
  | value row, .edgeId => .text row.edgeId
  | value row, column => storedCell row.stored column

end Record

/-- The records of a table that queries use. -/
def Tables.records (t : Tables) : TableName → List Record
  | .edges => t.edgeList.map .edge
  | .values kind => (t.values kind).rows.map .value
  | .version | .history => []

/-- The id of the first edge that labels a node. -/
def Tables.firstLabel (t : Tables) (node : String) : Option String :=
  (t.lookup node Vocabulary.label).head?.map Edge.id

/-- The records that names stand for. -/
abbrev Environment := List (Alias × Option Record)

namespace Environment

/-- The cell of a column; null where a left join found no partner. -/
def cell (env : Environment) (o : Operand) : Cell :=
  match env.lookup o.source with
  | some (some record) => record.cell o.column
  | _ => .null

def text? (env : Environment) (o : Operand) : Option String := (env.cell o).text?

/-- Both operands are texts, and the same. -/
def sameText (env : Environment) (a b : Operand) : Bool :=
  match env.text? a, env.text? b with
  | some s, some t => s = t
  | _, _ => false

/-- The operand is one of these texts. -/
def isAmong (env : Environment) (t : Tables) (o : Operand) (texts : List String) : Bool :=
  (env.text? o).any fun text => texts.any (t.kept · = text)

/-- The operand is this text. -/
def isText (env : Environment) (t : Tables) (o : Operand) (text : String) : Bool :=
  env.text? o = some (t.kept text)

end Environment

def Condition.holds (t : Tables) (env : Environment) : Condition → Bool
  | valueOf value edge => env.sameText ⟨value, .edgeId⟩ ⟨edge, .id⟩
  | about edge node label =>
    env.sameText ⟨edge, .node1⟩ node && env.isText t ⟨edge, .label⟩ label
  | firstLabel edge node =>
    env.sameText ⟨edge, .node1⟩ node && env.isText t ⟨edge, .label⟩ Vocabulary.label &&
      match (env.text? node).bind t.firstLabel with
      | some id => env.isText t ⟨edge, .id⟩ id
      | none => false
  | equals operand text => env.isText t operand text
  | anyIn alternatives =>
    alternatives.isEmpty || alternatives.any fun (operand, texts) =>
      env.isAmong t operand texts

/-- A double in a text. -/
def pointText : Cell → Option String
  | .real x => some (NumberForm.joined.text x)
  | _ => none

def Expr.eval (env : Environment) : Expr → Cell
  | operand o => env.cell o
  | firstOf a b => if env.cell a = .null then env.cell b else env.cell a
  | point source =>
    let coordinate (column : Column) := pointText (env.cell ⟨source, column⟩)
    match coordinate .longitude, coordinate .latitude with
    | some longitude, some latitude => .text ("POINT(" ++ longitude ++ " " ++ latitude ++ ")")
    | _, _ => .null

/-- The environments that a join makes of one with these records. -/
def PlanJoin.extend (t : Tables) (records : List Record) (j : PlanJoin) (env : Environment) :
    List Environment :=
  let extended := records.map fun record => (j.source, some record) :: env
  let found := extended.filter fun env => j.condition.holds t env
  match j.kind with
  | .inner => found
  | .left => if found.isEmpty then [(j.source, none) :: env] else found

/-! ## Names -/

def Expr.sources : Expr → List Alias
  | operand o => [o.source]
  | firstOf a b => [a.source, b.source]
  | point source => [source]

def Condition.sources : Condition → List Alias
  | valueOf value edge => [value, edge]
  | about edge node _ => [edge, node.source]
  | firstLabel edge node => [edge, node.source]
  | equals operand _ => [operand.source]
  | anyIn alternatives => alternatives.map (·.1.source)

/-- Every condition uses only names joined before it, or the one it is for. -/
def joinsScoped (joined : List Alias) : List PlanJoin → Bool
  | [] => true
  | j :: joins =>
    let joined := j.source :: joined
    j.condition.sources.all (· ∈ joined) && joinsScoped joined joins

namespace Plan

/-- All names of a query. -/
def sources (plan : Plan) : List Alias := plan.base :: plan.joins.map (·.source)

/-- Every name that the query uses is joined. -/
def wellScoped (plan : Plan) : Bool :=
  joinsScoped [plan.base] plan.joins &&
    (plan.columns.flatMap (·.2.sources) ++ plan.conditions.flatMap (·.sources)
      ++ plan.order.flatMap (·.sources)).all (· ∈ sources plan)

/-- The environments of the joined rows that meet the conditions. -/
def environments (plan : Plan) (t : Tables) : List Environment :=
  let start := (t.records .edges).map fun record => [(plan.base, some record)]
  let joined := plan.joins.foldl
    (fun envs j => envs.flatMap (PlanJoin.extend t (t.records j.table) j)) start
  joined.filter fun env => plan.conditions.all (·.holds t env)

/-- What an environment is sorted by. -/
def sortKey (plan : Plan) (env : Environment) : List Cell := plan.order.map (·.eval env)

/-- The environments in order, up to the limit. -/
def selected (plan : Plan) (t : Tables) : List Environment :=
  let ordered := (environments plan t).mergeSort fun a b =>
    (Cell.compareRows t.encoding (sortKey plan a) (sortKey plan b)).isLE
  match plan.limit with
  | some n => ordered.take n
  | none => ordered

/-- The rows of the query. -/
def rows (plan : Plan) (t : Tables) : List (List Cell) :=
  (selected plan t).map fun env => plan.columns.map (·.2.eval env)

end Plan

/-- The most tables that one query can join. -/
def maxJoinedTables : Nat := 64

/-- The most columns that one query can have. -/
def maxColumns : Nat := 2000

/-- A query is small enough to be made. -/
def Plan.fits (plan : Plan) : Bool :=
  plan.sources.length ≤ maxJoinedTables && plan.columns.length ≤ maxColumns &&
    plan.toSql.render.params.length ≤ maxBoundCells

/-- The rows of a query, one cell for each of its columns. -/
def Database.query (db : Database) (plan : Plan) : Except StoreError (List (List Cell)) := do
  db.require .edges
  plan.joins.forM fun j => db.require j.table
  if plan.wellScoped && plan.fits then .ok (plan.rows db.tables)
  else .error .query

end FactGraph
