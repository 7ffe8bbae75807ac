import FactGraph.Qualifier.Join

/-!
# Observation queries

An observation of a property is an edge with that label, a quantity, and an edge that links it
to a dataset. `Plan.ofRequest` builds the query for the observations of one property in one
dataset, with one output column for each requested name that is known.
-/

namespace FactGraph

/-- The output columns that every observation has. -/
inductive BaseColumn where
  | subjectId
  | subject
  | value
  | unit
  | unitId
  | lowTolerance
  | highTolerance
  | datasetId
  deriving DecidableEq, Repr

namespace BaseColumn

def all : List BaseColumn :=
  [subjectId, subject, value, unit, unitId, lowTolerance, highTolerance, datasetId]

def name : BaseColumn → String
  | subjectId => "main_subject_id"
  | subject => "main_subject"
  | value => "value"
  | unit => "value_unit"
  | unitId => "value_unit_id"
  | lowTolerance => "low_tolerance"
  | highTolerance => "high_tolerance"
  | datasetId => "dataset_id"

def ofName? (name : String) : Option BaseColumn := all.find? (·.name = name)

def expr : BaseColumn → Expr
  | subjectId => .operand ⟨.observation, .node1⟩
  | subject => .operand ⟨.subjectText, .text⟩
  | value => .operand ⟨.amount, .number⟩
  | unit => .firstOf ⟨.unitText, .text⟩ ⟨.amount, .unit⟩
  | unitId => .operand ⟨.amount, .unit⟩
  | lowTolerance => .operand ⟨.amount, .lowTolerance⟩
  | highTolerance => .operand ⟨.amount, .highTolerance⟩
  | datasetId => .operand ⟨.dataset, .node2⟩

end BaseColumn

/-! ## Fragments -/

/-- The quantity, the dataset, and the label of the unit. -/
def baseFragment : JoinFragment where
  owner := "base"
  joins :=
    [⟨.inner, .values .quantity, .amount, .valueOf .amount .observation⟩,
     ⟨.inner, .edges, .dataset, .about .dataset ⟨.observation, .id⟩ Vocabulary.dataset⟩] ++
    labelJoins .unitLabel .unitText ⟨.amount, .unit⟩

/-- The label of the subject. -/
def subjectFragment : JoinFragment where
  owner := BaseColumn.subject.name
  joins := labelJoins .subjectLabel .subjectText ⟨.observation, .node1⟩

/-- The regions of a node at one level. -/
def placeFragment (node : Operand) (level : AdminLevel) : JoinFragment where
  owner := "place_" ++ level.name
  joins := [⟨.left, .edges, .place level, .about (.place level) node level.predicate⟩]

/-! ## The plan -/

/-- The qualifier that tells the location. -/
def region? (qualifiers : List Qualifier) : Option Qualifier := qualifiers.find? (·.isRegion)

/-- The first of the names that has occurred before it or in `seen`. -/
def firstRepeated? (seen : List String) : List String → Option String
  | [] => none
  | name :: names => if name ∈ seen then some name else firstRepeated? (name :: seen) names

/-- A query needs to know which of its qualifiers tells the place, and which has which name. -/
def checkQualifiers (qualifiers : List Qualifier) : Except StoreError Unit :=
  match qualifiers.filter (·.isRegion) with
  | first :: second :: _ => .error (.ambiguousLocation first.predicate second.predicate)
  | _ =>
    match firstRepeated? [] (qualifiers.map (·.name)) with
    | some name => .error (.duplicateQualifier name)
    | none => .ok ()

namespace Plan

/-- Adds a requested column with the joins that it needs; an unknown name adds nothing. -/
def addColumn (qualifiers : List Qualifier) (plan : Plan) (column : String) : Plan :=
  match BaseColumn.ofName? column with
  | some base =>
    let plan := if base = .subject then plan.addFragment subjectFragment else plan
    plan.project column base.expr
  | none =>
    match qualifiers.findSome? fun q => (q.field? column).map (q, ·) with
    | some (q, expr) => (plan.addFragment q.fragment).project column expr
    | none => plan

/-- All columns: those of every observation, then those of each qualifier. -/
def allColumns (qualifiers : List Qualifier) : List String :=
  BaseColumn.all.map (·.name) ++ qualifiers.flatMap (·.fieldNames)

/-- A query without any known column shows the subject. -/
def orSubject (plan : Plan) : Plan :=
  if plan.columns.isEmpty then plan.project BaseColumn.subjectId.name BaseColumn.subjectId.expr
  else plan

/-- Adds the joins of a place filter, and its condition: the location of the observation, or
its subject where no qualifier tells a location, lies in one of the regions. -/
def addPlaces (location : Option Qualifier) (places : PlaceFilter) (plan : Plan) : Plan :=
  if places.isEmpty then plan.filter (.anyIn [])
  else
    let plan := match location with
      | some q => plan.addFragment q.fragment
      | none => plan
    let node := match location with
      | some q => q.node
      | none => ⟨.observation, .node1⟩
    let plan := places.levels.foldl (fun plan level => plan.addFragment (placeFragment node level))
      plan
    plan.filter (.anyIn (places.levels.map fun level =>
      (⟨.place level, .node2⟩, places.ids level)))

/-- Rows are ordered by subject, then by time where the query has it, then by observation. -/
def addOrder (qualifiers : List Qualifier) (plan : Plan) : Plan :=
  let bySubject := plan.orderBy (.operand ⟨.observation, .node1⟩)
  let byTime := match qualifiers.find? (·.name = Qualifier.timeName) with
    | some time =>
      if plan.hasFragment time.name then bySubject.orderBy time.valueExpr else bySubject
    | none => bySubject
  byTime.orderBy (.operand ⟨.observation, .id⟩)

/-- The query for the observations of a property in a dataset. Without requested columns it
has all of them. -/
def ofRequest (property dataset : String) (qualifiers : List Qualifier) (columns : List String)
    (places : PlaceFilter) (limit : Int64) : Except StoreError Plan := do
  checkQualifiers qualifiers
  let requested := if columns.isEmpty then allColumns qualifiers else columns
  let start : Plan := (Select.ofBase .observation).addFragment baseFragment
  let joined := orSubject (requested.foldl (addColumn qualifiers) start)
  let restricted := addPlaces (region? qualifiers) places
    ((joined.filter (.equals ⟨.observation, .label⟩ property)).filter
      (.equals ⟨.dataset, .node2⟩ dataset))
  .ok ((addOrder qualifiers restricted).setLimit limit)

end Plan

end FactGraph
