import FactGraph.Literal.Quantity
import FactGraph.Qualifier.Basic
import FactGraph.Statement
import FactGraph.Text.Blank

/-!
# Descriptions

Datasets, variables and qualifier properties are described by statements about their nodes.
Each description has a check, and the statements that say it; their ids are derived, so the same
description gives the same statements.
-/

namespace FactGraph

/-! ## Checks -/

/-- The field holds something. -/
def checkSet (field value : String) : Except InvalidInput Unit :=
  if Text.isBlankText value then .error (.unset field) else .ok ()

/-- The name is made of letters, digits, underscores and hyphens. -/
def checkShortName (name : String) : Except InvalidInput Unit :=
  if name.isEmpty || !name.toList.all isNameChar then .error (.shortName name) else .ok ()

/-- The field holds a node: something without blanks. -/
def checkNode (field value : String) : Except InvalidInput Unit := do
  checkSet field value
  if value.toList.any Text.isBlank then .error (.blankInside field value) else .ok ()

/-- Addresses start with the letters of their protocol. -/
def checkUrl (url : String) : Except InvalidInput Unit :=
  if "http".toList.isPrefixOf url.toList then .ok () else .error (.url url)

/-! ## Statements -/

/-- The statements of a node: each says a literal under a label. -/
def statementsAbout (node : String) (said : List (String × Literal)) : List Statement :=
  said.map fun (label, l) => .ofLiteral (edgeId node label l.encode 0) node label l

/-- A collection of observations. -/
structure Dataset where
  node : String
  shortName : String
  name : String
  description : String
  url : String
  deriving DecidableEq, Repr

namespace Dataset

def check (d : Dataset) : Except InvalidInput Unit := do
  checkNode "dataset node" d.node
  checkShortName d.shortName
  checkSet "dataset name" d.name
  checkSet "dataset description" d.description
  checkUrl d.url

def said (d : Dataset) : List (String × Literal) :=
  [(Vocabulary.instanceOf, .symbol Vocabulary.datasetClass),
   (Vocabulary.shortName, .text d.shortName),
   (Vocabulary.label, .text d.name),
   (Vocabulary.description, .text d.description),
   (Vocabulary.url, .text d.url)]

/-- The predicates that a dataset has one value of. -/
def fields : List String :=
  [Vocabulary.shortName, Vocabulary.label, Vocabulary.description, Vocabulary.url]

def statements (d : Dataset) : Except StoreError (List Statement) := do
  d.check.mapError .invalidInput
  .ok (statementsAbout d.node d.said)

end Dataset

/-- What the observations of one property in one dataset measure. -/
structure Variable where
  node : String
  shortName : String
  name : String
  datasetNode : String
  property : String
  description : Option String
  qualifiers : List String
  deriving DecidableEq, Repr

namespace Variable

def check (v : Variable) : Except InvalidInput Unit := do
  checkNode "variable node" v.node
  checkShortName v.shortName
  checkSet "variable name" v.name
  checkNode "dataset node" v.datasetNode
  checkNode "corresponding property" v.property
  v.qualifiers.forM (checkNode "qualifier property")

def said (v : Variable) : List (String × Literal) :=
  [(Vocabulary.instanceOf, .symbol Vocabulary.variableClass),
   (Vocabulary.shortName, .text v.shortName),
   (Vocabulary.label, .text v.name),
   (Vocabulary.dataset, .symbol v.datasetNode),
   (Vocabulary.correspondsTo, .symbol v.property)] ++
  (v.description.toList.map fun d => (Vocabulary.description, .text d)) ++
  (v.qualifiers.map fun q => (Vocabulary.hasQualifier, .symbol q))

/-- The predicates that a variable is described by, its class apart. -/
def fields : List String :=
  [Vocabulary.shortName, Vocabulary.label, Vocabulary.description, Vocabulary.dataset,
   Vocabulary.correspondsTo, Vocabulary.hasQualifier]

def statements (v : Variable) : Except StoreError (List Statement) := do
  v.check.mapError .invalidInput
  .ok (statementsAbout v.node v.said)

end Variable

/-- A predicate of qualifiers, with its declared data type if there is one. -/
structure QualifierProperty where
  property : String
  label : String
  declared : Option String
  deriving DecidableEq, Repr

namespace QualifierProperty

def check (q : QualifierProperty) : Except StoreError Unit := do
  (checkNode "qualifier property" q.property).mapError .invalidInput
  (checkSet "qualifier label" q.label).mapError .invalidInput
  q.declared.toList.forM fun declared => do
    let _ ← QualifierKind.ofDeclared declared
    .ok ()

def said (q : QualifierProperty) : List (String × Literal) :=
  (Vocabulary.label, .text q.label) ::
    (q.declared.toList.map fun declared => (Vocabulary.declaredDatatype, .symbol declared))

/-- The predicates that a qualifier property has one value of. -/
def fields : List String := [Vocabulary.label, Vocabulary.declaredDatatype]

def statements (q : QualifierProperty) : Except StoreError (List Statement) := do
  q.check
  .ok (statementsAbout q.property q.said)

end QualifierProperty

end FactGraph
