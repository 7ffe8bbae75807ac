import FactGraph.Error
import FactGraph.Literal.Basic
import FactGraph.Vocabulary

/-!
# Qualifiers

A qualifier is a typed attribute of observations, such as the point in time or the source. Its
name is made from a label: letters and digits in lower case, with one underscore for each run
of anything else.
-/

namespace FactGraph

/-- A qualifier holds stored values of a kind, or places. -/
inductive QualifierKind where
  | stored (kind : ValueKind)
  | location
  deriving DecidableEq, Repr

namespace QualifierKind

def tag : QualifierKind → String
  | stored kind => kind.tag
  | location => "location"

/-- What declared data types are called with a vocabulary in front. -/
def ontologies : List String := ["http://wikiba.se/ontology#", "wikibase:"]

/-- The name of a declared data type without its vocabulary. -/
def bareName (declared : String) : String :=
  match ontologies.find? (·.toList.isPrefixOf declared.toList) with
  | some ontology => String.ofList (declared.toList.drop ontology.toList.length)
  | none => declared

/-- The kind of a declared data type. -/
def ofDeclared (declared : String) : Except StoreError QualifierKind :=
  match bareName declared with
  | "GlobeCoordinate" => .ok location
  | "Quantity" => .ok (stored .quantity)
  | "Time" => .ok (stored .dateAndTime)
  | "String" | "MonolingualText" => .ok (stored .string)
  | "ExternalIdentifier" | "WikibaseItem" | "WikibaseProperty" | "Url" => .ok (stored .symbol)
  | _ => .error (.unknownDatatype declared)

end QualifierKind

/-! ## Names -/

/-- A character of a name: a lower-case letter or a digit. -/
def isNameLetter (c : Char) : Bool := c.isLower || c.isDigit

/-- The characters in lower case, as far as they can be part of a name. Beyond the letters of
ASCII only the Kelvin sign and the dotted capital I have such a lower case, the latter followed
by a combining dot. -/
def lowered (c : Char) : List Char :=
  if c = '\u212A' then ['k']
  else if c = '\u0130' then ['i', '\u0307']
  else [c.toLower]

/-- The maximal runs of characters of names. -/
def nameRuns (cs : List Char) : List (List Char) :=
  (cs.splitOnP (!isNameLetter ·)).filter (!·.isEmpty)

/-- The runs of a label in lower case, joined by underscores. -/
def sanitize (label : String) : String :=
  String.ofList (['_'].intercalate (nameRuns (label.toList.flatMap lowered)))

/-! ## Resolution -/

/-- A qualifier: its name, the predicate of its edges, and its kind. Observations without an
optional qualifier are kept. A region tells where an observation was made. -/
structure Qualifier where
  name : String
  predicate : String
  kind : QualifierKind
  isOptional : Bool
  isRegion : Bool
  deriving DecidableEq, Repr

namespace Qualifier

/-- The name of a qualifier that tells a place, or has no other. -/
def locationName : String := "location"

/-- The only qualifier that every observation has to have. -/
def timeName : String := "time"

/-- The kind and the name of the predicates that need no description. -/
def wellKnown? (predicate : String) : Option (QualifierKind × String) :=
  if predicate = Vocabulary.pointInTime then some (.stored .dateAndTime, timeName)
  else if predicate = Vocabulary.statedIn then some (.stored .symbol, "stated_in")
  else if predicate = Vocabulary.locatedIn ∨ predicate = Vocabulary.location then
    some (.location, locationName)
  else if predicate = Vocabulary.country then some (.location, "country")
  else none

/-- The name of a qualifier with this label. -/
def nameOf (predicate label : String) : String :=
  match wellKnown? predicate with
  | some (_, name) => name
  | none => if (sanitize label).isEmpty then locationName else sanitize label

/-- The kind of a qualifier: as declared, else as known, else as observed, else text. -/
def kindOf (predicate : String) (declared : Option String) (observed : Option ValueKind) :
    Except StoreError QualifierKind :=
  match declared with
  | some declared => QualifierKind.ofDeclared declared
  | none => .ok ((((wellKnown? predicate).map (·.1)).or (observed.map .stored)).getD
      (.stored .string))

/-- The qualifier of a predicate with a label. -/
def resolve (predicate : String) (declared : Option String) (label : String)
    (observed : Option ValueKind) : Except StoreError Qualifier := do
  let kind ← kindOf predicate declared observed
  let name := nameOf predicate label
  .ok { name, predicate, kind, isOptional := name ≠ timeName,
        isRegion := kind = .location ∨ name = locationName }

end Qualifier

end FactGraph
