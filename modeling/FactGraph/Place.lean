import FactGraph.Vocabulary

/-!
# Places

A place lies in regions at four administrative levels. A place filter names regions, and a
place passes if it lies in one of them.
-/

namespace FactGraph

/-- The administrative levels, the widest first. -/
inductive AdminLevel where
  | country
  | admin1
  | admin2
  | admin3
  deriving DecidableEq, Repr

namespace AdminLevel

def all : List AdminLevel := [country, admin1, admin2, admin3]

def name : AdminLevel → String
  | country => "country"
  | admin1 => "admin1"
  | admin2 => "admin2"
  | admin3 => "admin3"

/-- The predicate that links a place to the region around it. -/
def predicate : AdminLevel → String
  | country => Vocabulary.country
  | admin1 => Vocabulary.admin1
  | admin2 => Vocabulary.admin2
  | admin3 => Vocabulary.admin3

end AdminLevel

/-- The regions that are asked for at each level. -/
structure PlaceFilter where
  country : List String
  admin1 : List String
  admin2 : List String
  admin3 : List String
  deriving DecidableEq, Repr

namespace PlaceFilter

/-- The filter with the regions that `f` gives. -/
def ofFn (f : AdminLevel → List String) : PlaceFilter :=
  ⟨f .country, f .admin1, f .admin2, f .admin3⟩

def ids (places : PlaceFilter) : AdminLevel → List String
  | .country => places.country
  | .admin1 => places.admin1
  | .admin2 => places.admin2
  | .admin3 => places.admin3

/-- The levels at which regions are named. -/
def levels (places : PlaceFilter) : List AdminLevel :=
  AdminLevel.all.filter fun level => !(places.ids level).isEmpty

/-- No region is named, which restricts nothing. -/
def isEmpty (places : PlaceFilter) : Bool := places.levels.isEmpty

end PlaceFilter

end FactGraph
