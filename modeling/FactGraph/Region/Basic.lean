import FactGraph.Place
import FactGraph.Store.Database

/-!
# Regions

The description of a place: its label, and the region around it at each administrative level
with its label.
-/

namespace FactGraph

/-- A node with its label. -/
structure PlaceRef where
  id : String
  label : Option String
  deriving DecidableEq, Repr

/-- A place and the regions around it. -/
structure Region where
  id : String
  label : Option String
  country : Option PlaceRef
  admin1 : Option PlaceRef
  admin2 : Option PlaceRef
  admin3 : Option PlaceRef
  deriving DecidableEq, Repr

namespace Region

def level (r : Region) : AdminLevel → Option PlaceRef
  | .country => r.country
  | .admin1 => r.admin1
  | .admin2 => r.admin2
  | .admin3 => r.admin3

/-- Nothing is known of the place. -/
def isUnknown (r : Region) : Bool :=
  r.label.isNone && AdminLevel.all.all fun level => (r.level level).isNone

end Region

namespace Database

/-- The region around a place at a level: that of the first edge which names one. -/
def placeAt (db : Database) (id : String) (level : AdminLevel) :
    Except StoreError (Option PlaceRef) := do
  match (← db.lookup id level.predicate).head? with
  | some e => .ok (some ⟨e.node2, ← db.nodeLabel e.node2⟩)
  | none => .ok none

/-- What is known of a place, if anything. -/
def region? (db : Database) (id : String) : Except StoreError (Option Region) := do
  let label ← db.nodeLabel id
  let country ← db.placeAt id .country
  let admin1 ← db.placeAt id .admin1
  let admin2 ← db.placeAt id .admin2
  let admin3 ← db.placeAt id .admin3
  let region : Region := ⟨id, label, country, admin1, admin2, admin3⟩
  .ok (if region.isUnknown then none else some region)

end Database

end FactGraph
