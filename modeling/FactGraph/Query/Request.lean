import FactGraph.Metadata.Store
import FactGraph.Query.Evaluate

/-!
# Requests for observations

A request names a property, a dataset, output columns and places. The qualifiers come from the
database: those of the variable for that property or, where there is none, those that are found
on the observations.
-/

namespace FactGraph.Database

/-- The qualifiers of the observations of a property in a dataset. -/
def qualifiersFor (db : Database) (dataset property : String) :
    Except StoreError (List Qualifier) := do
  match ← db.variableNode? dataset property with
  | some node => db.resolveQualifiers dataset node
  | none => db.discoverQualifiers dataset property

/-- The query for the observations of a property in a dataset. -/
def observationPlan (db : Database) (property dataset : String) (columns : List String)
    (places : PlaceFilter) (limit : Int64) : Except StoreError Plan := do
  Plan.ofRequest property dataset (← db.qualifiersFor dataset property) columns places limit

end FactGraph.Database
