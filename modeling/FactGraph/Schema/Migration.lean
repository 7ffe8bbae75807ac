import FactGraph.Store.Database

/-!
# Versions and migrations

A database has a version. Opening one creates what is missing of the base schema and then, if
wanted, makes the migration steps that its version lacks. A step adds an index and is recorded
in the history.

`Update` is the type of changes to a database: one that fails leaves what it has done so far.
-/

namespace FactGraph

/-- A change to a database, which may fail halfway. -/
abbrev Update (α : Type) := ExceptT StoreError (StateM Database) α

namespace Update

/-- The outcome and the database after the change. -/
def apply {α : Type} (u : Update α) (db : Database) : Except StoreError α × Database :=
  (ExceptT.run u).run db

/-- Answers from the database without changing it. -/
def read {α : Type} (f : Database → Except StoreError α) : Update α :=
  fun db => (f db, db)

end Update

/-! ## Steps -/

/-- What brings a database to a version. -/
structure MigrationStep where
  target : Int
  index : IndexName
  statement : String
  deriving DecidableEq, Repr

def baseVersion : Int := 1

/-- The steps in the order of their versions. -/
def migrationSteps : List MigrationStep :=
  [⟨2, .node2, "CREATE INDEX IF NOT EXISTS idx_edges_node2 ON edges(node2)"⟩]

/-- The version that the steps lead to. -/
def schemaVersion : Int := baseVersion + migrationSteps.length

/-- The steps that a version lacks. -/
def pendingSteps (version : Int) : List MigrationStep :=
  migrationSteps.filter fun step => version < step.target

/-- What a migration does, or would do. -/
structure MigrationReport where
  fromVersion : Int
  toVersion : Int
  statements : List String
  dryRun : Bool
  deriving DecidableEq, Repr

/-- The report for a database of this version. -/
def MigrationReport.ofVersion (version : Int) (dryRun : Bool) : MigrationReport where
  fromVersion := version
  toVersion := ((pendingSteps version).getLast?.map (·.target)).getD version
  statements := (pendingSteps version).map (·.statement)
  dryRun := dryRun

namespace Database

/-- The version, if the table for it exists and has one. -/
def storedVersion (db : Database) : Except StoreError Int := do
  db.require .version .schema
  match db.version with
  | some v => .ok v
  | none => .error .schema

/-- The steps that were made, the oldest first. -/
def migrationHistory (db : Database) : Except StoreError (List AppliedMigration) := do
  db.require .history .schema
  .ok db.history

end Database

namespace Update

/-- Makes one step at the time `now`. -/
def makeStep (now : String) (step : MigrationStep) : Update Unit := do
  read (·.require .edges .schema)
  modify fun db => { db with schema := db.schema.addIndex step.index }
  read (·.require .history .schema)
  modify fun db => { db with history := db.history ++ [⟨step.target, now⟩] }

/-- Makes the steps that a version lacks and sets the version that they lead to. -/
def makeSteps (now : String) (version : Int) : Update Unit := do
  (pendingSteps version).forM (makeStep now)
  modify fun db => { db with version := some (MigrationReport.ofVersion version false).toVersion }

/-! ## The base schema -/

/-- Creates the tables and indexes of the base schema that do not exist. -/
def createBase : Update Unit :=
  modify fun db =>
    let tables := TableName.all.foldl Schema.addTable db.schema
    { db with schema := [IndexName.node1Label, .labelNode2].foldl Schema.addIndex tables }

/-- Sets the version of a database that has none or one before the first, and refuses one that
is too new. -/
def checkVersion : Update Unit := do
  match (← get).version with
  | some v =>
    if schemaVersion < v then throw (.newerSchema v schemaVersion)
    if v < baseVersion then modify fun db => { db with version := some baseVersion }
  | none => modify fun db => { db with version := some baseVersion }

/-- Brings a database to the base schema. -/
def ensureBase : Update Unit := do
  createBase
  checkVersion

end Update

end FactGraph
