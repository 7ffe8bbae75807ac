import FactGraph.Store.Engine
import FactGraph.Store.Removal
import FactGraph.Store.Upkeep

/-!
# Stores

A store is an open database with the settings of its session. Each write is a transaction: it
is done as a whole or not at all. A transaction can also be opened by itself; until it is
committed or rolled back, no write can open another.
-/

namespace FactGraph

/-- An open database: its engine and settings, the time that it records, and what it was when the
open transaction began. -/
structure Store where
  database : Database
  engine : Engine
  batch : BatchConfig
  insertMode : InsertMode
  now : String
  saved : Option Database

/-- An operation on a store, which may fail. -/
abbrev StoreM (α : Type) := ExceptT StoreError (StateM Store) α

/-- How a store is opened. -/
structure StoreConfig where
  /-- Pending migrations wait. -/
  withoutMigrations : Bool
  /-- What becomes of changes, if nothing can be written. -/
  refusal : Option StoreError
  /-- The database is kept in a file. Its changes are undone without a journal too, which is so as
  long as they fit into the cache. -/
  inFile : Bool
  /-- Settings of the engine by name, in the order in which they are made. -/
  settings : List (String × String)
  batch : BatchConfig
  insertMode : InsertMode
  deriving DecidableEq, Repr

namespace StoreConfig

def standard : StoreConfig := ⟨false, none, false, [], .standard, .idempotent⟩

/-- The engine before the settings. A file is cut into pages as it is opened. -/
def initialEngine (config : StoreConfig) : Engine :=
  { Engine.standard with
    refusal := config.refusal
    layout := { PageLayout.standard with isFixed := config.inFile } }

/-- The engine with the settings. -/
def engine (config : StoreConfig) : Except StoreError Engine := do
  let e ← config.initialEngine.ofSettings config.settings
  .ok { e with undoes := e.undoes || config.inFile }

end StoreConfig

namespace Store

/-- The store when a transaction begins. -/
def begun (s : Store) : Store := { s with saved := some s.database }

/-- The store when the open transaction ends and its changes stay. -/
def committed (s : Store) : Store := { s with database := s.database.settled, saved := none }

/-- The store when the open transaction, if there is one, ends and its changes are undone, if the
engine can. -/
def rolledBack (s : Store) : Store :=
  { s with database := if s.engine.undoes then s.saved.getD s.database else s.database
           saved := none }

/-- The store after a change for which there are no pages. An open transaction ends without its
changes. If they cannot be undone, the database cannot be used any more. -/
def exhausted (s : Store) : Store :=
  if s.engine.undoes then s.rolledBack
  else { s with
    database := .empty
    engine := { s.engine with refusal := some .transaction }
    saved := none }

/-- The outcome and the store after an operation. -/
def run {α : Type} (s : Store) (operation : StoreM α) : Except StoreError α × Store :=
  (ExceptT.run operation).run s

end Store

namespace StoreM

/-- Answers from the database. -/
def read {α : Type} (f : Database → Except StoreError α) : StoreM α :=
  fun s => (f s.database, s)

/-- Makes a change for which there have to be pages. What is written is told from the tables before
it; of a change that failed, only what is left of it. -/
def changeWithin {α : Type} (cause : StoreError) (order : Tables → WriteOrder) (u : Update α) :
    StoreM α := fun s =>
  let (outcome, changed) := u.apply s.database
  let order (before : Tables) : WriteOrder :=
    if outcome.isOk then order before else ⟨[], (order before).added⟩
  match s.database.followed? changed order with
  | some db => (outcome, { s with database := db.settled })
  | none => (.error cause, s.exhausted)

/-- Fails with the cause if a transaction is open. -/
def requireIdle (cause : StoreError) : StoreM Unit := do
  if (← get).saved.isSome then throw cause

/-- Fails if nothing can be written. The failure is called as `called` tells. -/
def requireWritable (called : StoreError → StoreError := id) : StoreM Unit := do
  if let some cause := (← get).engine.refusal then throw (called cause)

/-! ## Transactions -/

/-- Opens a transaction. -/
def beginTransaction (called : StoreError → StoreError := id) : StoreM Unit := do
  requireIdle (called .transaction)
  if (← get).engine.refusal = some .transaction then throw (called .transaction)
  modify Store.begun

/-- Ends the open transaction and keeps its changes. -/
def commit (called : StoreError → StoreError := id) : StoreM Unit := do
  if (← get).saved.isNone then throw (called .transaction)
  modify Store.committed

/-- Ends the open transaction, if there still is one, and undoes its changes, if the engine can. -/
def rollback : StoreM Unit := modify Store.rolledBack

/-- Runs an operation in a transaction, which is committed if the operation succeeds and rolled back
if it fails. -/
def inTransaction {α : Type} (operation : StoreM α) (called : StoreError → StoreError := id) :
    StoreM α := do
  beginTransaction called
  tryCatch
    (do
      let a ← operation
      commit called
      return a)
    fun cause => do
      rollback
      throw cause

/-- Makes a change in a transaction of its own. What fails of the transaction itself is called as
`called` tells. -/
def transact {α : Type} (order : Tables → WriteOrder) (u : Update α)
    (called : StoreError → StoreError := id) : StoreM α :=
  inTransaction (do
    requireWritable called
    changeWithin (called .query) order u) called

/-! ## Writing -/

/-- Inserts statements. Without any there is nothing to do. -/
def insert (mode : InsertMode) (statements : List Statement) : StoreM ImportStats := do
  if statements.isEmpty then return .none
  checkStatements statements
  let config := (← get).batch
  transact (fun _ => ⟨[], statements.map (·.edge.id)⟩) (Update.insert config mode statements)

/-- Replaces what the node says under the predicates. -/
def replace (node : String) (predicates : List String) (statements : List Statement) :
    StoreM ImportStats := do
  checkStatements statements
  let config := (← get).batch
  let ids := statements.map (·.edge.id)
  transact (fun tables => ⟨tables.staleIds node predicates ids, ids⟩)
    (Update.replace config node predicates statements)

/-- Removes edges by id, with the edges about them, and tells how many. -/
def deleteIds (ids : List String) : StoreM Nat := do
  if ids.isEmpty then return 0
  transact (fun _ => ⟨ids, []⟩) (Update.purge ids)

/-- Removes the observations of the properties in the dataset, and tells how many edges. -/
def deleteObservations (dataset : String) (properties : List String) : StoreM Nat := do
  if properties.isEmpty then return 0
  transact (fun tables => ⟨tables.observationIds dataset properties, []⟩)
    (Update.purgeObservations dataset properties)

/-! ## Migrations -/

/-- Makes the pending migrations in a transaction, whose failures are those of the schema. Without
any there is nothing to do, and a dry run only reports. -/
def migrate (dryRun : Bool) : StoreM MigrationReport := do
  let version ← read (·.storedVersion)
  let report := MigrationReport.ofVersion version dryRun
  if (pendingSteps version).isEmpty || dryRun then return report
  transact (fun _ => .none) (Update.makeSteps (← get).now version) fun _ => .schema
  return report

end StoreM

/-! ## Opening -/

namespace Update

/-- An operation as a change: it is done in a store of its own, whose engine has no settings and
whose pages nobody counts. -/
def ofOperation {α : Type} (now : String) (operation : StoreM α) : Update α := fun db =>
  let s : Store := ⟨{ db with pages := none }, .standard, .standard, .idempotent, now, none⟩
  let (outcome, s) := s.run operation
  (outcome, { s.database with pages := db.pages })

/-- Makes the pending migrations of a database that is being opened. -/
def migrate (now : String) (dryRun : Bool) : Update MigrationReport :=
  ofOperation now (StoreM.migrate dryRun)

/-- Brings a database to the present schema. -/
def ensure (now : String) : Update Unit := do
  ensureBase
  discard (migrate now false)

end Update

/-- An engine takes a database as it becomes when it is opened: it has to be able to work at all, to
write what changed, and to expect what a new version answers. -/
def Engine.accepts (e : Engine) (found opened : Database) : Bool :=
  !e.isStarved && (e.refusal.isNone || found.hasShapeOf opened) &&
    (!e.reportsChanges || found.version = opened.version)

namespace Store

/-- Opens a database at the time `now`. A database that is refused may have changed: what was
missing of the base schema has been created. -/
def openDatabase (config : StoreConfig) (now : String) (db : Database) :
    Except StoreError Store × Database :=
  match config.engine with
  | .error cause => (.error cause, db)
  | .ok engine =>
    let u := if config.withoutMigrations then Update.ensureBase else Update.ensure now
    let found := (db.reopened engine.encoding).counted engine.layout engine.pageLimit
    match u.apply found with
    | (.ok (), opened) =>
      match (found.followed? opened fun _ => .none).filter (engine.accepts db) with
      | some opened => (.ok ⟨opened, engine, config.batch, config.insertMode, now, none⟩, opened)
      | none => (.error .schema, db)
    | (.error cause, opened) => (.error cause, opened)

end Store

end FactGraph
