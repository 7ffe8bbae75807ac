import FactGraph.CommandLine.Command
import FactGraph.CommandLine.Keeping
import FactGraph.Integrity
import FactGraph.Json
import FactGraph.Query.Request
import FactGraph.Row.Explode
import FactGraph.Row.TabFile
import FactGraph.Store.Session

/-!
# Running a command line

A run opens the database, runs one command, and closes the database in order unless the command
failed. It works on any file system, one in memory or a real one.

A run ends with `0`, with `1` if the command failed, and with `2` if it could not start.
-/

namespace FactGraph

/-- The lines that a run prints, to the output and to the errors. -/
structure Printed where
  output : List String
  errors : List String
  deriving DecidableEq, Repr

/-- What a run leaves: its code and its lines. -/
structure RunResult where
  code : Nat
  printed : Printed
  deriving DecidableEq, Repr

/-- A command at work: it can fail, works on a store, and prints. -/
abbrev CommandM (m : Type → Type) (α : Type) :=
  ExceptT StoreError (StateT Store (StateT Printed m)) α

namespace CommandM

variable {m : Type → Type} [Monad m]

def print (line : String) : CommandM m Unit :=
  modifyThe Printed fun p => { p with output := p.output ++ [line] }

def printError (line : String) : CommandM m Unit :=
  modifyThe Printed fun p => { p with errors := p.errors ++ [line] }

def printJson (fields : List (String × JsonValue)) : CommandM m Unit :=
  print (JsonValue.ofFields fields).print

/-- Makes an operation of the store. -/
def operate {α : Type} (operation : StoreM α) : CommandM m α := do
  let (outcome, store) := (← getThe Store).run operation
  set store
  ExceptT.mk (pure outcome)

def lift {α : Type} (action : m α) : CommandM m α := (monadLift action : StateT Printed m α)

def ofInvalid {α : Type} (outcome : Except InvalidInput α) : CommandM m α :=
  ExceptT.mk (pure (outcome.mapError .invalidInput))

/-! ## Files -/

def readFile (files : FileSystem m) (path : String) : CommandM m (List UInt8) := do
  match ← lift (files.read (Path.ofText path)) with
  | some (.file bytes) => return bytes
  | some .directory => throw (.invalidInput .directory)
  | some .device => return []
  | none => throw (.invalidInput (.openFile path))

/-- Writes a text of whole lines. -/
def writeFile (files : FileSystem m) (path text : String) : CommandM m Unit := do
  let bytes := text.toUTF8.data.toList
  match ← lift (files.write (Path.ofText path) bytes) with
  | .stored => return
  | .printed => print (text.dropEnd 1).toString
  | .printedToErrors => printError (text.dropEnd 1).toString
  | .noRoom => throw (.invalidInput .noRoom)
  | .refused => throw (.invalidInput (.createFile path))

/-- The statements of a flat file. Rejected rows are printed, or the first of them ends the
command. -/
def explodeFile (files : FileSystem m) (path : String) (failFast : Bool) :
    CommandM m ExplodeReport := do
  let rows ← ofInvalid (TabFile.readFlat (← readFile files path))
  let report := FactGraph.explode failFast rows
  match failFast, report.errors with
  | true, e :: _ => throw (.invalidInput (.row e.line e.fault.column e.fault.message))
  | _, errors =>
    errors.forM fun e => printError (InvalidInput.row e.line e.fault.column e.fault.message).message
    return report

/-! ## Commands -/

def statusCommand : CommandM m Unit := do
  let version ← operate (.read (·.storedVersion))
  let history ← operate (.read (·.migrationHistory))
  let edges ← operate (.read (·.size))
  print ("backend=sqlite schema_version=" ++ toString version ++ " migrations_applied="
    ++ toString history.length ++ " edges=" ++ toString edges)

def migrateCommand (dryRun : Bool) : CommandM m Unit := do
  let report ← operate (.migrate dryRun)
  let history ← operate (.read (·.migrationHistory))
  printJson [("command", .text "migrate"), ("dry_run", .bool dryRun),
    ("from_version", .int report.fromVersion), ("to_version", .int report.toVersion),
    ("statements", .list (report.statements.map .text)),
    ("history", .list (history.map fun step =>
      .ofFields [("version", .int step.version), ("applied_at", .text step.appliedAt)]))]

def importCommand (files : FileSystem m) (input : String) (isStrict failFast : Bool) :
    CommandM m Unit := do
  let store ← getThe Store
  let report ← explodeFile files input failFast
  let mode := if isStrict then InsertMode.strict else store.insertMode
  let stats ← operate (.insert mode report.statements)
  printJson [("command", .text "import"), ("input", .text input),
    ("edges_inserted", .ofNat stats.inserted), ("edges_skipped", .ofNat stats.skipped),
    ("values_inserted", .ofNat stats.values), ("rows_rejected", .ofNat report.errors.length)]

def exportCommand (files : FileSystem m) (output : String) (exploded : Bool) :
    CommandM m Unit := do
  let statements ← operate (.read (·.allStatements))
  writeFile files output (if exploded then TabFile.writeExploded (statements.map (·.toExploded))
    else TabFile.writeFlat (statements.map (·.toFlat)))
  printJson [("command", .text "export"), ("output", .text output), ("exploded", .bool exploded),
    ("edges", .ofNat statements.length)]

def explodeCommand (files : FileSystem m) (input output : String) (failFast : Bool) :
    CommandM m Unit := do
  let report ← explodeFile files input failFast
  writeFile files output (TabFile.writeExploded (report.statements.map (·.toExploded)))
  printJson [("command", .text "explode"), ("rows_written", .ofNat report.statements.length),
    ("rows_rejected", .ofNat report.errors.length)]

def implodeCommand (files : FileSystem m) (input output : String) : CommandM m Unit := do
  let exploded ← ofInvalid (TabFile.readExploded (← readFile files input))
  let rows ← ExceptT.mk (pure (exploded.mapM FactGraph.implode))
  writeFile files output (TabFile.writeFlat rows)
  printJson [("command", .text "implode"), ("rows_written", .ofNat rows.length)]

def decodeCommand (value : String) : CommandM m Unit := do
  let l ← ExceptT.mk (pure ((Literal.decode value).mapError .literal))
  printJson [("data_type", .text l.kind.tag), ("canonical", .text l.encode),
    ("literal", .ofLiteral l)]

/-- A cell of a row; bytes are read as text. -/
def cellJson : Cell → JsonValue
  | .null => .null
  | .int v => .int v.toInt
  | .real x => .double x
  | .text t => .text t
  | .bytes b => .ofText? (String.fromUTF8? b.toByteArray)

def queryCommand (property dataset : String) (columns : List String) (limit : Int64)
    (places : PlaceFilter) : CommandM m Unit := do
  let plan ← operate (.read (·.observationPlan property dataset columns places limit))
  let rows ← operate (.read (·.query plan))
  rows.forM fun row => printJson (plan.columnNames.zip (row.map cellJson))

def deleteCommand (dataset : String) (properties : List String) : CommandM m Unit := do
  let removed ← operate (.deleteObservations dataset properties)
  printJson [("command", .text "delete"), ("dataset", .text dataset),
    ("properties", .list (properties.map .text)), ("edges_removed", .ofNat removed)]

def integrityJson (r : IntegrityReport) : JsonValue :=
  .ofFields [("total_edges", .ofNat r.edges), ("missing_values", .ofNat r.faults.missing),
    ("mismatched_values", .ofNat r.faults.mismatched), ("orphan_values", .ofNat r.faults.orphan),
    ("duplicate_values", .ofNat r.faults.duplicate)]

def checkCommand : CommandM m Unit := do
  let line (ok : Bool) (r : IntegrityReport) : CommandM m Unit :=
    printJson [("command", .text "check"), ("ok", .bool ok), ("report", integrityJson r)]
  match (← getThe Store).database.checkStrictly with
  | .ok r => line true r
  | .error e =>
    line false e.report
    throw e.toStoreError

def runCommand (files : FileSystem m) : Command → CommandM m Unit
  | .status => statusCommand
  | .migrate dryRun => migrateCommand dryRun
  | .importFile input isStrict failFast => importCommand files input isStrict failFast
  | .exportFile output exploded => exportCommand files output exploded
  | .explode input output failFast => explodeCommand files input output failFast
  | .implode input output => implodeCommand files input output
  | .decode value => decodeCommand value
  | .query property dataset columns limit places =>
    queryCommand property dataset columns limit places
  | .delete dataset properties => deleteCommand dataset properties
  | .check => checkCommand

end CommandM

/-! ## Runs -/

namespace Invocation

variable {m : Type → Type} [Monad m]

/-- Where the database is kept. -/
def location? (i : Invocation) : Option Location :=
  if i.isInMemory then some (.unkept .create) else Location.ofName? i.database

/-- A database that has a location of its own is migrated when it is opened, except to be
migrated. -/
def config (i : Invocation) (l : Location) (refusal : Option StoreError) : StoreConfig :=
  { StoreConfig.standard with
    withoutMigrations := !i.isInMemory && i.command = "migrate"
    refusal
    inFile := l.kept?.isSome }

/-- Runs the command on the store. -/
def runCommand (files : FileSystem m) (i : Invocation) (store : Store) :
    m (RunResult × Database) := do
  let action : CommandM m Unit := do
    CommandM.runCommand files (← CommandM.ofInvalid (Command.read i.command i.arguments))
  let ((outcome, store), printed) ← ((ExceptT.run action).run store).run ⟨[], []⟩
  match outcome with
  | .ok () => return (⟨0, printed⟩, store.database)
  | .error cause =>
    let line := "command failed: " ++ cause.message
    return (⟨1, { printed with errors := printed.errors ++ [line] }⟩, store.database)

/-- A run that could not start. -/
def refusal (cause : StoreError) : RunResult := ⟨2, ⟨[], [cause.message]⟩⟩

/-- Opens the store at a location, runs the command on it, and closes the database in order unless
the command failed. -/
def runAt (files : FileSystem m) (now : String) (i : Invocation) (l : Location) : m RunResult := do
  match ← (Kept.atLocation files l).run with
  | .error cause => return refusal cause
  | .ok kept =>
    let (outcome, opened) :=
      Store.openDatabase (i.config l kept.refusal) now kept.image.database
    let kept ← kept.keep files opened
    match outcome with
    | .error cause =>
      kept.close files
      return refusal cause
    | .ok store =>
      let (result, db) ← i.runCommand files store
      let kept ← kept.keep files db
      if result.code = 0 then kept.close files
      return result

/-- Runs a command line without the name of the program, at the time `now`. -/
def run (files : FileSystem m) (now : String) (args : List String) : m RunResult := do
  if asksForHelp args then return ⟨0, ⟨[helpText], []⟩⟩
  match read args with
  | .error cause => return ⟨2, ⟨[], ["error: " ++ cause.message]⟩⟩
  | .ok i =>
    match i.location? with
    | none => return refusal .connection
    | some l => i.runAt files now l

end Invocation

end FactGraph
