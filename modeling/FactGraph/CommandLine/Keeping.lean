import FactGraph.CommandLine.FileSystem
import FactGraph.CommandLine.Location
import FactGraph.Store.Archive
import FactGraph.Store.Upkeep

/-!
# Keeping a database

Other files go with the file of a database. A database that is shared, or used exclusively, is
changed in its log; when it is closed in order, the file takes over what the log holds, and the log
and its index are removed. After a command that failed the files stay as they are, and the next
program finds the changes in the log. A log or a journal that something else has written is passed
over and removed, as far as the database can be written.
-/

namespace FactGraph

/-- The files that go with the file of a database. -/
inductive Companion where
  /-- What undoes a change that was broken off. -/
  | journal
  /-- Changes that the file does not have. -/
  | log
  /-- Where changes are found in the log. -/
  | index
  deriving DecidableEq, Repr

def Companion.ending : Companion → String
  | journal => "-journal"
  | log => "-wal"
  | index => "-shm"

/-- The path of a file that goes with the file of a database. -/
def Companion.path (c : Companion) (main : Path) : Path := main ++ Path.ofText c.ending

/-- Where changes are kept. -/
inductive Keeping where
  | nowhere
  | inFile
  | inLog (hasIndex : Bool)
  deriving DecidableEq, Repr

/-- An open database. -/
structure Kept where
  path : Path
  keeping : Keeping
  /-- What becomes of changes, if nothing can be written. -/
  refusal : Option StoreError
  /-- The newest state that files hold. -/
  image : Image
  /-- The count of changes when the database was opened. -/
  changes : Nat
  /-- What the log holds of the newest state. -/
  logged : Option Image.LogScope

namespace Kept

variable {m : Type → Type} [Monad m] (files : FileSystem m)

/-- A database that is not kept. -/
def unkept (access : Access) : Kept :=
  ⟨[], .nowhere, if access = .readOnly then some .query else none, .blank, 0, none⟩

/-- A database that can only be read, with the failure of changes. -/
def readOnly (path : Path) (image : Image) (cause : StoreError) : Kept :=
  ⟨path, .nowhere, some cause, image, image.changes, none⟩

/-! ## Opening -/

/-- The bytes of the file. A file that is missing is created if that is wanted. -/
def mainBytes (access : Access) (path : Path) : ExceptT StoreError m (List UInt8) := do
  match ← files.read path with
  | some (.file bytes) => return bytes
  | some .directory => throw .connection
  | some .device => throw .schema
  | none =>
    if access ≠ .create then throw .connection
    if (← files.write path []) ≠ .stored then throw .connection
    return []

/-- Looks after the journal, and tells whether one can be written. A journal that belongs to no
change is removed. -/
def checkJournal (access : Access) (k : KeptPlace) (main : List UInt8) :
    ExceptT StoreError m Bool := do
  let path := Companion.journal.path k.place.path
  match ← files.read path with
  | some .directory =>
    if !main.isEmpty && k.sharing ≠ .marked then throw .schema
    return false
  | some (.file (first :: _)) =>
    let undoes := !main.isEmpty && first ≠ 0
    if k.sharing = .marked then return true
    if undoes && access = .readOnly then throw .schema
    if undoes || (main.isEmpty && (access ≠ .readOnly || k.sharing = .unlocked)) then
      files.remove path
    return true
  | _ => return true

/-- The bytes of the log, if there are any. No log goes with an empty file. -/
def logBytes? (sharing : Sharing) (path : Path) (main : List UInt8) :
    ExceptT StoreError m (Option (List UInt8)) := do
  match ← files.read (Companion.log.path path) with
  | some .directory => throw .schema
  | some (.file (first :: rest)) =>
    if main.isEmpty then
      files.remove (Companion.log.path path)
      return none
    if !sharing.allowsLog then throw .schema
    return some (first :: rest)
  | _ => return none

/-- The index of the log cannot be written. A program that uses a database exclusively has an index
of its own. -/
def isIndexFixed (access : Access) (k : KeptPlace) : ExceptT StoreError m Bool := do
  if k.sharing = .exclusive && access ≠ .readOnly then return false
  if k.hasFixedIndex then return true
  return (← files.read (Companion.index.path k.place.path)) = some .directory

/-- Fails because the file holds no database. A log that holds none either was opened before that
was found. -/
def refuseFile {α : Type} (access : Access) (k : KeptPlace) (log : Option (List UInt8)) :
    ExceptT StoreError m α := do
  if log.isSome then
    if !(← isIndexFixed files access k) then
      let path := k.place.path
      if access = .readOnly then
        let _ ← files.write (Companion.index.path path) Image.index
      else
        files.remove (Companion.log.path path)
        if k.sharing = .shared then files.remove (Companion.index.path path)
  throw .schema

/-- Makes the file one that programs share. -/
def shareFile (path : Path) (image : Image) : ExceptT StoreError m Image := do
  let image : Image := { image with isShared := true, changes := image.changes + 1 }
  let _ ← files.write path image.archive
  files.remove (Companion.journal.path path)
  return image

/-- Creates the log if it is missing. -/
def createLog (path : Path) : ExceptT StoreError m Unit := do
  if (← files.read (Companion.log.path path)).isNone then
    let _ ← files.write (Companion.log.path path) []

/-- The bytes of the start of a log. -/
def logStartSize : Nat := 32

/-- Opens the index of the log, and tells whether it can be written. One that cannot be written has
to be there, with a log in order. -/
def openIndex (access : Access) (k : KeptPlace) (isLogInOrder : Bool) :
    ExceptT StoreError m Bool := do
  let path := Companion.index.path k.place.path
  if ← isIndexFixed files access k then
    if (← files.read path).isNone || !isLogInOrder then throw .schema
    return false
  let _ ← files.write path Image.index
  return true

/-- Opens the database at a place. -/
def atPlace (access : Access) (k : KeptPlace) : ExceptT StoreError m Kept := do
  let path := k.place.path
  if let some model := k.model? then
    if (← files.read model).isNone then throw .connection
  let main ← mainBytes files access path
  if !k.hasRoom then throw .schema
  if k.sharing = .fixed then
    let some image := Image.restore? main | throw .schema
    return readOnly path image .query
  let hasJournal ← checkJournal files access k main
  let log ← logBytes? files k.sharing path main
  if main.isEmpty && !hasJournal then throw .schema
  let held := log.bind Image.ofLog?
  let completed := held.map fun (scope, image) => image.completed scope main
  let some image := completed.or (Image.restore? main) | refuseFile files access k log
  if !k.sharing.allowsLog then
    if image.isShared then throw .schema
    if access = .readOnly || !hasJournal then return readOnly path image .query
    return ⟨path, .inFile, none, image, image.changes, none⟩
  if access = .readOnly && !image.isShared && log.isNone then return readOnly path image .query
  let image ← if access = .readOnly || image.isShared || log.isSome then pure image
    else shareFile files path image
  createLog files path
  if k.sharing = .exclusive && access ≠ .readOnly then
    return ⟨path, .inLog false, none, image, image.changes, held.map (·.1)⟩
  let isLogInOrder := held.isSome || log.all (·.length < logStartSize)
  if ← openIndex files access k isLogInOrder then
    if access = .readOnly then return readOnly path image .query
    return ⟨path, .inLog true, none, image, image.changes, held.map (·.1)⟩
  return readOnly path image (if access = .readOnly then .query else .transaction)

/-- Opens the database at a location. -/
def atLocation (l : Location) : ExceptT StoreError m Kept :=
  match l.kept? with
  | none => return unkept l.access
  | some k => atPlace files l.access k

/-! ## Changing and closing -/

/-- How many changes lead to a database that is not shared: one for each new object, one for the
first version, and one at least. -/
def changesBetween (before after : Database) : Nat :=
  max 1 (after.objectCount - before.objectCount +
    if before.version.isNone && after.version.isSome then 1 else 0)

/-- What the header tells is the same for both databases. -/
def sameHeader (before after : Database) : Bool :=
  before.hasShapeOf after && before.extent .standard = after.extent .standard

/-- Keeps a database that has changed. -/
def keep (k : Kept) (db : Database) : m Kept := do
  if k.image.database.archiveText = db.archiveText then return k
  match k.keeping with
  | .nowhere => return k
  | .inFile =>
    let changes := k.image.changes + changesBetween k.image.database db
    let image : Image := ⟨db, false, changes⟩
    let _ ← files.write k.path image.archive
    files.remove (Companion.journal.path k.path)
    return { k with image }
  | .inLog _ =>
    let changes := if sameHeader k.image.database db then k.image.changes else k.changes + 1
    let image : Image := ⟨db, k.image.isShared, changes⟩
    let isNew := k.image.database.schema = .empty
    let scope := k.logged.getD (if isNew then .whole else .changes)
    let _ ← files.write (Companion.log.path k.path) (image.log scope)
    return { k with image, logged := some scope }

/-- Closes the database in order. A log that something else has written over stays, with all that
was there before it. -/
def close (k : Kept) : m Unit := do
  match k.keeping with
  | .inLog hasIndex =>
    let log := Companion.log.path k.path
    let bytes (path : Path) : m (List UInt8) := do
      return ((← files.read path).bind FileContent.bytes?).getD []
    if let some scope := k.logged then
      if (Image.ofLog? (← bytes log)).isNone then return
      let image := k.image.completed scope (← bytes k.path)
      let _ ← files.write k.path image.archive
    files.remove log
    if hasIndex then files.remove (Companion.index.path k.path)
  | _ => return

end Kept

end FactGraph
