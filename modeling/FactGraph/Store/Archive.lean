import FactGraph.Store.Database

/-!
# Databases as bytes

A database is kept in a file as a header and a text. The header tells whether programs share the
database, and ends in a byte that no text has, so that no text is taken for a database. The text
has one line for the encoding, each object of the schema, the version, each migration that was
made, and each row. A line has a name and cells, separated by tabs; inside a text a backslash
marks what would end a cell or a line. Reading gives back the database that was written.

A log holds a later state of a database than its file. It starts with a mark that no text has, which
tells whether it holds the whole database or only what has changed since it was in the file.
-/

namespace FactGraph

namespace Cell

/-- A character of a text in a cell. -/
def escapeChar (c : Char) : List Char :=
  if c = '\\' then ['\\', '\\']
  else if c = '\t' then ['\\', 't']
  else if c = '\n' then ['\\', 'n']
  else if c = '\r' then ['\\', 'r']
  else [c]

/-- The text whose characters are written so. -/
def unescape : List Char → List Char
  | '\\' :: 't' :: rest => '\t' :: unescape rest
  | '\\' :: 'n' :: rest => '\n' :: unescape rest
  | '\\' :: 'r' :: rest => '\r' :: unescape rest
  | '\\' :: c :: rest => c :: unescape rest
  | c :: rest => c :: unescape rest
  | [] => []

/-- A double as its sign and rank. -/
def binary64Text : Binary64 → String
  | .nan => "n"
  | .ranked negative rank _ => (if negative then "-" else "+") ++ toString rank

def readBinary64? (cs : List Char) : Option Binary64 :=
  match cs with
  | ['n'] => some .nan
  | sign :: digits => do
    let rank ← (String.ofList digits).toNat?
    if sign = '+' ∨ sign = '-' then some (.ofRank (sign = '-') rank) else none
  | [] => none

/-- A mark for the class of the cell, then its value. -/
def archive : Cell → String
  | null => "."
  | int v => "i" ++ toString v.toInt
  | real x => "r" ++ binary64Text x
  | text t => "t" ++ String.ofList (t.toList.flatMap escapeChar)
  | bytes b => "b" ++ " ".intercalate (b.map fun x => toString x.toNat)

def readByte? (text : String) : Option UInt8 := text.toNat?.map UInt8.ofNat

def restore? (line : String) : Option Cell :=
  match line.toList with
  | ['.'] => some null
  | 'i' :: rest => (String.ofList rest).toInt?.map fun z => int (Int64.ofInt z)
  | 'r' :: rest => (readBinary64? rest).map real
  | 't' :: rest => some (text (String.ofList (unescape rest)))
  | ['b'] => some (bytes [])
  | 'b' :: rest =>
    ((rest.splitOn ' ').mapM fun cs => readByte? (String.ofList cs)).map bytes
  | _ => none

/-- A text or nothing. -/
def optionalText? : Cell → Option (Option String)
  | null => some none
  | text t => some (some t)
  | _ => none

/-- A double or nothing. -/
def optionalReal? : Cell → Option (Option Binary64)
  | null => some none
  | real x => some (some x)
  | _ => none

/-- An integer or nothing. -/
def optionalInt? : Cell → Option (Option Int)
  | null => some none
  | int v => some (some v.toInt)
  | _ => none

end Cell

namespace StoredValue

/-- The value of a kind with these columns. -/
def ofCells? : (kind : ValueKind) → List Cell → Option (StoredValue kind)
  | .string, [.text text, language] => do some (.string text (← language.optionalText?))
  | .dateAndTime, [.text text, precision, calendar] => do
    some (.pointInTime text (← precision.optionalInt?) (← calendar.optionalText?))
  | .quantity, [number, unit, low, high] => do
    some (.quantity number (← unit.optionalText?) (← low.optionalReal?)
      (← high.optionalReal?))
  | .coordinate, [.real latitude, .real longitude, precision] => do
    some (.coordinate latitude longitude (← precision.optionalReal?))
  | .symbol, [.text s] => some (.symbol s)
  | _, _ => none

end StoredValue

namespace Database

/-- A line: what it is, and its cells. -/
abbrev ArchiveLine := String × List Cell

def schemaLines (s : Schema) : List ArchiveLine :=
  (s.tables.map fun t => ("table", [.text t.name])) ++
    s.indexes.map fun i => ("index", [.text i.name])

def versionLines (db : Database) : List ArchiveLine :=
  (db.version.toList.map fun v => ("version", [.int (Int64.ofInt v)])) ++
    db.history.map fun m => ("migration", [.int (Int64.ofInt m.version), .text m.appliedAt])

def lostLines (db : Database) : List ArchiveLine :=
  db.lost.map fun t => ("lost", [.text t.name])

def tagLines (t : Tables) : List ArchiveLine :=
  t.unknownTags.map fun (id, tag) => ("tag", [.text id, .text tag])

def edgeLine (e : Edge) : ArchiveLine :=
  ("edge", [.text e.id, .text e.node1, .text e.label, .text e.node2, .text e.kind.tag])

def valueLines (t : Tables) (kind : ValueKind) : List ArchiveLine :=
  (t.values kind).rows.map fun row => (kind.tag, .text row.edgeId :: row.stored.cells)

/-- All lines of a database. -/
def lines (db : Database) : List ArchiveLine :=
  ("encoding", [.text db.tables.encoding.name]) :: schemaLines db.schema ++ db.lostLines ++
    db.versionLines ++ tagLines db.tables ++ db.tables.edges.rows.map edgeLine ++
    ValueKind.all.flatMap (valueLines db.tables)

def renderLine (line : ArchiveLine) : String :=
  "\t".intercalate (line.1 :: line.2.map Cell.archive) ++ "\n"

/-- The text of a database. -/
def archiveText (db : Database) : String := String.join (db.lines.map renderLine)

/-- The number of objects of the schema. -/
def objectCount (db : Database) : Nat := db.schema.tables.length + db.schema.indexes.length

/-! ## Reading -/

def readLine? (line : String) : Option ArchiveLine :=
  match line.splitOn "\t" with
  | [] => none
  | name :: cells => (cells.mapM Cell.restore?).map (name, ·)

/-- Puts what a line says in front of what the later lines said. -/
def addLine? (line : ArchiveLine) (db : Database) : Option Database :=
  match line with
  | ("encoding", [.text name]) => do
    let encoding ← TextEncoding.ofName? name
    some { db with tables := { db.tables with encoding := encoding } }
  | ("tag", [.text id, .text tag]) =>
    some { db with tables := { db.tables with unknownTags := (id, tag) :: db.tables.unknownTags } }
  | ("table", [.text name]) => do
    let t ← TableName.ofName? name
    some { db with schema := { db.schema with tables := t :: db.schema.tables } }
  | ("lost", [.text name]) => do
    let t ← TableName.ofName? name
    some { db with lost := t :: db.lost }
  | ("index", [.text name]) => do
    let i ← IndexName.ofName? name
    some { db with schema := { db.schema with indexes := i :: db.schema.indexes } }
  | ("version", [.int v]) => some { db with version := some v.toInt }
  | ("migration", [.int v, .text time]) =>
    some { db with history := ⟨v.toInt, time⟩ :: db.history }
  | ("edge", [.text id, .text node1, .text label, .text node2, .text tag]) => do
    let kind ← (ValueKind.ofTag tag).toOption
    some { db with tables := db.tables.addEdge ⟨id, node1, label, node2, kind⟩ }
  | (tag, .text id :: cells) => do
    let kind ← (ValueKind.ofTag tag).toOption
    let stored ← StoredValue.ofCells? kind cells
    some { db with tables := db.tables.addValue ⟨id, stored⟩ }
  | _ => none

/-- The database of a text. -/
def ofArchiveText? (text : String) : Option Database :=
  ((text.splitOn "\n").filter (!·.isEmpty)).foldr
    (fun line db => do addLine? (← readLine? line) (← db)) (some .empty)

end Database

/-! ## Files -/

/-- A database as its file holds it. -/
structure Image where
  database : Database
  /-- Programs share the database. -/
  isShared : Bool
  /-- How often what the header tells has changed. -/
  changes : Nat

namespace Image

/-- A file without bytes. -/
def blank : Image := ⟨.empty, false, 0⟩

/-- What the file of a database that is shared, or not, starts with. -/
def title (isShared : Bool) : List UInt8 :=
  ((if isShared then "shared database" else "database").toUTF8.data.toList).rightpad 27 0x20

/-- The bytes of a header. -/
def headerSize : Nat := 100

/-- The last byte of a header, which is part of no text. -/
def lastByte : UInt8 := 0xFF

/-- The header tells the count of changes twice, and the number of objects. -/
def header (image : Image) : List UInt8 :=
  let changes := UInt8.ofNat image.changes
  title image.isShared ++ [changes] ++ List.replicate 15 0x20 ++
    [UInt8.ofNat image.database.objectCount] ++ List.replicate 51 0x20 ++ [changes] ++
    List.replicate 3 0x20 ++ [lastByte]

/-- The bytes of a database. -/
def archive (image : Image) : List UInt8 :=
  image.header ++ image.database.archiveText.toUTF8.data.toList

/-- The database of these bytes. A file of one byte at most is a database without tables. -/
def restore? (bytes : List UInt8) : Option Image := do
  if bytes.length ≤ 1 then return blank
  let isShared ← [false, true].find? fun isShared => (title isShared).isPrefixOf bytes
  let changes ← (bytes.drop 27).head?
  if (bytes.drop (headerSize - 1)).head? ≠ some lastByte then none
  let text ← String.fromUTF8? (bytes.drop headerSize).toByteArray
  return ⟨← Database.ofArchiveText? text, isShared, changes.toNat⟩

/-! ## Logs -/

/-- What a log holds of a database. -/
inductive LogScope where
  | whole
  /-- What has changed since the database was in the file. -/
  | changes
  deriving DecidableEq, Repr

/-- What a log starts with. -/
def LogScope.mark : LogScope → List UInt8
  | whole => [0x37, 0x7F, 0x06, 0x82]
  | changes => [0x37, 0x7F, 0x06, 0x83]

/-- A log that leads to the database. -/
def log (image : Image) (scope : LogScope) : List UInt8 := scope.mark ++ image.archive

/-- The database to which a log leads. -/
def ofLog? (bytes : List UInt8) : Option (LogScope × Image) := do
  let scope ← [LogScope.whole, .changes].find? fun scope => scope.mark.isPrefixOf bytes
  return (scope, ← restore? (bytes.drop scope.mark.length))

/-- The database to which a log leads together with its file. If the file holds no database any
more, the rows that are not in the log are lost: all but those of the version and its history. -/
def completed (image : Image) (scope : LogScope) (main : List UInt8) : Image :=
  if scope = .changes && (restore? main).all (·.database.schema = .empty) then
    { image with database := { image.database with
      lost := image.database.schema.tables.filter TableName.hasIds } }
  else image

/-- The index of a log. -/
def index : List UInt8 := [0x18, 0xE2, 0x2D, 0x00]

end Image

end FactGraph
