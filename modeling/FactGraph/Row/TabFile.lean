import FactGraph.Row.Basic

/-!
# Tab-separated files

A file is a header and records, each on a line of its own, with tabs between the fields. There
are no quotes: a field is the bytes between two tabs. A line ends at a line feed or a carriage
return, and empty lines are no records. A byte order mark at the start is skipped.

Records may be shorter or longer than the header: an absent field is empty, and the fields
past the header are not looked at.
-/

namespace FactGraph.TabFile

/-- A record as bytes, and where the one before it ended. -/
structure Record where
  start : Position
  fields : List (List UInt8)
  deriving DecidableEq, Repr

def tab : UInt8 := 9
def lineFeed : UInt8 := 10
def carriageReturn : UInt8 := 13

def endsLine (b : UInt8) : Bool := b = lineFeed || b = carriageReturn

/-- The position after a byte. -/
def advance (p : Position) (b : UInt8) : Position :=
  ⟨if b = lineFeed then p.line + 1 else p.line, p.byte + 1⟩

/-- The records of the rest of a file. `start` is where the last record ended, `here` the
position of the next byte, and `line` the bytes of the present line, backwards. -/
def recordsFrom (start here : Position) (line : List UInt8) : List UInt8 → List Record
  | [] => if line.isEmpty then [] else [⟨start, line.reverse.splitOn tab⟩]
  | b :: rest =>
    let next := advance here b
    if endsLine b then
      if line.isEmpty then recordsFrom start next [] rest
      else ⟨start, line.reverse.splitOn tab⟩ :: recordsFrom next next [] rest
    else recordsFrom start next (b :: line) rest

/-- The records of a file, the header first. -/
def records (bytes : List UInt8) : List Record :=
  match bytes with
  | 0xEF :: 0xBB :: 0xBF :: rest => recordsFrom ⟨1, 0⟩ ⟨1, 3⟩ [] rest
  | _ => recordsFrom ⟨1, 0⟩ ⟨1, 0⟩ [] bytes

/-- How many of the bytes from `i` on are characters before the first that is part of none. -/
def validFrom (bytes : ByteArray) (i : Nat) : Nat :=
  match bytes.utf8DecodeChar? i with
  | some c => if i < bytes.size then validFrom bytes (i + c.utf8Size) else i
  | none => i
termination_by bytes.size - i
decreasing_by have := c.utf8Size_pos; omega

/-- The text of a field, or the number of its bytes that are text. -/
def decodeField (bytes : List UInt8) : Except Nat String :=
  match String.fromUTF8? bytes.toByteArray with
  | some text => .ok text
  | none => .error (validFrom bytes.toByteArray 0)

/-- The texts of the fields from number `field` on. -/
def decodeFields (record : Nat) (start : Position) (field : Nat) :
    List (List UInt8) → Except InvalidInput (List String)
  | [] => .ok []
  | bytes :: rest =>
    match decodeField bytes with
    | .error valid => .error (.encoding record start field valid)
    | .ok text => (decodeFields record start (field + 1) rest).map (text :: ·)

/-- The texts of record number `record`. -/
def decodeRecord (record : Nat) (r : Record) : Except InvalidInput (List String) :=
  decodeFields record r.start 0 r.fields

/-- The texts of the records from number `record` on. -/
def decodeRecords (record : Nat) : List Record → Except InvalidInput (List (List String))
  | [] => .ok []
  | r :: rest => do
    let texts ← decodeRecord record r
    let rows ← decodeRecords (record + 1) rest
    .ok (texts :: rows)

/-- The header of a file; that of an empty file has no columns. -/
def header (bytes : List UInt8) : Except InvalidInput (List String) :=
  match records bytes with
  | [] => .ok []
  | r :: _ => decodeRecord 0 r

/-- The records after the header. -/
def rows (bytes : List UInt8) : Except InvalidInput (List (List String)) :=
  decodeRecords 1 (records bytes).tail

/-- The index of a column: the first of that name. -/
def column (header : List String) (name : String) : Except InvalidInput Nat :=
  match header.idxOf? name with
  | some i => .ok i
  | none => .error (.column name)

/-- The field of a record at an index, empty if the record is too short. -/
def cell (row : List String) (i : Nat) : String := row[i]?.getD ""

/-- One line of a file. -/
def renderRow (fields : List String) : String := "\t".intercalate fields ++ "\n"

/-! ## Flat files -/

def flatColumns : List String := ["id", "node1", "label", "node2"]

/-- Reads a flat file. The column of ids may be absent, and an empty id is none. -/
def readFlat (bytes : List UInt8) : Except InvalidInput (List FlatRow) := do
  let columns ← header bytes
  let id := columns.idxOf? "id"
  let node1 ← column columns "node1"
  let label ← column columns "label"
  let node2 ← column columns "node2"
  (← rows bytes).map (fun row =>
    ⟨(id.map (cell row)).filter (!·.isEmpty), cell row node1, cell row label, cell row node2⟩)
    |> .ok

def flatFields (row : FlatRow) : List String :=
  [row.id.getD "", row.node1, row.label, row.node2]

/-- Writes a flat file. -/
def writeFlat (rows : List FlatRow) : String :=
  String.join (renderRow flatColumns :: rows.map fun row => renderRow (flatFields row))

/-! ## Exploded files -/

/-- What the names of typed columns start with. -/
def fieldMark : String := "node2;kgtk:"

def tagColumn : String := fieldMark ++ "data_type"

def fieldColumn (field : Field) : String := fieldMark ++ field.name

def explodedColumns : List String :=
  ["id", "node1", "label", "node2", tagColumn] ++ Field.all.map fieldColumn

/-- The text of a typed column: the last one of that name that is not empty. -/
def fieldCell (columns row : List String) (field : Field) : Option String :=
  ((columns.zipIdx.filter (·.1 = fieldColumn field)).map (cell row ·.2)).reverse.find?
    (!·.isEmpty)

/-- Reads an exploded file. -/
def readExploded (bytes : List UInt8) : Except InvalidInput (List ExplodedRow) := do
  let columns ← header bytes
  let id ← column columns "id"
  let node1 ← column columns "node1"
  let label ← column columns "label"
  let node2 := columns.idxOf? "node2"
  let tag ← column columns tagColumn
  (← rows bytes).map (fun row =>
    ⟨cell row id, cell row node1, cell row label, (node2.map (cell row)).getD "", cell row tag,
     .ofFn (fieldCell columns row)⟩)
    |> .ok

def explodedFields (row : ExplodedRow) : List String :=
  [row.id, row.node1, row.label, row.node2, row.tag] ++
    Field.all.map fun field => (row.fields.get? field).getD ""

/-- Writes an exploded file. -/
def writeExploded (rows : List ExplodedRow) : String :=
  String.join (renderRow explodedColumns :: rows.map fun row => renderRow (explodedFields row))

end FactGraph.TabFile
