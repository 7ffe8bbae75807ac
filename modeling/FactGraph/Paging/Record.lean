import FactGraph.Paging.Page
import FactGraph.Store.StoredValue

/-!
# Records

A row is written as a record: the classes of its cells and then their contents. Only the sizes are
needed here. What of a large record has no room in its page goes to pages of its own.
-/

namespace FactGraph.Record

-- Powers and sums are those of the core library, whatever else is in scope.
attribute [local instance (high)] instPowNat Zero.ofOfNat0

/-- The bytes of a number in groups of seven bits. -/
def varintSize (n : Nat) : Nat :=
  if n < 2 ^ (7 : Nat) then 1 else if n < 2 ^ (14 : Nat) then 2 else if n < 2 ^ (21 : Nat) then 3
  else if n < 2 ^ (28 : Nat) then 4 else 5

/-! ## Cells -/

/-- The bytes of a cell: for its class, and for its content. -/
structure CellSize where
  ofClass : Nat
  ofContent : Nat
  deriving DecidableEq, Repr

/-- The bytes of an integer; zero and one need none. -/
def intSize (z : Int) : Nat :=
  let fits (bits : Nat) : Bool := -(2 ^ (bits - 1)) ≤ z && z < 2 ^ (bits - 1)
  if z = 0 ∨ z = 1 then 0
  else if fits 8 then 1
  else if fits 16 then 2
  else if fits 24 then 3
  else if fits 32 then 4
  else if fits 48 then 6
  else 8

/-- A text of so many bytes. -/
def textSize (bytes : Nat) : CellSize := ⟨varintSize (13 + 2 * bytes), bytes⟩

def numberSize (n : Nat) : CellSize := ⟨1, intSize n⟩

def cellSize (encoding : TextEncoding) : Cell → CellSize
  | .null => ⟨1, 0⟩
  | .int v => ⟨1, intSize v.toInt⟩
  | .real _ => ⟨1, 8⟩
  | .text t => textSize (encoding.size t)
  | .bytes b => ⟨varintSize (12 + 2 * b.length), b.length⟩

/-- The bytes of a record with these cells. Its start tells its own size. -/
def size (cells : List CellSize) : Nat :=
  let classes := (cells.map (·.ofClass)).sum
  classes + varintSize (classes + 1) + (cells.map (·.ofContent)).sum

/-! ## Values -/

/-- A cell in a column of doubles: a small integer is written as one. -/
def columnCell (x : Binary64) : Cell :=
  match x.toInt? with
  | some z => if z.natAbs < 2 ^ (47 : Nat) then .int (Int64.ofInt z) else .real x
  | none => .real x

/-- The cells of a value as they are written. -/
def writtenCells {kind : ValueKind} (stored : StoredValue kind) : List Cell :=
  let compact : Cell → Cell
    | .real x => columnCell x
    | c => c
  match stored with
  | .quantity number .. => number :: (stored.cells.drop 1).map compact
  | _ => stored.cells.map compact

/-! ## In pages -/

/-- The bytes of a record that stay in its page, at most `most`, and the pages for the rest. -/
def placed (pageSize most size : Nat) : Nat × Nat :=
  if size ≤ most then (size, 0)
  else
    let least := (pageSize - 12) * 32 / 255 - 23
    let room := pageSize - 4
    let surplus := least + (size - least) % room
    let kept := if surplus ≤ most then surplus else least
    (kept + 4, (size - kept + room - 1) / room)

/-- The cell of a row with its number. -/
def rowCell (pageSize number size : Nat) : PageCell Nat :=
  let (kept, pages) := placed pageSize (pageSize - 35) size
  ⟨number, varintSize size + varintSize number + kept, pages⟩

/-- The cell of an entry of an index. -/
def entryCell {κ : Type} (pageSize : Nat) (key : κ) (size : Nat) : PageCell κ :=
  let (kept, pages) := placed pageSize ((pageSize - 12) * 64 / 255 - 23) size
  ⟨key, varintSize size + kept, pages⟩

/-- Above the leaves of a table there are numbers of rows only. -/
def rowDivider : Divider Nat := .key fun c => ⟨c.key, varintSize c.key, 0⟩

end FactGraph.Record
