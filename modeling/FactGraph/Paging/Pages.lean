import FactGraph.Paging.Record
import FactGraph.Paging.Tree
import FactGraph.Schema.Object
import FactGraph.Store.Tables

/-!
# The pages of a database

A table has a tree with its rows by number. New rows have the number after the last one. Each table
with ids has a tree with the numbers of its rows by id, and each index one by the texts of its
columns. A tree lists all tables and indexes with their definitions.

The pages know of a row how much room it takes and by which texts it is found; its contents are
kept elsewhere.
-/

namespace FactGraph

-- Sums are those of the core library, whatever else is in scope.
attribute [local instance (high)] Zero.ofOfNat0

/-- By what an entry of an index is found: texts, and the number of the row. -/
structure EntryKey where
  texts : List String
  row : Nat
  deriving DecidableEq, Repr

/-- What has entries. -/
inductive EntryList where
  | ids (table : TableName)
  | index (name : IndexName)
  deriving DecidableEq, Repr

/-- A row as far as the pages know it. -/
structure PagedRow where
  id : String
  /-- The bytes of its record. -/
  size : Nat
  /-- The texts by which it is found in each index. -/
  texts : List (IndexName × List String)
  deriving DecidableEq, Repr

/-- The pages of a database with what is in them. -/
structure Pages where
  supply : PageSupply
  encoding : TextEncoding
  /-- The definitions of tables and indexes, by number. -/
  catalogue : PageTree Nat
  /-- The numbers of the definitions that have to do with each table. -/
  defined : List (Nat × TableName)
  rows : List (TableName × PageTree Nat)
  entries : List (EntryList × PageTree EntryKey)

/-- Work on the pages of a database, as long as there are any. -/
abbrev PageWork := StateT Pages Option

/-! ## Definitions -/

namespace TableName

/-- The characters of its definition. -/
def definitionLength : TableName → Nat
  | edges => 332
  | values .string => 172
  | values .dateAndTime => 220
  | values .quantity => 254
  | values .coordinate => 216
  | values .symbol => 143
  | version => 130
  | history => 147

/-- The rows have ids. -/
def hasIds : TableName → Bool
  | edges | values _ => true
  | version | history => false

end TableName

namespace IndexName

/-- The characters of its definition. -/
def definitionLength : IndexName → Nat
  | node1Label => 57
  | labelNode2 => 57
  | node2 => 44

/-- The texts of an edge by which the index finds it. -/
def texts (i : IndexName) (e : Edge) : List String :=
  match i with
  | node1Label => [e.node1, e.label]
  | labelNode2 => [e.label, e.node2]
  | node2 => [e.node2]

end IndexName

/-! ## Rows -/

namespace Tables

/-- An edge as a row. -/
def pagedEdge (t : Tables) (e : Edge) : PagedRow where
  id := e.id
  size := Record.size ([e.id, e.node1, e.label, e.node2, t.tagOf e].map fun text =>
    Record.cellSize t.encoding (.text text))
  texts := IndexName.all.map fun i => (i, i.texts e)

/-- A row of a table of values. -/
def pagedValue (t : Tables) {kind : ValueKind} (row : ValueRow kind) : PagedRow where
  id := row.edgeId
  size := Record.size ((.text row.edgeId :: Record.writtenCells row.stored).map
    (Record.cellSize t.encoding))
  texts := []

end Tables

namespace Pages

/-- The pages of a database without tables. -/
def blank (layout : PageLayout) (encoding : TextEncoding) : Pages :=
  ⟨.first layout, encoding, .empty, [], [], []⟩

/-! ## Trees -/

/-- The rules of the tree of definitions. The first page starts with something else. -/
def catalogueRules (layout : PageLayout) : PageRules Nat :=
  ⟨layout.pageSize, 100, Record.rowDivider, false⟩

def rowRules (layout : PageLayout) : PageRules Nat :=
  ⟨layout.pageSize, 0, Record.rowDivider, false⟩

def entryRules (layout : PageLayout) (isBulk : Bool) : PageRules EntryKey :=
  ⟨layout.pageSize, 0, .cell, isBulk⟩

/-- The order of texts, one after the other. -/
def compareTexts (encoding : TextEncoding) : List String → List String → Ordering
  | [], [] => .eq
  | [], _ => .lt
  | _, [] => .gt
  | s :: ss, t :: ts => (encoding.compare s t).then (compareTexts encoding ss ts)

/-- How keys stand to this one. -/
def entryOrder (encoding : TextEncoding) (key other : EntryKey) : Ordering :=
  (compareTexts encoding other.texts key.texts).then (compare other.row key.row)

/-- The tree of a table, if it has one. -/
def rowTree (p : Pages) (t : TableName) : PageTree Nat := (p.rows.lookup t).getD .empty

def entryTree (p : Pages) (l : EntryList) : PageTree EntryKey := (p.entries.lookup l).getD .empty

/-- The number of the row with an id. -/
def rowOf? (p : Pages) (t : TableName) (id : String) : Option Nat :=
  ((p.entryTree (.ids t)).find? fun key => compareTexts p.encoding key.texts [id]).map (·.row)

/-- The number that the next row of a table has. -/
def nextRow (p : Pages) (t : TableName) : Nat := ((p.rowTree t).last?.getD 0) + 1

/-- The indexes that there are, the newest first. -/
def indexes (p : Pages) : List IndexName :=
  IndexName.all.reverse.filter fun i => (p.entries.lookup (.index i)).isSome

/-- Does something that takes pages. -/
def work {α : Type} (w : Paging α) : PageWork α := fun p =>
  (w.run p.supply).map fun (a, supply) => (a, { p with supply })

/-- Replaces what belongs to a name in a list. -/
def update {α β : Type} [DecidableEq α] (list : List (α × β)) (name : α) (value : β) :
    List (α × β) :=
  list.map fun (other, old) => if other = name then (other, value) else (other, old)

/-- Changes the rows of a table. -/
def changeRows (t : TableName) (f : PageRules Nat → PageTree Nat → Paging (PageTree Nat)) :
    PageWork Unit := do
  let p ← get
  let tree ← work (f (rowRules p.supply.layout) (p.rowTree t))
  modify fun p => { p with rows := update p.rows t tree }

/-- Changes the entries of a list. -/
def changeEntries (l : EntryList)
    (f : PageRules EntryKey → PageTree EntryKey → Paging (PageTree EntryKey)) :
    PageWork Unit := do
  let p ← get
  let tree ← work (f (entryRules p.supply.layout false) (p.entryTree l))
  modify fun p => { p with entries := update p.entries l tree }

/-! ## Changing rows -/

/-- The cell of an entry. -/
def entryCell (layout : PageLayout) (encoding : TextEncoding) (key : EntryKey) :
    PageCell EntryKey :=
  Record.entryCell layout.pageSize key
    (Record.size ((key.texts.map fun text => Record.cellSize encoding (.text text)) ++
      [Record.numberSize key.row]))

def insertEntry (l : EntryList) (key : EntryKey) : PageWork Unit := do
  let p ← get
  changeEntries l fun r tree =>
    tree.insert r (entryOrder p.encoding key) (entryCell p.supply.layout p.encoding key)

def removeEntry (l : EntryList) (key : EntryKey) : PageWork Unit := do
  let p ← get
  changeEntries l fun r tree => tree.remove r (entryOrder p.encoding key)

/-- How numbers of rows stand to this one. -/
def rowOrder (row other : Nat) : Ordering := compare other row

/-- Adds a row, unless its id is there. -/
def addRow (t : TableName) (row : PagedRow) : PageWork Unit := do
  let p ← get
  if (p.rowOf? t row.id).isSome then return
  let number := p.nextRow t
  for i in p.indexes do
    if let some texts := row.texts.lookup i then insertEntry (.index i) ⟨texts, number⟩
  insertEntry (.ids t) ⟨[row.id], number⟩
  changeRows t fun r tree =>
    tree.insert r (rowOrder number) (Record.rowCell p.supply.layout.pageSize number row.size)

/-- Removes a row, if it is there. -/
def removeRow (t : TableName) (row : PagedRow) : PageWork Unit := do
  let p ← get
  let some number := p.rowOf? t row.id | return
  for i in p.indexes do
    if let some texts := row.texts.lookup i then removeEntry (.index i) ⟨texts, number⟩
  changeRows t fun r tree => tree.remove r (rowOrder number)
  removeEntry (.ids t) ⟨[row.id], number⟩

/-- Puts a row in the place of another one of the same texts. If both are of the same size, it is
written over the other one. -/
def resizeRow (t : TableName) (old row : PagedRow) : PageWork Unit := do
  if old.size = row.size then return
  let p ← get
  let some number := p.rowOf? t row.id | return
  changeRows t fun r tree =>
    tree.replace r (rowOrder number) (Record.rowCell p.supply.layout.pageSize number row.size)

/-! ## Changing tables -/

/-- The bytes of a definition of so many characters for something with a name of so many. -/
def definitionSize (encoding : TextEncoding) (name table root : Nat) (definition : Option Nat) :
    Nat :=
  let width := if encoding = .utf8 then 1 else 2
  let text (length : Nat) : Record.CellSize := Record.textSize (width * length)
  Record.size [text 5, text name, text table, Record.numberSize root,
    (definition.map text).getD ⟨1, 0⟩]

/-- Adds a definition of this size that has to do with a table, and answers its number. -/
def define (t : TableName) (size : Nat) : PageWork Nat := do
  let p ← get
  let layout := p.supply.layout
  let number := ((p.defined.getLast?.map (·.1)).getD 0) + 1
  let tree ← work (p.catalogue.insert (catalogueRules layout) (rowOrder number)
    (Record.rowCell layout.pageSize number size))
  modify fun p => { p with catalogue := tree, defined := p.defined ++ [(number, t)] }
  return number

/-- Gives a definition another size. -/
def redefine (number size : Nat) : PageWork Unit := do
  let p ← get
  let layout := p.supply.layout
  let tree ← work (p.catalogue.replace (catalogueRules layout) (rowOrder number)
    (Record.rowCell layout.pageSize number size))
  modify fun p => { p with catalogue := tree }

/-- The bytes of a definition before it is written: five cells that are null. -/
def openDefinition : Nat := 6

/-- The characters by which the name of a list of ids is longer than that of its table. -/
def idsNameLength : Nat := 19

/-- Creates a table. It is defined after the list of its ids. -/
def createTable (t : TableName) : PageWork Unit := do
  let encoding := (← get).encoding
  let length := t.name.length
  let root ← work Paging.take
  modify fun p => { p with rows := p.rows ++ [(t, .empty)] }
  let number ← define t openDefinition
  if t.hasIds then
    let root ← work Paging.take
    modify fun p => { p with entries := p.entries ++ [(.ids t, .empty)] }
    let _ ← define t (definitionSize encoding (length + idsNameLength) length root none)
  redefine number (definitionSize encoding length length root t.definitionLength)

/-- Creates an index of rows that are there. -/
def createIndex (i : IndexName) (rows : List PagedRow) : PageWork Unit := do
  let encoding := (← get).encoding
  let root ← work Paging.take
  let _ ← define .edges (definitionSize encoding i.name.length TableName.edges.name.length root
    i.definitionLength)
  let p ← get
  let layout := p.supply.layout
  let keys := rows.filterMap fun row => do
    some (EntryKey.mk (← row.texts.lookup i) (← p.rowOf? .edges row.id))
  let sorted := keys.mergeSort fun a b => (entryOrder encoding b a).isLE
  let rules := entryRules layout true
  let tree ← work (sorted.foldlM
    (fun tree key => tree.insert rules (fun other => entryOrder encoding key other)
      (entryCell layout encoding key)) PageTree.empty)
  modify fun p => { p with entries := p.entries ++ [(.index i, tree)] }

/-- Removes a table with what belongs to it. -/
def dropTable (t : TableName) : PageWork Unit := do
  let p ← get
  let rules := catalogueRules p.supply.layout
  let (gone, defined) := p.defined.partition (·.2 = t)
  let catalogue ← work (gone.foldlM (fun tree (number, _) => tree.remove rules (rowOrder number))
    p.catalogue)
  let belongs : EntryList → Bool
    | .ids other => other = t
    | .index _ => t = .edges
  let (entriesGone, entries) := p.entries.partition (belongs ·.1)
  let (rowsGone, rows) := p.rows.partition (·.1 = t)
  work (Paging.release ((entriesGone.map (·.2.size)).sum + (rowsGone.map (·.2.size)).sum))
  modify fun p => { p with catalogue, defined, entries, rows }

end Pages

end FactGraph
