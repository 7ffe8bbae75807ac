import FactGraph.Paging.Supply

/-!
# Pages and their neighbours

A page has cells in ascending order. Above the leaves there is a page below before each cell, and
one after the last cell.

A page that is too full, or nearly empty, shares its cells with the pages beside it. The cells of
all of them are put into pages from the left, as many as there is room for, and then made even from
the right. In an index the cell between two pages stands in the page above. In a table all rows stay
in the leaves, and what stands above is the key of the row before.
-/

namespace FactGraph

-- Sums are those of the core library, whatever else is in scope.
attribute [local instance (high)] Zero.ofOfNat0

/-- A cell: the key by which it is found, its bytes without the number of a page below, and the
pages for what of it finds no room in its page. -/
structure PageCell (κ : Type) where
  key : κ
  size : Nat
  spill : Nat

/-- A page. `γ` is what is below: pages, or nothing. -/
structure Page (κ γ : Type) where
  cells : List (γ × PageCell κ)
  last : γ

/-- What is below a page: nothing below a leaf, or else pages one level down. -/
def Below (κ : Type) : Nat → Type
  | 0 => Unit
  | height + 1 => Page κ (Below κ height)

/-- What stands between two pages. -/
inductive Divider (κ : Type) where
  /-- A cell that is in neither of them. -/
  | cell
  /-- The key of the last row of the left one. -/
  | key (ofRow : PageCell κ → PageCell κ)

/-- The rules of a tree of pages. -/
structure PageRules (κ : Type) where
  pageSize : Nat
  /-- The bytes of the root that are used for something else. -/
  reserved : Nat
  divider : Divider κ
  /-- Cells are only added at the end, so pages are left full. -/
  isBulk : Bool

namespace PageRules

variable {κ : Type}

/-- The bytes for cells in a page. -/
def room (r : PageRules κ) : (height : Nat) → Nat
  | 0 => r.pageSize - 8
  | _ + 1 => r.pageSize - 12

/-- The bytes that a cell takes: its own, its place in the page, and the number of a page below. -/
def weight (height : Nat) (c : PageCell κ) : Nat :=
  match height with
  | 0 => c.size + 2
  | _ + 1 => c.size + 6

end PageRules

namespace Page

variable {κ γ : Type}

def empty (last : γ) : Page κ γ := ⟨[], last⟩

/-- The bytes that the cells take. -/
def used (height : Nat) (p : Page κ γ) : Nat :=
  (p.cells.map fun (_, c) => PageRules.weight height c).sum

/-- There is no room for all cells. -/
def isFull (r : PageRules κ) (height : Nat) (p : Page κ γ) : Bool := r.room height < p.used height

/-- The page is too full, or two thirds of it are free. -/
def isUneven (r : PageRules κ) (height : Nat) (p : Page κ γ) : Bool :=
  p.isFull r height || 2 * r.pageSize < 3 * (r.room height - p.used height)

/-- What is before the cell of this number, or after the last cell. -/
def child (p : Page κ γ) (i : Nat) : γ := (p.cells[i]?.map (·.1)).getD p.last

/-- The page with another one below. -/
def setChild (p : Page κ γ) (i : Nat) (below : γ) : Page κ γ :=
  if i < p.cells.length then
    { p with cells := p.cells.modify i fun (_, c) => (below, c) }
  else { p with last := below }

/-! ## Sharing cells -/

section Sharing

variable {α : Type} (weight : α → Nat)

/-- Fills pages with cells, where `page` has begun, the last cell first. Each page but the last
comes with the cell that found no room, if that stands between the pages; else it is the next page's
first. -/
def fill (room : Nat) (isBetween : Bool) (page : List α) (used : Nat) :
    List α → List (List α × Option α) × List α
  | [] => ([], page)
  | cell :: cells =>
    if used + weight cell ≤ room then
      fill room isBetween (cell :: page) (used + weight cell) cells
    else if isBetween then
      let (pages, last) := fill room isBetween [] 0 cells
      ((page, some cell) :: pages, last)
    else
      let (pages, last) := fill room isBetween [cell] (weight cell) cells
      ((page, none) :: pages, last)

/-- Moves cells from a page, the last one first, to the page after it, as long as that does not
become the larger one. A cell between them goes before. -/
def even (isBulk : Bool) (slack leftUsed rightUsed : Nat) :
    List α → Option α → List α → List α × Option α × List α
  | [], between, right => ([], between, right)
  | cell :: left, between, right =>
    let moved := between.getD cell
    if !right.isEmpty &&
        (isBulk || leftUsed + 2 < rightUsed + weight moved + weight cell + slack) then
      (cell :: left, between, right)
    else
      even isBulk slack (leftUsed - weight cell) (rightUsed + weight moved) left
        (between.map fun _ => cell) (moved :: right)

/-- Makes pages even from the right. Each page but the last is given with the last cell first, and
with what stands after it. Answers the first page, and the others with what stands before. -/
def evenAll (isBulk : Bool) (pages : List (List α × Option α)) (last : List α) :
    List α × List (Option α × List α) :=
  let used (cells : List α) : Nat := (cells.map weight).sum
  pages.foldr
    (fun (left, between) (right, done) =>
      let (left, between, right) := even weight isBulk (if done.isEmpty then 0 else 2)
        (used left) (used right) left between right
      (left.reverse, (between, right) :: done))
    (last.reverse, [])

end Sharing

/-- Which of the cells between pages are taken away to share the cells of page `i`, if there are
`count` of them: the number of the first one, and how many. -/
def neighbours (isBulk : Bool) (i count : Nat) : Nat × Nat :=
  let most := if isBulk then 1 else 2
  if count < 2 then (0, count)
  else if i = 0 then (0, most)
  else if i = count then (count - most, most)
  else (i - 1, most)

/-- The cells of pages with those between them. -/
def joined : List (Page κ γ × PageCell κ) → Page κ γ → List (γ × PageCell κ)
  | [], last => last.cells
  | (page, between) :: pages, last => page.cells ++ (page.last, between) :: joined pages last

/-- The cells of leaves of a table. -/
def joinedRows (pages : List (Page κ γ × PageCell κ)) (last : Page κ γ) : List (γ × PageCell κ) :=
  pages.flatMap (·.1.cells) ++ last.cells

/-- Pages with these cells. `key` makes what stands after a page out of its last cell, if that stays
in the page. -/
def assembled (key : PageCell κ → PageCell κ) (last : γ) (cells : List (γ × PageCell κ)) :
    List (Option (γ × PageCell κ) × List (γ × PageCell κ)) →
    List (Page κ γ × PageCell κ) × Page κ γ
  | [] => ([], ⟨cells, last⟩)
  | (between, next) :: others =>
    let (pages, page) := assembled key last next others
    match between, cells.getLast? with
    | some (below, c), _ => ((⟨cells, below⟩, c) :: pages, page)
    | none, some (_, c) => ((⟨cells, last⟩, key c) :: pages, page)
    | none, none => (pages, page)

/-- The pages with their cells shared. -/
def shared (r : PageRules κ) (height : Nat) (pages : List (Page κ γ × PageCell κ))
    (last : Page κ γ) : List (Page κ γ × PageCell κ) × Page κ γ :=
  let weight (c : γ × PageCell κ) : Nat := PageRules.weight height c.2
  let share (isBetween : Bool) (key : PageCell κ → PageCell κ) (cells : List (γ × PageCell κ)) :=
    let (filled, rest) := fill weight (r.room height) isBetween [] 0 cells
    let (first, others) := evenAll weight r.isBulk filled rest
    assembled key last.last first others
  match height, r.divider with
  | 0, .key key => share false key (joinedRows pages last)
  | _, _ => share true id (joined pages last)

/-- A page that is uneven shares its cells with the pages beside it. -/
def shareChild (r : PageRules κ) (height i : Nat) (p : Page κ (Page κ γ)) :
    Paging (Page κ (Page κ γ)) := do
  let (start, count) := neighbours r.isBulk i p.cells.length
  let taken := (p.cells.drop start).take count
  let (pages, last) := shared r height taken (p.child (start + count))
  Paging.takeMany (pages.length - count)
  Paging.release (count - pages.length)
  let before := p.cells.take start ++ pages
  return { p with cells := before ++ p.cells.drop (start + count) }.setChild before.length last

/-- A leaf of a table that became too full by its last row, and is the last one itself, is followed
by a new leaf with that row. -/
def appendChild (key : PageCell κ → PageCell κ) (p : Page κ (Page κ γ)) :
    Paging (Page κ (Page κ γ)) := do
  let _ ← Paging.take
  let cells := p.last.cells
  match cells.getLast?, cells.dropLast.getLast? with
  | some row, some (_, c) =>
    return ⟨p.cells ++ [(⟨cells.dropLast, p.last.last⟩, key c)], ⟨[row], p.last.last⟩⟩
  | _, _ => return p

end Page

end FactGraph
