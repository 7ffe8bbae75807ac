import FactGraph.Paging.Page

/-!
# Trees of pages

A tree of pages has a root and is of the same height everywhere. After a change, the page with the
changed cell is made even if need be, then the page above it, and so on until a page is even. A
root that is too full becomes the only page below a new root; a root with one page below takes the
place of that page, if there is room.

Where a cell is to be found is told by its order: how keys stand to the one looked for.
-/

namespace FactGraph

-- Sums are those of the core library, whatever else is in scope.
attribute [local instance (high)] Zero.ofOfNat0

/-- A page that has changed. -/
structure ChangedPage (κ : Type) (height : Nat) where
  page : Page κ (Below κ height)
  /-- Pages below have shared their cells. -/
  hasShared : Bool
  /-- The pages above need not be looked at. -/
  isSettled : Bool

/-- A tree of pages. -/
structure PageTree (κ : Type) where
  height : Nat
  root : Page κ (Below κ height)

namespace PageTree

variable {κ : Type}

def empty : PageTree κ := ⟨0, ⟨[], ()⟩⟩

/-! ## Looking up -/

/-- The number of cells before the place that is looked for. -/
def rank {γ : Type} (order : κ → Ordering) (p : Page κ γ) : Nat :=
  (p.cells.takeWhile fun (_, c) => order c.key = .lt).length

/-- The pages from here down, with those for what found no room. -/
def sizeFrom : (height : Nat) → Page κ (Below κ height) → Nat
  | 0, p => 1 + (p.cells.map (·.2.spill)).sum
  | height + 1, p =>
    1 + (p.cells.map fun (below, c) => sizeFrom height below + c.spill).sum +
      sizeFrom height p.last

def size (t : PageTree κ) : Nat := sizeFrom t.height t.root

/-- The key at the place that is looked for. -/
def findFrom (order : κ → Ordering) : (height : Nat) → Page κ (Below κ height) → Option κ
  | 0, p => (p.cells.find? fun (_, c) => order c.key = .eq).map (·.2.key)
  | height + 1, p =>
    let i := rank order p
    (findFrom order height (p.child i)).or
      ((p.cells[i]?.filter fun (_, c) => order c.key = .eq).map (·.2.key))

def find? (order : κ → Ordering) (t : PageTree κ) : Option κ := findFrom order t.height t.root

/-- The last key in the leaves. -/
def lastFrom : (height : Nat) → Page κ (Below κ height) → Option κ
  | 0, p => p.cells.getLast?.map (·.2.key)
  | height + 1, p => lastFrom height p.last

def last? (t : PageTree κ) : Option κ := lastFrom t.height t.root

/-! ## Changing pages -/

section Changing

variable (r : PageRules κ)

/-- Makes page `i` below even. `appended` tells whether a cell is the one that was put there. -/
def evenChild (isTop : Bool) (appended : κ → Bool) (height i : Nat)
    (p : Page κ (Page κ (Below κ height))) : Paging (Page κ (Page κ (Below κ height))) :=
  let last := p.last
  match height, r.divider with
  | 0, .key key =>
    if i = p.cells.length && last.isFull r 0 && !(isTop && 0 < r.reserved) &&
        last.cells.getLast?.any (fun (_, c) => appended c.key) then p.appendChild key
    else p.shareChild r 0 i
  | height, _ => p.shareChild r height i

/-- A page above one that has changed. -/
def settleAbove (isTop : Bool) (appended : κ → Bool) (height i : Nat)
    (p : Page κ (Below κ (height + 1))) (changed : ChangedPage κ height) :
    Paging (ChangedPage κ (height + 1)) := do
  let p := Page.setChild p i changed.page
  if changed.isSettled then return ⟨p, false, true⟩
  let p ← evenChild r isTop appended height i p
  return ⟨p, true, !Page.isUneven r (height + 1) p⟩

/-- Puts a cell at its place. -/
def insertFrom (order : κ → Ordering) (cell : PageCell κ) :
    (height : Nat) → Bool → Page κ (Below κ height) → Paging (ChangedPage κ height)
  | 0, _, p =>
    let i := rank order p
    let p := { p with cells := p.cells.take i ++ (p.last, cell) :: p.cells.drop i }
    return ⟨p, false, !p.isFull r 0⟩
  | height + 1, isTop, p => do
    let i := rank order p
    let changed ← insertFrom order cell height false (Page.child p i)
    settleAbove r isTop (order · = .eq) height i p changed

/-- Puts a cell in the place of the one that is there, in a leaf. -/
def replaceFrom (order : κ → Ordering) (cell : PageCell κ) :
    (height : Nat) → Bool → Page κ (Below κ height) → Paging (ChangedPage κ height)
  | 0, _, p => do
    Paging.release ((p.cells.filter fun (_, c) => order c.key = .eq).map (·.2.spill)).sum
    let p := { p with
      cells := p.cells.map fun (below, c) => (below, if order c.key = .eq then cell else c) }
    return ⟨p, false, !p.isFull r 0⟩
  | height + 1, isTop, p => do
    let i := rank order p
    let changed ← replaceFrom order cell height false (Page.child p i)
    settleAbove r isTop (order · = .eq) height i p changed

/-- Takes the last cell out of the leaves. -/
def removeLastFrom :
    (height : Nat) → Page κ (Below κ height) → Paging (Option (PageCell κ) × ChangedPage κ height)
  | 0, p =>
    let left := { p with cells := p.cells.dropLast }
    return (p.cells.getLast?.map (·.2), ⟨left, false, !left.isUneven r 0⟩)
  | height + 1, p => do
    let (cell, changed) ← removeLastFrom height p.last
    let changed ← settleAbove r false (fun _ => false) height p.cells.length p changed
    return (cell, changed)

/-- Removes the cell at the place. A cell above the leaves is replaced by the one before it. -/
def removeFrom (order : κ → Ordering) :
    (height : Nat) → Bool → Page κ (Below κ height) → Paging (ChangedPage κ height)
  | 0, _, p => do
    Paging.release ((p.cells.filter fun (_, c) => order c.key = .eq).map (·.2.spill)).sum
    let p := { p with cells := p.cells.filter fun (_, c) => order c.key ≠ .eq }
    return ⟨p, false, !p.isUneven r 0⟩
  | height + 1, isTop, p => do
    let i := rank order p
    match r.divider, p.cells[i]?.filter fun (_, c) => order c.key = .eq with
    | .cell, some (below, c) =>
      Paging.release c.spill
      let (cell, changed) ← removeLastFrom r height below
      let p := { p with
        cells := p.cells.modify i fun (below, c) => (below, cell.getD c) }
      let changed ← settleAbove r isTop (fun _ => false) height i p changed
      return { changed with isSettled := !Page.isUneven r (height + 1) changed.page }
    | _, _ =>
      let changed ← removeFrom order height false (Page.child p i)
      settleAbove r isTop (fun _ => false) height i p changed

end Changing

/-! ## Changing trees -/

/-- The tree of a root that has changed, where pages below it may have shared their cells. -/
def ofRoot (r : PageRules κ) :
    (height : Nat) → Page κ (Below κ height) → Bool → Paging (PageTree κ)
  | height + 1, root, true =>
    if root.cells.isEmpty && r.reserved + Page.used height root.last ≤ r.room height then do
      Paging.release 1
      return ⟨height, root.last⟩
    else return ⟨height + 1, root⟩
  | height, root, _ => return ⟨height, root⟩

/-- The tree with a changed root, which may be too full. -/
def raised (r : PageRules κ) (appended : κ → Bool) {height : Nat}
    (changed : ChangedPage κ height) : Paging (PageTree κ) := do
  let root := changed.page
  if root.used height + r.reserved ≤ r.room height then ofRoot r height root changed.hasShared
  else
    let _ ← Paging.take
    let root ← evenChild r true appended height 0 ⟨[], root⟩
    ofRoot r (height + 1) root true

/-- The tree with a cell more. -/
def insert (r : PageRules κ) (order : κ → Ordering) (cell : PageCell κ) (t : PageTree κ) :
    Paging (PageTree κ) := do
  Paging.takeMany cell.spill
  raised r (order · = .eq) (← insertFrom r order cell t.height true t.root)

/-- The tree with another cell at a place. -/
def replace (r : PageRules κ) (order : κ → Ordering) (cell : PageCell κ) (t : PageTree κ) :
    Paging (PageTree κ) := do
  Paging.takeMany cell.spill
  raised r (order · = .eq) (← replaceFrom r order cell t.height true t.root)

/-- The tree without the cell at a place. -/
def remove (r : PageRules κ) (order : κ → Ordering) (t : PageTree κ) : Paging (PageTree κ) := do
  raised r (fun _ => false) (← removeFrom r order t.height true t.root)

end PageTree

end FactGraph
