/-!
# Supplies of pages

A database is cut into pages of one size. Pages that are no longer used are free, and are taken
again before the database grows. There can be a limit to its growth.

A database can have a map, which has a page for each run of pages and tells to what each of them
belongs. With a map, free pages can be given back when a transaction ends.
-/

namespace FactGraph

/-- How a database is cut into pages. -/
structure PageLayout where
  /-- The bytes of a page. -/
  pageSize : Nat
  /-- There are pages that tell to which page each page belongs. -/
  hasMap : Bool
  /-- Free pages are given back when a transaction ends. -/
  givesBack : Bool
  /-- There is a page, so the layout stays as it is. -/
  isFixed : Bool
  deriving DecidableEq, Repr

namespace PageLayout

/-- Pages of 4096 bytes. -/
def standard : PageLayout := ⟨4096, false, false, false⟩

/-- The pages that a page of the map tells about: it has five bytes for each. -/
def mapped (l : PageLayout) : Nat := l.pageSize / 5

/-- The page of this number belongs to the map. The first page never does. -/
def isMapPage (l : PageLayout) (number : Nat) : Bool :=
  l.hasMap && 2 ≤ number && (number - 2) % (l.mapped + 1) = 0

end PageLayout

/-- The pages of a database. -/
structure PageSupply where
  layout : PageLayout
  /-- The most pages there can be. -/
  limit : Option Nat
  total : Nat
  /-- The pages of the total that are not used. -/
  free : Nat
  deriving DecidableEq, Repr

namespace PageSupply

/-- The first page alone. -/
def first (layout : PageLayout) : PageSupply := ⟨layout, none, 1, 0⟩

/-- The number that the next new page has. -/
def nextNumber (s : PageSupply) : Nat :=
  if s.layout.isMapPage (s.total + 1) then s.total + 2 else s.total + 1

/-- The supply with a limit, which is at least the pages that there are. -/
def limited (s : PageSupply) (limit : Option Nat) : PageSupply :=
  { s with limit := limit.map (max s.total) }

/-- The pages of the map that go when the free pages go. -/
def freedMapPages (s : PageSupply) : Nat :=
  let beyondMap := (s.total - 2) % (s.layout.mapped + 1)
  (s.free + s.layout.mapped - beyondMap) / s.layout.mapped

/-- The supply at the end of a transaction. The last page is never one of the map. -/
def settled (s : PageSupply) : PageSupply :=
  if !s.layout.givesBack || s.free = 0 then s
  else
    let left := s.total - s.free - s.freedMapPages
    { s with total := if s.layout.isMapPage left then left - 1 else left, free := 0 }

end PageSupply

/-- Work that takes pages, as long as there are any. -/
abbrev Paging := StateT PageSupply Option

namespace Paging

/-- Takes a page and answers its number. A free page is one of the first. -/
def take : Paging Nat := fun s =>
  if 0 < s.free then some (2, { s with free := s.free - 1 })
  else if s.limit.all (s.nextNumber ≤ ·) then some (s.nextNumber, { s with total := s.nextNumber })
  else none

/-- Takes so many pages. -/
def takeMany : Nat → Paging Unit
  | 0 => return
  | n + 1 => do
    let _ ← take
    takeMany n

/-- Frees so many pages. -/
def release (n : Nat) : Paging Unit := modify fun s => { s with free := s.free + n }

end Paging

end FactGraph
