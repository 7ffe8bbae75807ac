import FactGraph.Region.Basic

/-!
# Cached regions

A cache remembers the regions that were found, until they are forgotten one by one or all
together, and counts how often it could answer. The counts are words, which begin anew when they are
full. What was not found is not remembered, so it is looked for again.
-/

namespace FactGraph

/-- A remembered region under the id that was asked for. -/
structure CacheEntry where
  id : String
  region : Region
  deriving DecidableEq, Repr

structure RegionCache where
  entries : List CacheEntry
  hitCount : UInt64
  missCount : UInt64
  deriving DecidableEq, Repr

/-- How often a cache could answer and how often not, and how much it remembers. -/
structure CacheStats where
  hits : UInt64
  misses : UInt64
  entries : Nat
  deriving DecidableEq, Repr

namespace RegionCache

def empty : RegionCache := ⟨[], 0, 0⟩

/-- The remembered region of an id. -/
def find? (c : RegionCache) (id : String) : Option Region :=
  (c.entries.find? (·.id = id)).map (·.region)

/-- Remembers a region in the place of the one before. -/
def remember (c : RegionCache) (id : String) (region : Region) : RegionCache :=
  { c with entries := ⟨id, region⟩ :: c.entries.filter (·.id ≠ id) }

/-- Counts whether an answer was remembered. -/
def count (c : RegionCache) (hit : Bool) : RegionCache :=
  if hit then { c with hitCount := c.hitCount + 1 } else { c with missCount := c.missCount + 1 }

/-- The remembered region of an id, counted. -/
def get (c : RegionCache) (id : String) : Option Region × RegionCache :=
  (c.find? id, c.count (c.find? id).isSome)

/-- The remembered region of an id, or else the fetched one, which is then remembered. Nothing is
fetched for an id whose region is remembered. -/
def getOrFetchM {m : Type → Type} [Monad m] {ε : Type} (c : RegionCache) (id : String)
    (fetch : String → m (Except ε (Option Region))) :
    m (Except ε (Option Region) × RegionCache) :=
  match c.get id with
  | (some region, c) => pure (.ok (some region), c)
  | (none, c) => do
    match ← fetch id with
    | .error cause => pure (.error cause, c)
    | .ok none => pure (.ok none, c)
    | .ok (some region) => pure (.ok (some region), c.remember id region)

/-- The same where fetching does nothing else. -/
def getOrFetch {ε : Type} (c : RegionCache) (id : String)
    (fetch : String → Except ε (Option Region)) : Except ε (Option Region) × RegionCache :=
  Id.run (c.getOrFetchM id fun id => pure (fetch id))

/-- Forgets the region of an id. The counts stay. -/
def invalidate (c : RegionCache) (id : String) : RegionCache :=
  { c with entries := c.entries.filter (·.id ≠ id) }

/-- Forgets everything, the counts included. -/
def clear (_ : RegionCache) : RegionCache := empty

/-- The hits as a number; at `2 ^ 64` they start again from zero. -/
def hits (c : RegionCache) : Nat := c.hitCount.toNat

def misses (c : RegionCache) : Nat := c.missCount.toNat

def stats (c : RegionCache) : CacheStats := ⟨c.hitCount, c.missCount, c.entries.length⟩

/-- The region of a place, remembered or read. -/
def region? (c : RegionCache) (db : Database) (id : String) :
    Except StoreError (Option Region) × RegionCache :=
  c.getOrFetch id db.region?

end RegionCache

end FactGraph
