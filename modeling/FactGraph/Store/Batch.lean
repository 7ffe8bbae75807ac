/-!
# Batches

A long list is worked off in chunks. The chunks follow one another in the list and together are
the list, so that an operation sees every item once and in order.
-/

namespace FactGraph

/-- How lists are cut: the size of a chunk, and whether to cut at all. -/
structure BatchConfig where
  size : Nat
  chunked : Bool
  deriving DecidableEq, Repr

/-- The most cells that one statement can bind. -/
def maxBoundCells : Nat := 32766

/-- Cuts a list into chunks of `size + 1` items, the last of which may be shorter. -/
def chunksOf {α : Type} (size : Nat) (items : List α) : List (List α) :=
  if h : items = [] then []
  else items.take (size + 1) :: chunksOf size (items.drop (size + 1))
termination_by items.length
decreasing_by
  have := List.length_pos_iff.2 h
  rw [List.length_drop]
  omega

namespace BatchConfig

/-- Ten thousand items a chunk. -/
def standard : BatchConfig := ⟨10000, true⟩

/-- The chunks of a list. A list that fits is one chunk, also when it is empty; a chunk has at
least one item otherwise. -/
def chunks {α : Type} (config : BatchConfig) (items : List α) : List (List α) :=
  if !config.chunked || items.length ≤ max config.size 1 then [items]
  else chunksOf (config.size - 1) items

/-- Runs an operation on each chunk and joins the results. The first failure ends the run. -/
def execute {α β : Type} {m : Type → Type} [Monad m] (config : BatchConfig)
    (operation : List α → m (List β)) (items : List α) : m (List β) :=
  List.flatten <$> (config.chunks items).mapM operation

/-- Chunks for one statement each: so many rows of `width` cells that a statement can bind
them. -/
def perStatement (config : BatchConfig) (width : Nat) : BatchConfig :=
  ⟨min (max config.size 1) (max (maxBoundCells / max width 1) 1), true⟩

end BatchConfig

end FactGraph
