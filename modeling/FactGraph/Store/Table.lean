/-!
# Tables

A table holds rows in strictly ascending order of their keys. The order is part of the type, so
keys are distinct and a table is determined by its rows. Insertion keeps a row that is there
already: the first row of a key wins.
-/

namespace FactGraph

/-- Rows in strictly ascending order of their keys. -/
structure Table (α : Type) (key : α → String) where
  rows : List α
  ascending : rows.Pairwise fun a b => key a < key b
  deriving DecidableEq

namespace Table

variable {α : Type} {key : α → String}

def empty : Table α key := ⟨[], .nil⟩

instance : Inhabited (Table α key) := ⟨empty⟩

/-- The row of a key. -/
def find? (t : Table α key) (k : String) : Option α := t.rows.find? fun row => key row = k

def contains (t : Table α key) (k : String) : Bool := (t.find? k).isSome

def size (t : Table α key) : Nat := t.rows.length

/-- Puts a row at its place unless its key is there. -/
def insertRow (key : α → String) (row : α) : List α → List α
  | [] => [row]
  | r :: rest =>
    if key row < key r then row :: r :: rest
    else if key r < key row then r :: insertRow key row rest
    else r :: rest

theorem mem_insertRow {row x : α} {rows : List α} (h : x ∈ insertRow key row rows) :
    x = row ∨ x ∈ rows := by
  induction rows with
  | nil => simpa [insertRow] using h
  | cons r rest ih =>
    unfold insertRow at h
    split at h
    · simpa using h
    · split at h
      · rcases List.mem_cons.1 h with rfl | h
        · exact .inr (List.mem_cons_self ..)
        · exact (ih h).imp_right (List.mem_cons_of_mem r)
      · exact .inr h

theorem pairwise_insertRow (row : α) {rows : List α}
    (h : rows.Pairwise fun a b => key a < key b) :
    (insertRow key row rows).Pairwise fun a b => key a < key b := by
  induction rows with
  | nil => simp [insertRow]
  | cons r rest ih =>
    obtain ⟨head, tail⟩ := List.pairwise_cons.1 h
    unfold insertRow
    split
    next below =>
      exact List.pairwise_cons.2 ⟨fun x hx => (List.mem_cons.1 hx).elim (fun e => e ▸ below)
        (fun hx => String.lt_trans below (head x hx)), h⟩
    next =>
      split
      next above =>
        exact List.pairwise_cons.2 ⟨fun x hx => (mem_insertRow hx).elim (fun e => e ▸ above)
          (head x), ih tail⟩
      next => exact h

/-- The table with the row, unless its key is there. -/
def insert (t : Table α key) (row : α) : Table α key :=
  ⟨insertRow key row t.rows, pairwise_insertRow row t.ascending⟩

/-- The rows that satisfy `p`. -/
def filter (t : Table α key) (p : α → Bool) : Table α key :=
  ⟨t.rows.filter p, t.ascending.filter p⟩

/-- The table without the row of a key. -/
def erase (t : Table α key) (k : String) : Table α key := t.filter fun row => key row ≠ k

/-- The rows changed by `f`, which keeps their keys. -/
def mapRows (t : Table α key) (f : α → α) (keeps : ∀ row, key (f row) = key row) :
    Table α key :=
  ⟨t.rows.map f, List.pairwise_map.2 (t.ascending.imp fun h => by rwa [keeps, keeps])⟩

/-- A table of rows, the first of each key. -/
def ofList (rows : List α) : Table α key := rows.foldl insert empty

end Table

/-- The texts in ascending order, each once. -/
def sortedTexts (texts : List String) : List String :=
  (Table.ofList texts : Table String id).rows

end FactGraph
