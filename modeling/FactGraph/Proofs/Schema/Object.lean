import FactGraph.Schema.Migration

/-!
# Creating tables and indexes

What exists stays when tables and indexes are created, and what exists already is not created again.
So a schema stays as it is exactly if it has all of them
(`Schema.foldl_addTable_eq_self_iff`, `Schema.foldl_addIndex_eq_self_iff`). Tables and indexes are
created in the same way, so this is said once for both.
-/

namespace FactGraph

namespace Schema

/-! ## Creating one after another -/

section Creation

variable {α : Type} {add : Schema → α → Schema}

theorem has_foldl_add (has : Schema → α → Prop)
    (hadd : ∀ s a b, has (add s a) b ↔ has s b ∨ b = a) (s : Schema) (names : List α) (b : α) :
    has (names.foldl add s) b ↔ has s b ∨ b ∈ names := by
  induction names generalizing s with
  | nil => simp
  | cons a names ih => rw [List.foldl_cons, ih, hadd, List.mem_cons, or_assoc]

theorem foldl_add_eq_self_iff (has : Schema → α → Prop)
    (hadd : ∀ s a b, has (add s a) b ↔ has s b ∨ b = a)
    (hself : ∀ s a, has s a → add s a = s) (s : Schema) (names : List α) :
    names.foldl add s = s ↔ ∀ a ∈ names, has s a := by
  constructor
  · intro h a ha
    rw [← h]
    exact (has_foldl_add has hadd s names a).2 (.inr ha)
  · intro h
    induction names with
    | nil => rfl
    | cons a names ih =>
      obtain ⟨ha, hnames⟩ := List.forall_mem_cons.1 h
      rw [List.foldl_cons, hself s a ha]
      exact ih hnames

theorem eq_foldl_add {β : Type} {part : Schema → β} (hpart : ∀ s a, part (add s a) = part s)
    (s : Schema) (names : List α) : part (names.foldl add s) = part s := by
  induction names generalizing s with
  | nil => rfl
  | cons a names ih => rw [List.foldl_cons, ih, hpart]

end Creation

variable (s : Schema)

/-! ## Tables -/

theorem mem_tables_addTable (t u : TableName) :
    u ∈ (s.addTable t).tables ↔ u ∈ s.tables ∨ u = t := by
  unfold addTable
  split <;> simp_all

theorem addTable_of_mem (t : TableName) (h : t ∈ s.tables) : s.addTable t = s := if_pos h

theorem indexes_addTable (t : TableName) : (s.addTable t).indexes = s.indexes := by
  unfold addTable
  split <;> rfl

theorem mem_tables_foldl_addTable (names : List TableName) (u : TableName) :
    u ∈ (names.foldl addTable s).tables ↔ u ∈ s.tables ∨ u ∈ names :=
  has_foldl_add (fun s t => t ∈ s.tables) mem_tables_addTable s names u

theorem indexes_foldl_addTable (names : List TableName) :
    (names.foldl addTable s).indexes = s.indexes :=
  eq_foldl_add indexes_addTable s names

theorem foldl_addTable_eq_self_iff (names : List TableName) :
    names.foldl addTable s = s ↔ ∀ t ∈ names, t ∈ s.tables :=
  foldl_add_eq_self_iff (fun s t => t ∈ s.tables) mem_tables_addTable addTable_of_mem s names

/-! ## Indexes -/

theorem mem_indexes_addIndex (i j : IndexName) :
    j ∈ (s.addIndex i).indexes ↔ j ∈ s.indexes ∨ j = i := by
  unfold addIndex
  split <;> simp_all

theorem addIndex_of_mem (i : IndexName) (h : i ∈ s.indexes) : s.addIndex i = s := if_pos h

theorem tables_addIndex (i : IndexName) : (s.addIndex i).tables = s.tables := by
  unfold addIndex
  split <;> rfl

theorem mem_indexes_foldl_addIndex (names : List IndexName) (j : IndexName) :
    j ∈ (names.foldl addIndex s).indexes ↔ j ∈ s.indexes ∨ j ∈ names :=
  has_foldl_add (fun s i => i ∈ s.indexes) mem_indexes_addIndex s names j

theorem tables_foldl_addIndex (names : List IndexName) :
    (names.foldl addIndex s).tables = s.tables :=
  eq_foldl_add tables_addIndex s names

theorem foldl_addIndex_eq_self_iff (names : List IndexName) :
    names.foldl addIndex s = s ↔ ∀ i ∈ names, i ∈ s.indexes :=
  foldl_add_eq_self_iff (fun s i => i ∈ s.indexes) mem_indexes_addIndex addIndex_of_mem s names

end Schema

end FactGraph
