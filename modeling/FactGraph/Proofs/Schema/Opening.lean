import FactGraph.Proofs.Schema.Migration

/-!
# Opening a database that is too new

A database whose version is later than the present one is refused. By then its base schema has been
completed (`Database.completed`), because the version is looked at last.

So **a refusal leaves the database as it was exactly if nothing of the base schema was missing**
(`Update.refusal_exact`). A database that has lost a table is refused with a new one
(`Update.refusal_creates_table`).
-/

namespace FactGraph

/-- The indexes of the base schema. -/
def baseIndexes : List IndexName := [.node1Label, .labelNode2]

theorem TableName.mem_all (t : TableName) : t ∈ all := by
  cases t with
  | values kind => cases kind <;> decide
  | _ => decide

namespace Schema

/-- The schema with all of the base schema. -/
@[irreducible] def completed (s : Schema) : Schema :=
  baseIndexes.foldl addIndex (TableName.all.foldl addTable s)

/-- Nothing of the base schema is missing. -/
def HasBase (s : Schema) : Prop := (∀ t, t ∈ s.tables) ∧ ∀ i ∈ baseIndexes, i ∈ s.indexes

variable {s : Schema}

theorem mem_tables_completed (s : Schema) (t : TableName) : t ∈ s.completed.tables := by
  rw [completed, tables_foldl_addIndex, mem_tables_foldl_addTable]
  exact .inr t.mem_all

theorem mem_indexes_completed (s : Schema) (i : IndexName) :
    i ∈ s.completed.indexes ↔ i ∈ s.indexes ∨ i ∈ baseIndexes := by
  rw [completed, mem_indexes_foldl_addIndex, indexes_foldl_addTable]

/-- Only a schema that has the base schema stays as it is. -/
theorem completed_eq_self_iff : s.completed = s ↔ s.HasBase := by
  constructor
  · intro h
    rw [← h]
    exact ⟨s.mem_tables_completed, fun i hi => (s.mem_indexes_completed i).2 (.inr hi)⟩
  · rintro ⟨htables, hindexes⟩
    rw [completed, (foldl_addTable_eq_self_iff ..).2 fun t _ => htables t,
      (foldl_addIndex_eq_self_iff ..).2 hindexes]

end Schema

/-- The database with all of the base schema. -/
def Database.completed (db : Database) : Database := { db with schema := db.schema.completed }

theorem Database.completed_eq_self_iff {db : Database} :
    db.completed = db ↔ db.schema.HasBase := by
  rw [← Schema.completed_eq_self_iff]
  refine ⟨congrArg Database.schema, fun h => ?_⟩
  show { db with schema := db.schema.completed } = db
  rw [h]

namespace Update

variable {db : Database} {version : Int}

theorem apply_createBase (db : Database) : createBase.apply db = (.ok (), db.completed) := by
  rw [Database.completed, Schema.completed]
  rfl

theorem apply_checkVersion_of_newer (hversion : db.version = some version)
    (hnewer : schemaVersion < version) :
    checkVersion.apply db = (.error (.newerSchema version schemaVersion), db) := by
  rw [checkVersion, apply_bind_ok (apply_get db), hversion]
  dsimp only
  rw [if_pos hnewer]
  rfl

theorem apply_ensureBase_of_newer (hversion : db.version = some version)
    (hnewer : schemaVersion < version) :
    ensureBase.apply db = (.error (.newerSchema version schemaVersion), db.completed) := by
  rw [ensureBase, apply_bind_ok (apply_createBase db)]
  exact apply_checkVersion_of_newer hversion hnewer

theorem apply_ensure_of_newer (hversion : db.version = some version)
    (hnewer : schemaVersion < version) (now : String) :
    (ensure now).apply db = (.error (.newerSchema version schemaVersion), db.completed) := by
  rw [ensure, apply_bind_error (apply_ensureBase_of_newer hversion hnewer)]

/-- **A refusal leaves the database as it was exactly if it had the base schema.** A database of a
later version is refused, with or without migrations. Its rows, its version and its history stay as
they are, and so does what existed; but what was missing of the base schema is there. -/
theorem refusal_exact (db : Database) (now : String) (version : Int)
    (hstored : db.storedVersion = .ok version) (hnewer : schemaVersion < version) :
    ∀ opening ∈ [ensureBase, ensure now], ∃ left : Database,
      opening.apply db = (.error (.newerSchema version schemaVersion), left) ∧
        (left = db ↔ db.schema.HasBase) ∧
        left = { db with schema := left.schema } ∧
        (∀ t, t ∈ left.schema.tables) ∧
        ∀ i, i ∈ left.schema.indexes ↔ i ∈ db.schema.indexes ∨ i ∈ baseIndexes := by
  have hversion := Database.storedVersion_eq_ok hstored
  -- Both openings complete the base schema before they look at the version.
  have hleft : ∀ opening ∈ [ensureBase, ensure now],
      opening.apply db = (.error (.newerSchema version schemaVersion), db.completed) := by
    simp only [List.forall_mem_cons, List.not_mem_nil, false_implies, implies_true, and_true]
    exact ⟨apply_ensureBase_of_newer hversion hnewer, apply_ensure_of_newer hversion hnewer now⟩
  intro opening hopening
  exact ⟨db.completed, hleft opening hopening, Database.completed_eq_self_iff, rfl,
    db.schema.mem_tables_completed, db.schema.mem_indexes_completed⟩

/-- A database of the version after the present one, with the base schema, is refused as it is. -/
theorem refusal_exact_next :
    let db : Database := { Database.present "now" with version := some 3 }
    ensureBase.apply db = (.error (.newerSchema 3 schemaVersion), db) ∧
      (ensure "later").apply db = (.error (.newerSchema 3 schemaVersion), db) := by
  intro db
  have hbase : db.schema.HasBase := ⟨TableName.mem_all, by decide⟩
  have hrefused : ∀ opening ∈ [ensureBase, ensure "later"],
      opening.apply db = (.error (.newerSchema 3 schemaVersion), db) := by
    intro opening hopening
    obtain ⟨left, happly, hsame, -⟩ :=
      refusal_exact db "later" 3 (by decide) (by decide) opening hopening
    rw [happly, hsame.2 hbase]
  exact ⟨hrefused _ (by simp), hrefused _ (by simp)⟩

/-- **A database of the next version that has lost a table is refused with a new one.** -/
theorem refusal_creates_table :
    let db : Database := { Database.present "now" with
      version := some 3
      schema := (Database.present "now").schema.dropTable (.values .symbol) }
    ((ensure "later").apply db).1 = .error (.newerSchema 3 schemaVersion) ∧
      .values .symbol ∉ db.schema.tables ∧
      .values .symbol ∈ ((ensure "later").apply db).2.schema.tables := by
  decide +kernel

end Update

end FactGraph
