import FactGraph.Proofs.Store.Reachable
import FactGraph.Proofs.Text.Encoding

/-!
# Texts as they are written

An encoding replaces what it cannot write, so a text that is looked for may differ from the one that
is stored. Edges that have been stored are **encoded** (`Database.Encoded`): written again, they
stay the same. So the id of a stored edge finds this edge.

**The edges of a reachable store are encoded** (`Store.Reachable.encoded`). An encoding is changed
only where there is no table of edges, so the invariant has to tell that edges are in their table.
-/

namespace FactGraph

namespace Tables

variable {t : Tables} {e : Edge}

theorem kept_kept (t : Tables) (text : String) : t.kept (t.kept text) = t.kept text :=
  t.encoding.kept_kept text

theorem keptEdge_keptEdge (t : Tables) (e : Edge) : t.keptEdge (t.keptEdge e) = t.keptEdge e := by
  simp [keptEdge, kept_kept]

/-- Written again, every edge stays the same. -/
def Encoded (t : Tables) : Prop := ∀ e ∈ t.edges.rows, t.keptEdge e = e

theorem Encoded.kept_id (h : t.Encoded) (he : e ∈ t.edges.rows) : t.kept e.id = e.id :=
  congrArg Edge.id (h e he)

theorem Encoded.addEdge (h : t.Encoded) (e : Edge) : (t.addEdge e).Encoded := by
  intro x hx
  rcases Table.mem_insertRow hx with rfl | hx
  · exact t.keptEdge_keptEdge e
  · exact h x hx

theorem Encoded.addValue (h : t.Encoded) {kind : ValueKind} (row : ValueRow kind) :
    (t.addValue row).Encoded := by
  have hedges : (t.addValue row).edges = t.edges := setValues_edges ..
  have hencoding : (t.addValue row).encoding = t.encoding := setValues_encoding ..
  intro x hx
  rw [hedges] at hx
  simp only [keptEdge, kept, hencoding]
  exact h x hx

theorem Encoded.removeEdges (h : t.Encoded) (p : Edge → Bool) : (t.removeEdges p).Encoded :=
  fun x hx => h x (List.mem_of_mem_filter hx)

end Tables

namespace Database

variable {db : Database}

/-- The edges stay the same if they are written again, and are in a table. -/
structure Encoded (db : Database) : Prop where
  edges : db.tables.Encoded
  housed : db.tables.edges.rows ≠ [] → .edges ∈ db.schema.tables

theorem Encoded.of_extends (db db' : Database) (h : db.Encoded) (hextends : db'.Extends db) :
    db'.Encoded := by
  obtain ⟨hedges, hhoused⟩ := h
  rw [← hextends.tables] at hedges hhoused
  exact ⟨hedges, fun hne => hextends.schema (hhoused hne)⟩

theorem encoded_empty : empty.Encoded :=
  ⟨fun e he => absurd he (Table.not_mem_rows_empty e), fun hne => absurd rfl hne⟩

/-- A database takes another encoding only if it has no edges. -/
theorem Encoded.reopened (h : db.Encoded) (encoding : TextEncoding) :
    (db.reopened encoding).Encoded := by
  unfold Database.reopened
  dsimp only
  -- Only a database without a schema takes another encoding, and without the table there are no
  -- edges.
  split
  next hschema =>
    have hnone : db.tables.edges.rows = [] := by
      by_contra hne
      have hhoused := h.housed hne
      rw [hschema] at hhoused
      exact nomatch hhoused
    refine ⟨fun e he => ?_, fun hne => absurd hnone hne⟩
    rw [hnone] at he
    exact nomatch he
  next => exact Encoded.of_extends _ _ h ⟨rfl, List.Subset.refl _, rfl⟩

theorem Encoded.addEdge (h : db.Encoded) (e : Edge) (hhas : db.has .edges = true) :
    Encoded { db with tables := db.tables.addEdge e } := by
  have hhoused : .edges ∈ db.schema.tables := by
    by_contra hnone
    simp [has, hnone] at hhas
  exact ⟨h.edges.addEdge e, fun _ => hhoused⟩

theorem Encoded.addValue (h : db.Encoded) {kind : ValueKind} (row : ValueRow kind) :
    Encoded { db with tables := db.tables.addValue row } := by
  refine ⟨h.edges.addValue row, fun hne => h.housed fun hnone => hne ?_⟩
  exact (congrArg Table.rows (Tables.setValues_edges ..)).trans hnone

theorem Encoded.removeEdges (h : db.Encoded) (p : Edge → Bool) :
    Encoded { db with tables := db.tables.removeEdges p } := by
  refine ⟨h.edges.removeEdges p, fun hne => h.housed fun hnone => hne ?_⟩
  rw [Tables.edges_removeEdges, Table.rows_filter, hnone, List.filter_nil]

end Database

/-! ## Reachable stores -/

theorem Database.invariant_encoded : Invariant Encoded where
  empty := encoded_empty
  reopened := fun _ encoding h => h.reopened encoding
  withPages := fun _ _ h => Encoded.of_extends _ _ h ⟨rfl, List.Subset.refl _, rfl⟩
  ensureBase := Update.preserves_ensureBase Encoded.of_extends
  makeSteps := Update.preserves_makeSteps Encoded.of_extends
  insert := Update.preserves_insert (fun _ e h hhas => h.addEdge e hhas) fun _ _ row h =>
    h.addValue row
  listing := fun _ _ h => Encoded.of_extends _ _ h ⟨rfl, List.Subset.refl _, rfl⟩
  removeEdges := fun _ p h => h.removeEdges p

/-- **In a reachable store, every edge is as it is written.** -/
theorem Store.Reachable.encoded {s : Store} (h : s.Reachable) : s.database.tables.Encoded :=
  (Database.invariant_encoded.of_reachable h).database.edges

end FactGraph
