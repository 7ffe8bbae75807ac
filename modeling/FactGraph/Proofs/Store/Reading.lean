import FactGraph.Metadata.Store
import FactGraph.Proofs.Store.Stored

/-!
# Reading an intact database

In an intact database what is said about a node is told by its edges and by the rows of their values
(`Database.Intact.lookup_eq`, `Database.Intact.subjects_eq`). So two databases give the same answers
about a node if they have the same edges of it with the same values (`Database.AgreeOn`), whatever
else they hold.
-/

namespace FactGraph

namespace Database

variable {db other : Database} {e : Edge} {x : Statement} {node : String}

/-! ## Edges -/

/-- The edges of a node with a label. -/
def edgesOf (db : Database) (node label : String) : List Edge :=
  db.tables.edges.rows.filter fun e => e.node1 = node ∧ e.label = label

theorem mem_edgesOf {label : String} : e ∈ db.edgesOf node label ↔
    e ∈ db.tables.edges.rows ∧ e.node1 = node ∧ e.label = label := by
  simp [edgesOf]

theorem Intact.edgeList_eq (h : db.Intact) : db.tables.edgeList = db.tables.edges.rows := by
  rw [Tables.edgeList, h.encoding]
  rfl

theorem Intact.tables_lookup_eq (h : db.Intact) (node label : String) :
    db.tables.lookup node label = db.edgesOf node label := by
  rw [Tables.lookup, h.edgeList_eq, Tables.kept_of_utf8 h.encoding, Tables.kept_of_utf8 h.encoding]
  rfl

theorem Intact.lookup_eq (h : db.Intact) (node label : String) :
    db.lookup node label = .ok (db.edgesOf node label) := by
  have hread : db.readEdge = fun e => pure e := funext h.readEdge_eq
  rw [lookup, require_of_complete h.complete, h.tables_lookup_eq, hread, List.mapM_pure,
    List.map_id']
  rfl

theorem Intact.statements_eq (h : db.Intact) (node label : String) :
    db.statements node label = (db.edgesOf node label).mapM db.attach := by
  rw [statements, h.lookup_eq]
  rfl

theorem Intact.subjects_eq (h : db.Intact) (label node2 : String) :
    db.subjects label node2 = .ok (sortedTexts ((db.tables.edges.rows.filter fun e =>
      e.label = label ∧ e.node2 = node2).map Edge.node1)) := by
  rw [subjects, require_of_complete h.complete, Tables.subjects, Tables.distinctTexts,
    h.edgeList_eq, Tables.kept_of_utf8 h.encoding, Tables.kept_of_utf8 h.encoding, h.encoding]
  rfl

theorem edgesOf_congr {label : String}
    (h : ∀ e, e.node1 = node → (e ∈ other.tables.edges.rows ↔ e ∈ db.tables.edges.rows)) :
    other.edgesOf node label = db.edgesOf node label := by
  have hfilter : other.tables.edges.filter (fun e => e.node1 = node ∧ e.label = label) =
      db.tables.edges.filter fun e => e.node1 = node ∧ e.label = label := by
    refine Table.eq_of_mem_iff fun e => ?_
    simp only [Table.rows_filter, List.mem_filter, decide_eq_true_eq]
    exact ⟨fun ⟨he, hnode⟩ => ⟨(h e hnode.1).1 he, hnode⟩,
      fun ⟨he, hnode⟩ => ⟨(h e hnode.1).2 he, hnode⟩⟩
  exact congrArg Table.rows hfilter

theorem edgesOf_eq_singleton {label : String} (h : ∀ y, y ∈ db.edgesOf node label ↔ y = e) :
    db.edgesOf node label = [e] := by
  have hnodup : (db.edgesOf node label).Nodup := (Table.nodup_rows _).filter _
  exact List.perm_singleton.1
    ((List.perm_ext_iff_of_nodup hnodup (List.nodup_singleton e)).2 (by simpa using h))

/-! ## Values -/

/-- The statement is stored, and is read as it is. -/
structure Holds (db : Database) (x : Statement) : Prop where
  edge : x.edge ∈ db.tables.edges.rows
  attach : db.attach x.edge = .ok x

/-- **An edge is read as before if the row of its value stays.** -/
theorem Intact.attach_congr (h : db.Intact) (hother : other.Intact)
    (he : e ∈ db.tables.edges.rows) (heOther : e ∈ other.tables.edges.rows)
    (hstays : ∀ row ∈ (db.tables.values e.kind).rows, row.edgeId = e.id →
      row ∈ (other.tables.values e.kind).rows) : other.attach e = db.attach e := by
  obtain ⟨row, hrow, hid⟩ := Table.contains_iff.1 (h.sound.valued e he)
  rw [h.attach_of_row he hrow hid, hother.attach_of_row heOther (hstays row hrow hid) hid]

/-- **What is read under an id is the statement that is stored with it.** -/
theorem Intact.statement_eq_ok_iff (h : db.Intact) {id : String} :
    db.statement id = .ok x ↔ db.Holds x ∧ x.edge.id = id := by
  constructor
  · intro hx
    cases hfind : db.tables.edges.find? id with
    | none =>
      rw [statement, edge, require_of_complete h.complete, Tables.kept_of_utf8 h.encoding] at hx
      simp only [bind, Except.bind, hfind] at hx
      cases hx
    | some e =>
      obtain ⟨he, rfl⟩ := Table.find?_eq_some_iff.1 hfind
      obtain ⟨v, hattach, hstatement, -⟩ := h.exists_statement he
      obtain rfl := Except.ok.inj (hstatement.symm.trans hx)
      exact ⟨⟨he, hattach⟩, rfl⟩
  · rintro ⟨hx, rfl⟩
    rw [statement, h.edge_eq hx.edge]
    exact hx.attach

/-- A statement that has no number and no unit is read as it was stored. -/
theorem Intact.holds_of_stores (h : db.Intact) (hx : db.tables.Stores x)
    (hnumbers : x.value.hasNaN = false) (hunit : x.value.HasPlainUnit)
    (hzeros : x.value.unsignedZeros = x.value) : db.Holds x := by
  obtain ⟨stored, v, hstored, hv, hattach⟩ := h.attach_eq hx
  have hread := StoredValue.toValue_ofValue? hnumbers hunit hstored
  refine ⟨hx.edge, ?_⟩
  rw [hattach, Except.ok.inj (hv.symm.trans hread), hzeros]

/-! ## Nodes -/

/-- Both databases say the same about the node. -/
structure AgreeOn (db other : Database) (node : String) : Prop where
  lookup : ∀ label, other.lookup node label = db.lookup node label
  statements : ∀ label, other.statements node label = db.statements node label

theorem mapM_congr {α β ε : Type} {f g : α → Except ε β} {as : List α}
    (h : ∀ a ∈ as, f a = g a) : as.mapM f = as.mapM g := by
  induction as with
  | nil => rfl
  | cons a as ih =>
    rw [List.mapM_cons, List.mapM_cons, h a (List.mem_cons_self ..),
      ih fun b hb => h b (List.mem_cons_of_mem a hb)]

/-- **Databases agree on a node if they have the same edges of it with the same values.** -/
theorem Intact.agreeOn (h : db.Intact) (hother : other.Intact)
    (hedges : ∀ e, e.node1 = node → (e ∈ other.tables.edges.rows ↔ e ∈ db.tables.edges.rows))
    (hattach : ∀ e ∈ db.tables.edges.rows, e.node1 = node → other.attach e = db.attach e) :
    db.AgreeOn other node where
  lookup := fun label => by rw [hother.lookup_eq, h.lookup_eq, edgesOf_congr hedges]
  statements := fun label => by
    rw [hother.statements_eq, h.statements_eq, edgesOf_congr hedges]
    refine mapM_congr fun e he => ?_
    obtain ⟨he, hnode, -⟩ := mem_edgesOf.1 he
    exact hattach e he hnode

namespace AgreeOn

theorem textOf (h : db.AgreeOn other node) (label : String) :
    other.textOf node label = db.textOf node label := by
  rw [Database.textOf, Database.textOf, h.statements]

theorem isInstance (h : db.AgreeOn other node) (classNode : String) :
    other.isInstance node classNode = db.isInstance node classNode := by
  rw [Database.isInstance, Database.isInstance, h.lookup]

/-- **Databases that agree on a node find the same dataset and the same variable there.** -/
theorem findDataset (h : db.AgreeOn other node) : other.findDataset node = db.findDataset node := by
  simp only [Database.findDataset, fieldText, h.isInstance, h.textOf]

theorem findVariable (h : db.AgreeOn other node) :
    other.findVariable node = db.findVariable node := by
  simp only [Database.findVariable, fieldText, h.isInstance, h.textOf, h.lookup]

end AgreeOn

end Database

end FactGraph
