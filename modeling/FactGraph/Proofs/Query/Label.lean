import FactGraph.Proofs.Query.Places
import FactGraph.Proofs.Store.Backup
import FactGraph.Proofs.Store.Reading

/-!
# Labels in queries

A node may have any number of labels, of any kinds. Queries show the first of them in the order of
ids, if it is a text (`Database.shownLabel?`); the label that is reported for a node is the first
text or symbol among them (`Database.Intact.nodeLabel_eq`). **Both are the same exactly if the first
label is a text, or no label is a text or a symbol** (`Database.Intact.shownLabel?_eq_iff`), and so
are the labels in the rows of a query (`Store.labels_shown_iff`).
-/

namespace FactGraph

theorem Cell.ofText?_injective : Function.Injective ofText? := by
  intro a b h
  cases a <;> cases b <;> simp_all [ofText?]

namespace Database

/-- The labels of a node, in the order of their ids. -/
def labelEdges (db : Database) (node : String) : List Edge := db.edgesOf node Vocabulary.label

/-- The text that is stored for an edge. -/
def storedText? (db : Database) (e : Edge) : Option String :=
  (db.tables.strings.find? e.id).bind fun row => (Record.value row).cell .text |>.text?

/-- The label of a node as queries show it. -/
def shownLabel? (db : Database) (node : String) : Option String :=
  (db.labelEdges node).head?.bind db.storedText?

/-- The first label of the node is a text, or no label is a text or a symbol. -/
def LabelsByText (db : Database) (node : String) : Prop :=
  (∃ e, (db.labelEdges node).head? = some e ∧ e.kind = .string) ∨
    ∀ e ∈ db.labelEdges node, e.kind ≠ .string ∧ e.kind ≠ .symbol

variable {db : Database} {node : String} {e : Edge}

/-! ## The label that is reported -/

/-- The text or symbol of an edge. -/
def told? (db : Database) (e : Edge) : Option String :=
  match db.attach e with
  | .ok x => textIn x.value
  | .error _ => none

theorem Intact.isSome_told?_iff (h : db.Intact) (he : e ∈ db.tables.edges.rows) :
    (db.told? e).isSome = true ↔ e.kind = .string ∨ e.kind = .symbol := by
  obtain ⟨row, hrow, hid⟩ := Table.contains_iff.1 (h.sound.valued e he)
  obtain ⟨v, hv⟩ := h.readable e.kind row hrow
  rw [told?, h.attach_of_row he hrow hid, hv]
  obtain ⟨id, node1, label, node2, kind⟩ := e
  obtain ⟨rowId, stored⟩ := row
  cases stored with
  | quantity number unit low high =>
    obtain ⟨n, -, rfl⟩ := exists_of_map_eq_ok hv
    simp [Except.map, textIn]
  | _ => obtain rfl := Except.ok.inj hv; simp [Except.map, textIn]

/-- Of what is told, queries show what is a text. -/
theorem Intact.storedText?_eq (h : db.Intact) (he : e ∈ db.tables.edges.rows) :
    db.storedText? e = if e.kind = .string then db.told? e else none := by
  by_cases hkind : e.kind = .string
  · obtain ⟨row, hrow, hid⟩ := Table.contains_iff.1 (h.sound.valued e he)
    obtain ⟨id, node1, label, node2, kind⟩ := e
    obtain rfl : kind = .string := hkind
    have hfind : db.tables.strings.find? id = some row := Table.find?_eq_some_iff.2 ⟨hrow, hid⟩
    rw [told?, h.attach_of_row he hrow hid, storedText?, hfind, if_pos rfl]
    obtain ⟨rowId, stored⟩ := row
    cases stored
    rfl
  · have hnone : db.tables.strings.find? e.id = none := by
      cases hfind : db.tables.strings.find? e.id with
      | none => rfl
      | some other =>
        obtain ⟨hother, hotherId⟩ := Table.find?_eq_some_iff.1 hfind
        have hstring : e.id ∈ db.tables.valueIds .string := List.mem_map.2 ⟨other, hother, hotherId⟩
        exact absurd (h.sound.kind_eq he hstring).symm hkind
    rw [storedText?, hnone, if_neg hkind]
    rfl

theorem findSome?_told?_of_mapM {edges : List Edge} {all : List Statement}
    (h : edges.mapM db.attach = .ok all) :
    all.findSome? (fun x => textIn x.value) = edges.findSome? db.told? := by
  have hattach := mapM_eq_ok_iff.1 h
  induction hattach with
  | nil => rfl
  | cons hx hrest ih =>
    rw [List.findSome?_cons, List.findSome?_cons, ih (mapM_eq_ok_iff.2 hrest), told?, hx]

/-- The label of a node is the first that tells something. -/
theorem Intact.nodeLabel_eq (h : db.Intact) (node : String) :
    db.nodeLabel node = .ok ((db.labelEdges node).findSome? db.told?) := by
  obtain ⟨all, hall, -⟩ := exists_mapM_attach h fun e he => (mem_edgesOf.1 he).1
  rw [nodeLabel, textOf, h.statements_eq, hall, labelEdges, ← findSome?_told?_of_mapM hall]
  rfl

/-- **Queries show the label that is reported exactly if the first label is a text, or no label is
a text or a symbol.** -/
theorem Intact.shownLabel?_eq_iff (h : db.Intact) :
    db.nodeLabel node = .ok (db.shownLabel? node) ↔ db.LabelsByText node := by
  have hstored : ∀ e ∈ db.labelEdges node, e ∈ db.tables.edges.rows := fun e he =>
    (mem_edgesOf.1 he).1
  rw [h.nodeLabel_eq, Except.ok.injEq, shownLabel?, LabelsByText]
  cases hedges : db.labelEdges node with
  | nil => simp
  | cons first rest =>
    rw [hedges] at hstored
    obtain ⟨hfirst, hrest⟩ := List.forall_mem_cons.1 hstored
    have htold := h.isSome_told?_iff hfirst
    by_cases hkind : first.kind = .string
    · obtain ⟨text, htext⟩ := Option.isSome_iff_exists.1 (htold.2 (.inl hkind))
      simp [h.storedText?_eq hfirst, hkind, htext]
    · have hnone : (first :: rest).findSome? db.told? = none ↔
          ∀ e ∈ first :: rest, e.kind ≠ .string ∧ e.kind ≠ .symbol := by
        rw [List.findSome?_eq_none_iff]
        refine forall₂_congr fun e he => ?_
        rw [← Option.not_isSome_iff_eq_none, h.isSome_told?_iff (hstored e he), not_or]
      rw [List.head?_cons, Option.bind_some, h.storedText?_eq hfirst, if_neg hkind, hnone]
      simp [hkind]

/-! ## The label that is shown -/

variable {env : Environment} {edge text : Alias} {operand : Operand}

theorem Intact.firstLabel_eq (h : db.Intact) (node : String) :
    db.tables.firstLabel node = (db.labelEdges node).head?.map Edge.id := by
  rw [Tables.firstLabel, h.tables_lookup_eq]
  rfl

theorem Intact.holds_firstLabel_iff (h : db.Intact) (he : e ∈ db.tables.edges.rows)
    (hlookup : env.lookup edge = some (some (.edge e))) :
    (Condition.firstLabel edge operand).holds db.tables env = true ↔
      ((env.text? operand).bind fun node => (db.labelEdges node).head?) = some e := by
  have hnode1 : env.text? ⟨edge, .node1⟩ = some e.node1 := Environment.text?_of_edge hlookup rfl
  have hlabel : env.text? ⟨edge, .label⟩ = some e.label := Environment.text?_of_edge hlookup rfl
  have hid : env.text? ⟨edge, .id⟩ = some e.id := Environment.text?_of_edge hlookup rfl
  cases htext : env.text? operand with
  | none => simp [Condition.holds, Environment.sameText, hnode1, htext]
  | some node =>
    have hkept (text : String) : db.tables.kept text = text := Tables.kept_of_utf8 h.encoding text
    simp only [Condition.holds, Environment.sameText, Environment.isText, hnode1, hlabel, hid,
      htext, hkept, h.firstLabel_eq, Option.bind_some, Option.some.injEq, Bool.and_eq_true,
      decide_eq_true_eq]
    -- The condition compares the id with that of the first label, and ids are keys.
    cases hfirst : (db.labelEdges node).head? with
    | none => simp
    | some first =>
      obtain ⟨hmem, hfirstNode, hfirstLabel⟩ := mem_edgesOf.1 (List.mem_of_head? hfirst)
      simp only [Option.map_some, Option.some.injEq, decide_eq_true_eq]
      constructor
      · rintro ⟨-, hsame⟩
        exact Table.eq_of_key_eq hmem he hsame.symm
      · rintro rfl
        exact ⟨⟨hfirstNode, hfirstLabel⟩, rfl⟩

theorem Intact.lookup_labelEdge (h : db.Intact) (hne : operand.source ≠ edge)
    (hsettles : db.tables.Settles ⟨.left, .edges, edge, .firstLabel edge operand⟩ env) :
    env.lookup edge =
      some (((env.text? operand).bind fun node => (db.labelEdges node).head?).map .edge) := by
  rcases hsettles with ⟨r, hr, hlookup, hholds⟩ | ⟨-, hlookup, hnone⟩
  · obtain ⟨e, he, rfl⟩ := Tables.mem_records_edges.1 hr
    rw [hlookup, (h.holds_firstLabel_iff he hlookup).1 hholds]
    rfl
  · cases hfirst : (env.text? operand).bind fun node => (db.labelEdges node).head? with
    | none => exact hlookup
    | some e =>
      obtain ⟨node, -, hhead⟩ := Option.bind_eq_some_iff.1 hfirst
      have he := (mem_edgesOf.1 (List.mem_of_head? hhead)).1
      have htext : Environment.text? ((edge, some (.edge e)) :: env) operand = env.text? operand :=
        Environment.text?_congr (Environment.lookup_cons_of_ne hne _ _)
      have hholds := (h.holds_firstLabel_iff he List.lookup_cons_self).2 (htext ▸ hfirst)
      exact absurd hholds
        (Bool.eq_false_iff.1 (hnone _ (Tables.mem_records_edges.2 ⟨e, he, rfl⟩)))

theorem cell_storedText (hne : edge ≠ text) {found : Option Edge}
    (hfound : env.lookup edge = some (found.map .edge))
    (hsettles : db.tables.Settles ⟨.left, .values .string, text, .valueOf text edge⟩ env) :
    env.cell ⟨text, .text⟩ = .ofText? (found.bind db.storedText?) := by
  have hid : env.text? ⟨edge, .id⟩ = found.map Edge.id := by
    cases found <;> simp [Environment.text?, Environment.cell, hfound, Record.cell, Record.edgeCell,
      Cell.text?]
  rcases hsettles with ⟨r, hr, hlookup, hholds⟩ | ⟨-, hlookup, hnone⟩
  · obtain ⟨row, hrow, rfl⟩ := List.mem_map.1 hr
    rw [Condition.holds_valueOf_iff hlookup, hid] at hholds
    obtain ⟨e, rfl, hrowId⟩ := Option.map_eq_some_iff.1 hholds
    have hfind : db.tables.strings.find? e.id = some row :=
      Table.find?_eq_some_iff.2 ⟨hrow, hrowId.symm⟩
    rw [Environment.cell, hlookup, Option.bind_some, storedText?, hfind]
    obtain ⟨rowId, stored⟩ := row
    cases stored
    rfl
  · have hmissing : found.bind db.storedText? = none := by
      rw [Option.bind_eq_none_iff]
      rintro e rfl
      cases hfind : db.tables.strings.find? e.id with
      | none => rw [storedText?, hfind]; rfl
      | some row =>
        obtain ⟨hrow, hrowId⟩ := Table.find?_eq_some_iff.1 hfind
        have hholds : (Condition.valueOf text edge).holds db.tables
            ((text, some (.value row)) :: env) = true := by
          rw [Condition.holds_valueOf_iff List.lookup_cons_self, hrowId,
            Environment.text?_congr (Environment.lookup_cons_of_ne hne _ _), hid]
          rfl
        exact absurd hholds (Bool.eq_false_iff.1 (hnone _ (List.mem_map.2 ⟨row, hrow, rfl⟩)))
    rw [Environment.cell, hlookup, hmissing]
    rfl

/-- **Both joins of a label together give the first label of the node, if it is a text.** -/
theorem Intact.cell_labelText (h : db.Intact) (hne : operand.source ≠ edge) (htextNe : edge ≠ text)
    (hsettles : ∀ j ∈ labelJoins edge text operand, db.tables.Settles j env) :
    env.cell ⟨text, .text⟩ = .ofText? ((env.text? operand).bind db.shownLabel?) := by
  obtain ⟨hedge, htext, -⟩ := List.forall_mem_cons.1 hsettles |>.imp_right List.forall_mem_cons.1
  rw [cell_storedText htextNe (h.lookup_labelEdge hne hedge) htext, Option.bind_assoc]
  rfl

/-- The cell is the label that is reported for the node. -/
def IsLabel (db : Database) (node : String) (cell : Cell) : Prop :=
  ∃ label, db.nodeLabel node = .ok label ∧ cell = .ofText? label

theorem Intact.isLabel_shown_iff (h : db.Intact) :
    db.IsLabel node (.ofText? (db.shownLabel? node)) ↔ db.LabelsByText node := by
  rw [← h.shownLabel?_eq_iff]
  constructor
  · rintro ⟨label, hlabel, hsame⟩
    rw [hlabel, Cell.ofText?_injective hsame]
  · intro hlabel
    exact ⟨_, hlabel, rfl⟩

theorem Intact.labelsByText_of_shownLabel? (h : db.Intact) {text : String}
    (hshown : db.shownLabel? node = some text) : db.LabelsByText node := by
  obtain ⟨e, hfirst, hstored⟩ := Option.bind_eq_some_iff.1 hshown
  rw [h.storedText?_eq (mem_edgesOf.1 (List.mem_of_head? hfirst)).1] at hstored
  refine .inl ⟨e, hfirst, ?_⟩
  by_contra hkind
  rw [if_neg hkind] at hstored
  exact nomatch hstored

/-- A node that is shown itself where it has no label can also be its own label. -/
theorem Intact.getD_shown_iff (h : db.Intact) :
    (∃ label, db.nodeLabel node = .ok label ∧
      Cell.text ((db.shownLabel? node).getD node) = .text (label.getD node)) ↔
      db.LabelsByText node ∨ db.nodeLabel node = .ok (some node) := by
  constructor
  · rintro ⟨label, hlabel, hsame⟩
    -- Queries show the node itself where they find no text, so a node that is its own label comes
    -- out right as well.
    cases hshown : db.shownLabel? node with
    | some text => exact .inl (h.labelsByText_of_shownLabel? hshown)
    | none =>
      cases label with
      | none => exact .inl (h.shownLabel?_eq_iff.1 (hshown ▸ hlabel))
      | some label =>
        rw [hshown] at hsame
        exact .inr (hlabel.trans (congrArg _ (congrArg some (Cell.text.inj hsame).symm)))
  · rintro (hlabels | hself)
    · exact ⟨_, h.shownLabel?_eq_iff.2 hlabels, rfl⟩
    · refine ⟨some node, hself, ?_⟩
      cases hshown : db.shownLabel? node with
      | none => rfl
      | some text =>
        have htext := h.shownLabel?_eq_iff.2 (h.labelsByText_of_shownLabel? hshown)
        rw [hself, hshown] at htext
        rw [Option.some.inj (Except.ok.inj htext)]

end Database

/-! ## Labels in rows -/

namespace Plan

variable {property dataset : String} {qualifiers : List Qualifier} {columns : List String}
  {places : PlaceFilter} {limit : Int64} {plan : Plan} {db : Database} {rows : List (List Cell)}
  {env : Environment}

theorem text?_of_cell {o : Operand} {text : String} (h : env.cell o = .text text) :
    env.text? o = some text := by
  rw [Environment.text?, h]
  rfl

theorem mem_zip_rowOf {name : String} {cell : Cell} :
    (name, cell) ∈ plan.columnNames.zip (plan.rowOf env) ↔
      ∃ expr, (name, expr) ∈ plan.columns ∧ expr.eval env = cell := by
  rw [Select.columnNames, rowOf, List.zip_map']
  simp

theorem exists_environment (hscoped : plan.IsScoped) {t : Tables} {row : List Cell}
    (hrow : row ∈ plan.rows t) :
    ∃ env, row = plan.rowOf env ∧ ∀ j ∈ plan.joins, t.Settles j env := by
  obtain ⟨e, -, env, henv, rfl⟩ := exists_environmentsOf plan t hrow
  exact ⟨env, rfl, fun j hj => hscoped.settles (List.mem_filter.1 henv).1 hj⟩

/-- **Each label in the row is the one that is reported for its node, exactly if the first label of
the node is a text, or none is a text or a symbol.** A unit is shown itself where it has no label,
so it can also be its own label. -/
structure ShowsLabels (db : Database) (plan : Plan) (qualifiers : List Qualifier)
    (row : List Cell) : Prop where
  subject : ∀ node cell,
    (BaseColumn.subjectId.name, .text node) ∈ plan.columnNames.zip row →
    (BaseColumn.subject.name, cell) ∈ plan.columnNames.zip row →
    (db.IsLabel node cell ↔ db.LabelsByText node)
  qualifier : ∀ q ∈ qualifiers, q.kind = .location ∨ q.kind = .stored .symbol →
    (q.name, q.valueExpr) ∈ plan.columns → (q.name ++ "_id", .operand q.node) ∈ plan.columns →
    ∀ node cell, (q.name ++ "_id", .text node) ∈ plan.columnNames.zip row →
      (q.name, cell) ∈ plan.columnNames.zip row → (db.IsLabel node cell ↔ db.LabelsByText node)
  unit : ∀ unit cell,
    (BaseColumn.unitId.name, .text unit) ∈ plan.columnNames.zip row →
    (BaseColumn.unit.name, cell) ∈ plan.columnNames.zip row →
    ((∃ label, db.nodeLabel unit = .ok label ∧ cell = .text (label.getD unit)) ↔
      db.LabelsByText unit ∨ db.nodeLabel unit = .ok (some unit))
  noUnit : ∀ id cell, (BaseColumn.unitId.name, id) ∈ plan.columnNames.zip row →
    id.text? = none → (BaseColumn.unit.name, cell) ∈ plan.columnNames.zip row → cell = id

section Request

variable (hplan : plan = assembled property dataset qualifiers columns places limit)
  (hall : JoinsAll qualifiers columns places)

include hplan

theorem eval_of_mem_zip {name : String} {expr : Expr} {cell : Cell}
    (hname : shown? qualifiers name = some expr)
    (h : (name, cell) ∈ plan.columnNames.zip (plan.rowOf env)) :
    (name, expr) ∈ plan.columns ∧ expr.eval env = cell := by
  subst hplan
  obtain ⟨other, hother, hcell⟩ := mem_zip_rowOf.1 h
  obtain rfl := Option.some.inj ((shown?_of_mem_columns hother).symm.trans hname)
  exact ⟨hother, hcell⟩

include hall

theorem exists_need_of_mem_sources {a : Alias} (ha : a ∈ plan.sources) (hne : a ≠ .observation) :
    ∃ need ∈ needs qualifiers columns places, a.origin? = some (need.isFixed, need.owner) ∧
      need.fragment.joins ⊆ plan.joins := by
  subst hplan
  obtain ⟨f, hf, hsource⟩ := (mem_sources.1 ha).resolve_left hne
  obtain ⟨need, hneed, rfl⟩ := exists_need_of_mem_joinedFragments hf
  exact ⟨need, hneed, Need.origin?_of_mem_sources hsource, fun j hj => mem_joins hall hneed hj⟩

theorem base_joins_subset : baseFragment.joins ⊆ plan.joins := by
  subst hplan
  exact fun j hj => mem_joins hall (mem_needs.2 (.inl rfl)) hj

theorem subject_joins_subset (h : .subjectText ∈ plan.sources) :
    subjectFragment.joins ⊆ plan.joins := by
  obtain ⟨need, -, horigin, hjoins⟩ := exists_need_of_mem_sources hplan hall h (by decide)
  simp only [Alias.origin?, Option.some.injEq, Prod.mk.injEq] at horigin
  cases need with
  | subject => exact hjoins
  | base => exact absurd horigin.2 (by decide)
  | place node level => exact absurd horigin.2.symm (place_owner_ne level).2.1
  | qualifier q => exact nomatch horigin.1

theorem qualifier_joins_subset (hnames : (qualifiers.map (·.name)).Nodup) {q : Qualifier}
    (hq : q ∈ qualifiers) {part : QualifierPart} (h : q.source part ∈ plan.sources) :
    q.fragment.joins ⊆ plan.joins := by
  obtain ⟨need, hneed, horigin, hjoins⟩ :=
    exists_need_of_mem_sources hplan hall h (by simp [Qualifier.source])
  simp only [Qualifier.source, Alias.origin?, Option.some.injEq, Prod.mk.injEq] at horigin
  cases need with
  | qualifier other =>
    obtain rfl := List.inj_on_of_nodup_map hnames hq (mem_of_qualifier_mem_needs hneed) horigin.2
    exact hjoins
  | _ => cases horigin.1

variable (hdb : db.Intact) (hsettles : ∀ j ∈ plan.joins, db.tables.Settles j env)
  {node : String} {cell : Cell}

include hdb hsettles

theorem eval_unit :
    BaseColumn.unit.expr.eval env =
      match (env.text? ⟨.amount, .unit⟩).bind db.shownLabel? with
      | some label => .text label
      | none => env.cell ⟨.amount, .unit⟩ := by
  have hjoins : labelJoins .unitLabel .unitText ⟨.amount, .unit⟩ ⊆ plan.joins :=
    fun j hj => base_joins_subset hplan hall (List.mem_append_right _ hj)
  have hshown : env.cell ⟨.unitText, .text⟩ = _ :=
    hdb.cell_labelText (by decide) (by decide) fun j hj => hsettles j (hjoins hj)
  rw [BaseColumn.expr, Expr.eval, hshown]
  cases (env.text? ⟨.amount, .unit⟩).bind db.shownLabel? <;> rfl

theorem isLabel_unit_iff
    (hid : (BaseColumn.unitId.name, .text node) ∈ plan.columnNames.zip (plan.rowOf env))
    (hcell : (BaseColumn.unit.name, cell) ∈ plan.columnNames.zip (plan.rowOf env)) :
    (∃ label, db.nodeLabel node = .ok label ∧ cell = .text (label.getD node)) ↔
      db.LabelsByText node ∨ db.nodeLabel node = .ok (some node) := by
  obtain ⟨-, hnode⟩ := eval_of_mem_zip hplan (shown?_name .unitId) hid
  obtain ⟨-, rfl⟩ := eval_of_mem_zip hplan (shown?_name .unit) hcell
  rw [eval_unit hplan hall hdb hsettles, text?_of_cell hnode, Option.bind_some,
    ← hdb.getD_shown_iff]
  have hunit : env.cell ⟨.amount, .unit⟩ = .text node := hnode
  cases db.shownLabel? node <;> simp [hunit]

theorem eq_of_no_unit {id : Cell}
    (hid : (BaseColumn.unitId.name, id) ∈ plan.columnNames.zip (plan.rowOf env))
    (hnone : id.text? = none)
    (hcell : (BaseColumn.unit.name, cell) ∈ plan.columnNames.zip (plan.rowOf env)) :
    cell = id := by
  obtain ⟨-, rfl⟩ := eval_of_mem_zip hplan (shown?_name .unitId) hid
  obtain ⟨-, rfl⟩ := eval_of_mem_zip hplan (shown?_name .unit) hcell
  have htext : env.text? ⟨.amount, .unit⟩ = none := hnone
  rw [eval_unit hplan hall hdb hsettles, htext]
  rfl

variable (hscoped : plan.IsScoped)

include hscoped

theorem isLabel_subject_iff
    (hid : (BaseColumn.subjectId.name, .text node) ∈ plan.columnNames.zip (plan.rowOf env))
    (hcell : (BaseColumn.subject.name, cell) ∈ plan.columnNames.zip (plan.rowOf env)) :
    db.IsLabel node cell ↔ db.LabelsByText node := by
  obtain ⟨-, hnode⟩ := eval_of_mem_zip hplan (shown?_name .subjectId) hid
  obtain ⟨hcolumn, rfl⟩ := eval_of_mem_zip hplan (shown?_name .subject) hcell
  have hjoins := subject_joins_subset hplan hall
    (hscoped.sources_column hcolumn (List.mem_singleton_self _))
  have hshown : BaseColumn.subject.expr.eval env = _ :=
    hdb.cell_labelText (by decide) (by decide) fun j hj => hsettles j (hjoins hj)
  rw [hshown, text?_of_cell hnode]
  exact hdb.isLabel_shown_iff

theorem isLabel_qualifier_iff (hnames : (qualifiers.map (·.name)).Nodup) {q : Qualifier}
    (hq : q ∈ qualifiers) (hkind : q.kind = .location ∨ q.kind = .stored .symbol)
    (hfirst : (q.name, q.valueExpr) ∈ plan.columns)
    (hsecond : (q.name ++ "_id", .operand q.node) ∈ plan.columns)
    (hid : (q.name ++ "_id", .text node) ∈ plan.columnNames.zip (plan.rowOf env))
    (hcell : (q.name, cell) ∈ plan.columnNames.zip (plan.rowOf env)) :
    db.IsLabel node cell ↔ db.LabelsByText node := by
  have hname : shown? qualifiers q.name = some q.valueExpr := by
    subst hplan
    exact shown?_of_mem_columns hfirst
  have hidName : shown? qualifiers (q.name ++ "_id") = some (.operand q.node) := by
    subst hplan
    exact shown?_of_mem_columns hsecond
  obtain ⟨-, hnode⟩ := eval_of_mem_zip hplan hidName hid
  obtain ⟨hcolumn, rfl⟩ := eval_of_mem_zip hplan hname hcell
  have hexpr : q.valueExpr = .operand q.labelText := by
    rcases hkind with h | h <;> rw [Qualifier.valueExpr, h]
  have hlabelled : q.labelled q.node ⊆ q.fragment.joins := by
    rcases hkind with h | h <;> rw [Qualifier.fragment, h] <;> exact List.subset_cons_self _ _
  rw [hexpr] at hcolumn ⊢
  have hjoins := qualifier_joins_subset hplan hall hnames hq
    (hscoped.sources_column hcolumn (List.mem_singleton_self _))
  have hshown : (Expr.operand q.labelText).eval env = _ :=
    hdb.cell_labelText (by simp [Qualifier.node, Qualifier.source]) (by simp [Qualifier.source])
      fun j hj => hsettles j (hjoins (hlabelled hj))
  rw [hshown, text?_of_cell hnode]
  exact hdb.isLabel_shown_iff

end Request

variable (qualifiers) in
/-- **Every row of a query shows labels.** -/
theorem showsLabels (hdb : db.Intact)
    (hplan : ofRequest property dataset qualifiers columns places limit = .ok plan)
    (hrows : db.query plan = .ok rows) {row : List Cell} (hrow : row ∈ rows) :
    ShowsLabels db plan qualifiers row := by
  obtain ⟨hcheck, heq⟩ := (ofRequest_eq_ok_iff qualifiers).1 hplan
  obtain ⟨hwell, rfl⟩ := Database.of_query_eq_ok hrows
  have hnames := nodup_names_of_checkQualifiers hcheck
  have hall : JoinsAll qualifiers columns places := joinsAll_of_wellScoped hnames (heq ▸ hwell)
  have hscoped : plan.IsScoped := heq ▸ isScoped_assembled hnames hall
  obtain ⟨env, rfl, hsettles⟩ := exists_environment hscoped hrow
  exact {
    subject := fun _ _ => isLabel_subject_iff heq hall hdb hsettles hscoped
    qualifier := fun _ hq hkind hfirst hsecond _ _ =>
      isLabel_qualifier_iff heq hall hdb hsettles hscoped hnames hq hkind hfirst hsecond
    unit := fun _ _ => isLabel_unit_iff heq hall hdb hsettles
    noUnit := fun _ _ hid hnone hcell => eq_of_no_unit heq hall hdb hsettles hid hnone hcell }

end Plan

namespace Store

/-- A store with one observation, whose subject has these labels. -/
def labelled (labels : List Statement) : Store :=
  (fresh false false .standard .idempotent "now").after [.insert .idempotent
    (⟨⟨"e1", "Q1", "P10", "5", .quantity⟩, .quantity ⟨.int 5, none, none, none, none⟩⟩ ::
      ⟨⟨"d1", "e1", Vocabulary.dataset, "Q99", .symbol⟩, .symbol "Q99"⟩ :: labels)]

/-- **Queries show the labels that the store reports, exactly where the labels of a node start with
a text or have none and no symbol**: in every store that was opened empty with an ordinary engine,
whatever was written to it. -/
theorem labels_shown_iff {config : StoreConfig} {engine : Engine}
    (hengine : config.engine = .ok engine) (hordinary : engine.IsOrdinary) (now : String) :
    ∃ opened, (openDatabase config now .empty).1 = .ok opened ∧ ∀ calls : List WriteCall,
      let db := (opened.after calls).database
      (∀ node, ∃ label, db.nodeLabel node = .ok label) ∧
      ∀ property dataset qualifiers columns places limit plan rows,
        Plan.ofRequest property dataset qualifiers columns places limit = .ok plan →
        db.query plan = .ok rows → ∀ row ∈ rows, Plan.ShowsLabels db plan qualifiers row := by
  obtain ⟨opened, hopened, hintact, -⟩ := exists_opened hengine hordinary now
  refine ⟨opened, hopened, fun calls => ?_⟩
  have h := (hintact.after calls).database
  exact ⟨fun node => ⟨_, h.nodeLabel_eq node⟩, fun property dataset qualifiers columns places limit
    plan rows hplan hrows row hrow => Plan.showsLabels qualifiers h hplan hrows hrow⟩

/-- A subject whose one label is a text is shown with this text, as its label is. -/
theorem labels_shown_iff_text :
    let text : Statement := ⟨⟨"l1", "Q1", Vocabulary.label, "\"foo\"", .string⟩,
      .string "foo" none⟩
    let db := (labelled [text]).database
    (Plan.ofRequest "P10" "Q99" [] ["main_subject_id", "main_subject"] .everywhere 0).bind
        db.query = .ok [[.text "Q1", .text "foo"]] ∧
      db.LabelsByText "Q1" ∧ db.IsLabel "Q1" (.text "foo") := by
  intro text db
  obtain ⟨opened, hopened, hlabels⟩ := labels_shown_iff
    (show (StoreConfig.mk false none false [] .standard .idempotent).engine = _ from rfl)
    ⟨rfl, rfl, rfl, rfl, rfl, rfl⟩ "now"
  obtain rfl := Except.ok.inj
    ((openDatabase_empty false false .standard .idempotent "now").symm.trans hopened)
  obtain ⟨-, hrows⟩ := hlabels _
  have hquery : db.query (Plan.assembled "P10" "Q99" [] ["main_subject_id", "main_subject"]
      .everywhere 0) = .ok [[.text "Q1", .text "foo"]] := by decide +kernel
  have hshows := hrows "P10" "Q99" [] _ .everywhere 0 _ _
    ((Plan.ofRequest_eq_ok_iff []).2 ⟨rfl, rfl⟩) hquery _ (List.mem_singleton_self _)
  have hfirst : db.LabelsByText "Q1" := .inl ⟨text.edge, by decide +kernel, rfl⟩
  exact ⟨hquery, hfirst, (hshows.subject "Q1" (.text "foo") (by decide) (by decide)).2 hfirst⟩

/-- A label that is a number hides the text behind it from queries, but not from the store. -/
theorem label_hidden :
    let number : Statement := ⟨⟨"l1", "Q1", Vocabulary.label, "7", .quantity⟩,
      .quantity ⟨.int 7, none, none, none, none⟩⟩
    let text : Statement := ⟨⟨"l2", "Q1", Vocabulary.label, "\"foo\"", .string⟩,
      .string "foo" none⟩
    let db := (labelled [number, text]).database
    ∃ plan, Plan.ofRequest "P10" "Q99" [] ["main_subject_id", "main_subject"] .everywhere 0 =
        .ok plan ∧
      db.query plan = .ok [[.text "Q1", .null]] ∧ db.nodeLabel "Q1" = .ok (some "foo") := by
  intro number text db
  refine ⟨_, rfl, ?_, ?_⟩
  · decide +kernel
  · decide +kernel

end Store

end FactGraph
