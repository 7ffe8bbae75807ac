import FactGraph.Proofs.Store.Removal
import FactGraph.Proofs.Store.Value

/-!
# The statements that tables hold

Tables **store** a statement (`Tables.Stores`) if they have its edge and the row of its value.
Tables that came about by insertion and removal consist of such statements: each edge is that of a
stored statement that was inserted (`Tables.ConsistsOf`). Sound tables are determined by the
statements that they store, so that adding these to no tables gives the same tables again
(`Tables.Adds.eq_of_stores`).
-/

namespace FactGraph

namespace Tables

variable {t u : Tables} {x : Statement} {added : List Statement} {P : Statement → Prop}

/-- The edge of the statement and the row of its value are there. -/
structure Stores (t : Tables) (x : Statement) : Prop where
  edge : x.edge ∈ t.edges.rows
  value : ∃ kind row, x.row? = some ⟨kind, row⟩ ∧ row ∈ (t.values kind).rows

/-- Each edge is that of a stored statement with the property. -/
def ConsistsOf (t : Tables) (P : Statement → Prop) : Prop :=
  ∀ e ∈ t.edges.rows, ∃ x, x.edge = e ∧ P x ∧ t.Stores x

/-! ## Changes -/

theorem mem_values_removeEdges {p : Edge → Bool} {e : Edge} (he : e ∈ t.edges.rows)
    (hp : p e = false) {kind : ValueKind} {row : ValueRow kind}
    (hrow : row ∈ (t.values kind).rows) (hid : row.edgeId = e.id) :
    row ∈ ((t.removeEdges p).values kind).rows := by
  have hstays : row.edgeId ∉ t.removedIds p := by
    rw [hid, mem_removedIds he, hp]
    exact Bool.false_ne_true
  rw [values_removeEdges, Table.rows_filter, List.mem_filter]
  exact ⟨hrow, decide_eq_true hstays⟩

theorem Stores.removeEdges (h : t.Stores x) {p : Edge → Bool} (hp : p x.edge = false) :
    (t.removeEdges p).Stores x := by
  obtain ⟨kind, row, hrow, hmem⟩ := h.value
  exact ⟨mem_edges_removeEdges.2 ⟨h.edge, hp⟩, kind, row, hrow,
    mem_values_removeEdges h.edge hp hmem (Statement.of_row?_eq_some hrow).2⟩

theorem Adds.stores_of_stores (ha : t.Adds added u) (h : t.Stores x) : u.Stores x := by
  obtain ⟨kind, row, hrow, hmem⟩ := h.value
  exact ⟨(ha.edges _).2 (.inl h.edge), kind, row, hrow, (ha.values _ _).2 (.inl hmem)⟩

theorem Adds.stores (ha : t.Adds added u) (hx : x ∈ added) (hstorable : Update.Storable x) :
    u.Stores x := by
  obtain ⟨stored, hstored⟩ := Option.isSome_iff_exists.1 hstorable
  have hrow : x.row? = some ⟨x.value.kind, x.edge.id, stored⟩ := by
    rw [Statement.row?, hstored, Option.map_some]
  exact ⟨(ha.edges _).2 (.inr ⟨x, hx, rfl⟩), _, _, hrow, (ha.values _ _).2 (.inr ⟨x, hx, hrow⟩)⟩

theorem consistsOf_empty (P : Statement → Prop) : empty.ConsistsOf P :=
  fun e he => absurd he (Table.not_mem_rows_empty e)

theorem ConsistsOf.removeEdges (h : t.ConsistsOf P) (p : Edge → Bool) :
    (t.removeEdges p).ConsistsOf P := by
  intro e he
  obtain ⟨he, hp⟩ := mem_edges_removeEdges.1 he
  obtain ⟨x, rfl, hx, hstores⟩ := h e he
  exact ⟨x, rfl, hx, hstores.removeEdges hp⟩

theorem ConsistsOf.adds (h : t.ConsistsOf P) (ha : t.Adds added u)
    (hstorable : ∀ x ∈ added, Update.Storable x) (hadded : ∀ x ∈ added, P x) :
    u.ConsistsOf P := by
  intro e he
  rcases (ha.edges e).1 he with he | ⟨x, hx, rfl⟩
  · obtain ⟨x, hedge, hx, hstores⟩ := h e he
    exact ⟨x, hedge, hx, ha.stores_of_stores hstores⟩
  · exact ⟨x, rfl, hadded x hx, ha.stores hx (hstorable x hx)⟩

/-! ## Sound tables -/

theorem eq_of_parts (hencoding : t.encoding = u.encoding) (hedges : t.edges = u.edges)
    (hvalues : ∀ kind, t.values kind = u.values kind) (htags : t.unknownTags = u.unknownTags) :
    t = u := by
  obtain ⟨encoding, edges, strings, dates, quantities, coordinates, symbols, unknownTags⟩ := t
  obtain rfl : strings = u.strings := hvalues .string
  obtain rfl : dates = u.dates := hvalues .dateAndTime
  obtain rfl : quantities = u.quantities := hvalues .quantity
  obtain rfl : coordinates = u.coordinates := hvalues .coordinate
  obtain rfl : symbols = u.symbols := hvalues .symbol
  obtain rfl : encoding = u.encoding := hencoding
  obtain rfl : edges = u.edges := hedges
  obtain rfl : unknownTags = u.unknownTags := htags
  rfl

/-- **A stored statement has the only row of its id.** -/
theorem Sound.row?_eq (hsound : t.Sound) (h : t.Stores x) {kind : ValueKind} {row : ValueRow kind}
    (hrow : row ∈ (t.values kind).rows) (hid : row.edgeId = x.edge.id) :
    x.row? = some ⟨kind, row⟩ := by
  obtain ⟨own, ownRow, hown, hmem⟩ := h.value
  have hownId : ownRow.edgeId = x.edge.id := (Statement.of_row?_eq_some hown).2
  have hkind : kind = x.edge.kind :=
    hsound.kind_eq h.edge (mem_valueIds.2 (Table.contains_iff.2 ⟨row, hrow, hid⟩))
  obtain rfl : own = kind :=
    (hsound.kind_eq h.edge (mem_valueIds.2 (Table.contains_iff.2 ⟨ownRow, hmem, hownId⟩))).trans
      hkind.symm
  rw [hown, Table.eq_of_key_eq hmem hrow (hownId.trans hid.symm)]

/-- **Sound tables come about by adding the statements that they store.** -/
theorem Adds.eq_of_stores (ha : empty.Adds added u) (hsound : t.Sound)
    (hencoding : t.encoding = .utf8) (hstores : ∀ x ∈ added, t.Stores x)
    (hall : ∀ e ∈ t.edges.rows, ∃ x ∈ added, x.edge = e) : u = t := by
  have hedges (e : Edge) : e ∈ u.edges.rows ↔ e ∈ t.edges.rows := by
    have hnone : e ∉ empty.edges.rows := Table.not_mem_rows_empty e
    rw [ha.edges e, or_iff_right hnone]
    constructor
    · rintro ⟨x, hx, rfl⟩
      exact (hstores x hx).edge
    · exact hall e
  -- A row of `t` belongs to an edge, the edge to a statement, and a statement has one row.
  have hvalues (kind : ValueKind) (row : ValueRow kind) :
      row ∈ (u.values kind).rows ↔ row ∈ (t.values kind).rows := by
    rw [ha.values kind row, rows_empty, or_iff_right List.not_mem_nil]
    constructor
    · rintro ⟨x, hx, hrow⟩
      obtain ⟨own, ownRow, hown, hmem⟩ := (hstores x hx).value
      rw [hown] at hrow
      cases hrow
      exact hmem
    · intro hrow
      obtain ⟨e, he, hid, -⟩ := hsound.owned kind row hrow
      obtain ⟨x, hx, rfl⟩ := hall e he
      exact ⟨x, hx, hsound.row?_eq (hstores x hx) hrow hid.symm⟩
  refine eq_of_parts (ha.encoding.trans hencoding.symm) (Table.eq_of_mem_iff hedges) ?_
    (ha.unknownTags.trans hsound.tagged.symm)
  exact fun kind => Table.eq_of_mem_iff (hvalues kind)

theorem newsAfter_eq_self {earlier statements : List Statement}
    (hnew : ∀ x ∈ statements, t.containsEdge x.edge.id = false)
    (hnodup : (Statement.ids (earlier ++ statements)).Nodup) :
    t.newsAfter earlier statements = statements := by
  induction statements generalizing earlier with
  | nil => rfl
  | cons x rest ih =>
    have hx : x.edge.id ∉ Statement.ids earlier := by
      rw [Statement.ids, List.map_append, List.nodup_append] at hnodup
      exact fun hmem => hnodup.2.2 _ hmem _ (List.mem_map_of_mem (List.mem_cons_self ..)) rfl
    rw [newsAfter, if_pos ⟨hnew x (List.mem_cons_self ..), hx⟩, ih]
    · exact fun y hy => hnew y (List.mem_cons_of_mem x hy)
    · rwa [List.append_assoc, List.singleton_append]

end Tables

/-! ## Reading -/

namespace Database

variable {db other : Database} {x : Statement}

/-- **An edge is read with the row of its value.** -/
theorem Intact.attach_of_row (h : db.Intact) {e : Edge} (he : e ∈ db.tables.edges.rows)
    {kind : ValueKind} {row : ValueRow kind} (hrow : row ∈ (db.tables.values kind).rows)
    (hid : row.edgeId = e.id) : db.attach e = row.stored.toValue.map (⟨e, ·⟩) := by
  obtain rfl : kind = e.kind :=
    h.sound.kind_eq he (Tables.mem_valueIds.2 (Table.contains_iff.2 ⟨row, hrow, hid⟩))
  have hvalue : db.tables.value e.kind e.id = row.stored.toValue.map some := by
    rw [Tables.value, Table.find?_eq_some_iff.2 ⟨hrow, hid⟩]
  rw [attach, valueOf, require_of_complete h.complete]
  simp only [bind, Except.bind, hvalue]
  cases row.stored.toValue <;> rfl

theorem Intact.attach_eq (h : db.Intact) (hx : db.tables.Stores x) :
    ∃ stored v, StoredValue.ofValue? x.value = some stored ∧ stored.toValue = .ok v ∧
      db.attach x.edge = .ok ⟨x.edge, v⟩ := by
  obtain ⟨kind, row, hrow, hmem⟩ := hx.value
  obtain ⟨stored, hstored, hsame⟩ := Option.map_eq_some_iff.1 hrow
  cases hsame
  obtain ⟨v, hv⟩ := h.readable _ _ hmem
  refine ⟨stored, v, hstored, hv, ?_⟩
  rw [h.attach_of_row hx.edge hmem rfl, hv]
  rfl

theorem Intact.forall₂_attach (h : db.Intact) {all : List Statement}
    (hall : db.allStatements = .ok all) :
    List.Forall₂ (fun e x => db.attach e = .ok x) db.tables.edges.rows all :=
  mapM_eq_ok_iff.1 (h.allStatements_eq.symm.trans hall)

theorem Intact.allStatements_congr (h : db.Intact) (hother : other.Intact)
    (htables : db.tables = other.tables) : db.allStatements = other.allStatements := by
  have hattach : db.attach = other.attach := by
    funext e
    rw [attach, attach, valueOf, valueOf, require_of_complete h.complete,
      require_of_complete hother.complete, htables]
  rw [h.allStatements_eq, hother.allStatements_eq, hattach, htables]

end Database

/-! ## Insertion -/

namespace Store

variable {s : Store} {mode : InsertMode} {statements : List Statement}

/-- **An insertion adds its new statements, or leaves the store as it is.** -/
theorem Intact.insert_cases (h : s.Intact) (mode : InsertMode) (statements : List Statement) :
    (s.run (StoreM.insert mode statements)).2 = s ∨
    ∃ t', s.database.tables.Adds (s.database.tables.news statements) t' ∧
      (∀ x ∈ statements, x.check = .ok ()) ∧
      (∀ x ∈ s.database.tables.news statements, Update.Storable x) ∧
      (s.run (StoreM.insert mode statements)).2 = s.withTables t' := by
  by_cases hne : statements = []
  · subst hne
    exact .inl rfl
  cases hcheck : checkStatements statements with
  | error cause =>
    left
    have hempty : ¬statements.isEmpty = true := by simpa [List.isEmpty_iff] using hne
    have hfail : s.run (liftM (checkStatements statements) : StoreM Unit) = (.error cause, s) := by
      rw [run_liftExcept, hcheck]
    rw [StoreM.insert, if_neg hempty, run_bind_error hfail]
  | ok _ =>
    -- A failure of the insertion is undone, since an intact store has its journal.
    rcases hrun : (Update.insert s.batch mode statements).apply s.database with
      ⟨cause | stats, changed⟩
    · left
      rw [run_insert_of_check hcheck hne, run_transact_error h.toReady hrun]
    · right
      obtain ⟨hnone, hstorable⟩ := Update.of_apply_insert_ok h.complete h.encoding hrun
      exact ⟨_, Tables.adds_withNews h.sound h.encoding statements,
        checkStatements_eq_ok_iff.1 hcheck, hstorable,
        by rw [run_insert_ok h.toReady h.sound hcheck hne hnone hstorable]⟩

/-- **Statements that are all new are all added.** -/
theorem Intact.run_insert_all_new (h : s.Intact) (mode : InsertMode)
    (hcheck : ∀ x ∈ statements, x.check = .ok ())
    (hstorable : ∀ x ∈ statements, Update.Storable x)
    (hnews : s.database.tables.news statements = statements) :
    ∃ t', s.database.tables.Adds statements t' ∧
      s.run (StoreM.insert mode statements) =
        (.ok ⟨statements.length, 0, statements.length⟩, s.withTables t') := by
  by_cases hne : statements = []
  · subst hne
    exact ⟨_, Tables.adds_nil _, rfl⟩
  have hadds := Tables.adds_withNews h.sound h.encoding statements
  have hnone : s.database.tables.conflict? mode [] statements = none :=
    Tables.conflict?_of_all_new hnews
  have hrun := run_insert_ok h.toReady h.sound (checkStatements_eq_ok_iff.2 hcheck) hne hnone
    (by rwa [hnews])
  rw [hnews] at hadds hrun
  rw [Nat.sub_self] at hrun
  exact ⟨_, hadds, hrun⟩

end Store

end FactGraph
