import FactGraph.Proofs.Store.Integrity

/-!
# What a removal does

A removal takes out the edges that are named by a list of ids: those that have one of the ids and
those about them. Two commands do that, one after the other. **Together they remove what either
asks for, with its values, and count each edge once** (`Tables.removeEdges_removeEdges`,
`Tables.countP_removeEdges`), although an edge may be named both by its id and by its node.

From this the runs are computed. The tables of a store after a removal are those before without the
named edges (`Store.run_deleteIds`, `Store.run_deleteObservations`); nothing else but the list of
edges to be removed has changed.
-/

namespace FactGraph

/-- The edge has one of the ids, or is about an edge that has. -/
def Edge.isNamed (ids : List String) (e : Edge) : Bool := e.id ∈ ids || e.node1 ∈ ids

theorem Edge.isNamed_eq_false_iff {ids : List String} {e : Edge} :
    e.isNamed ids = false ↔ e.id ∉ ids ∧ e.node1 ∉ ids := by
  simp [isNamed]

/-- The database with a list of edges to be removed. -/
def Database.listing (db : Database) (ids : List String) : Database :=
  { db with doomed := some ids }

/-- The database without the edges that are named by the ids, and with an empty list of edges to be
removed. -/
def Database.without (db : Database) (ids : List String) : Database :=
  { db with tables := db.tables.removeEdges (Edge.isNamed ids), doomed := some [] }

namespace Tables

variable {t : Tables} {p q : Edge → Bool} {e : Edge}

/-! ## Two removals -/

theorem mem_removedIds_or {id : String} : id ∈ t.removedIds (fun e => p e || q e) ↔
    id ∈ t.removedIds p ∨ id ∈ (t.removeEdges p).removedIds q := by
  simp only [removedIds, edges_removeEdges, Table.rows_filter, List.mem_map, List.mem_filter,
    Bool.or_eq_true, Bool.not_eq_true']
  constructor
  · rintro ⟨e, ⟨he, hgone⟩, hid⟩
    -- What both ask for goes with the first, and the second no longer finds it.
    cases hp : p e with
    | true => exact .inl ⟨e, ⟨he, hp⟩, hid⟩
    | false => exact .inr ⟨e, ⟨⟨he, hp⟩, hgone.resolve_left (by simp [hp])⟩, hid⟩
  · rintro (⟨e, ⟨he, hp⟩, hid⟩ | ⟨e, ⟨⟨he, -⟩, hq⟩, hid⟩)
    · exact ⟨e, ⟨he, .inl hp⟩, hid⟩
    · exact ⟨e, ⟨he, .inr hq⟩, hid⟩

/-- **Two removals are one of what either asks for.** -/
theorem removeEdges_removeEdges (t : Tables) (p q : Edge → Bool) :
    (t.removeEdges p).removeEdges q = t.removeEdges fun e => p e || q e := by
  have hvalues {α : Type} {key : α → String} (v : Table α key) (id : α → String) :
      (v.filter (fun a => id a ∉ t.removedIds p)).filter
          (fun a => id a ∉ (t.removeEdges p).removedIds q) =
        v.filter fun a => id a ∉ t.removedIds fun e => p e || q e := by
    refine Table.rows_injective ?_
    simp only [Table.rows_filter, List.filter_filter, mem_removedIds_or, not_or, Bool.decide_and]
    exact List.filter_congr fun a _ => Bool.and_comm ..
  have hedges : (t.edges.filter (!p ·)).filter (!q ·) = t.edges.filter fun e => !(p e || q e) := by
    refine Table.rows_injective ?_
    simp only [Table.rows_filter, List.filter_filter, Bool.not_or]
    exact List.filter_congr fun e _ => Bool.and_comm ..
  have htags : (t.unknownTags.filter (·.1 ∉ t.removedIds p)).filter
        (·.1 ∉ (t.removeEdges p).removedIds q) =
      t.unknownTags.filter (·.1 ∉ t.removedIds fun e => p e || q e) := by
    simp only [List.filter_filter, mem_removedIds_or, not_or, Bool.decide_and]
    exact List.filter_congr fun tag _ => Bool.and_comm ..
  -- Part by part: the encoding, the edges, the five tables of values and the tags.
  exact Tables.mk.injEq .. |>.mpr ⟨rfl, hedges, hvalues .., hvalues .., hvalues .., hvalues ..,
    hvalues .., htags⟩

/-- **Two removals count what either asks for once.** -/
theorem countP_removeEdges (t : Tables) (p q : Edge → Bool) :
    t.edges.rows.countP p + (t.removeEdges p).edges.rows.countP q =
      t.edges.rows.countP fun e => p e || q e := by
  rw [edges_removeEdges, Table.rows_filter]
  induction t.edges.rows with
  | nil => rfl
  | cons e rows ih =>
    cases hp : p e <;> cases hq : q e <;> simp [hp, hq] <;> omega

/-! ## What stays -/

theorem mem_edges_removeEdges :
    e ∈ (t.removeEdges p).edges.rows ↔ e ∈ t.edges.rows ∧ p e = false := by
  simp [edges_removeEdges]

theorem find?_values_removeEdges (he : e ∈ t.edges.rows) (hp : p e = false) (kind : ValueKind) :
    ((t.removeEdges p).values kind).find? e.id = (t.values kind).find? e.id := by
  rw [values_removeEdges]
  refine Table.find?_filter fun row _ hid => ?_
  simp [hid, mem_removedIds he, hp]

theorem unknownTag?_removeEdges (he : e ∈ t.edges.rows) (hp : p e = false) :
    (t.removeEdges p).unknownTag? e = t.unknownTag? e := by
  have hstays : e.id ∉ t.removedIds p := by simp [mem_removedIds he, hp]
  show (t.unknownTags.filter (·.1 ∉ t.removedIds p)).lookup e.id = t.unknownTags.lookup e.id
  -- On the tags. Those under other ids may go, but no lookup of this id finds them.
  induction t.unknownTags with
  | nil => rfl
  | cons tag tags ih =>
    obtain ⟨id, text⟩ := tag
    rw [List.filter_cons, List.lookup_cons]
    by_cases hid : id = e.id
    · subst hid
      simp [hstays]
    · have hother : (e.id == id) = false := by simpa using Ne.symm hid
      rw [hother]
      split
      · rwa [List.lookup_cons, hother]
      · exact ih

end Tables

namespace Database

variable {db other : Database} {ids : List String} {e : Edge}

theorem edge_eq_readEdge (he : e ∈ db.tables.edges.rows) (hid : db.tables.kept e.id = e.id) :
    db.edge e.id = db.require .edges >>= fun _ => db.readEdge e := by
  have hfind : db.tables.edges.find? e.id = some e := Table.find?_eq_some_iff.2 ⟨he, rfl⟩
  rw [edge, hid, hfind]

theorem eq_of_readEdge {x : Edge} (h : db.readEdge e = .ok x) : x = e := by
  unfold readEdge at h
  split at h
  · cases h
  · exact (Except.ok.inj h).symm

/-- **What is read under the id of an edge depends on its tag and on the row of its value.** -/
theorem reads_congr (hhas : ∀ table, other.has table = db.has table)
    (hkept : other.tables.kept e.id = db.tables.kept e.id) (hid : db.tables.kept e.id = e.id)
    (he : e ∈ db.tables.edges.rows) (hother : e ∈ other.tables.edges.rows)
    (htag : other.tables.unknownTag? e = db.tables.unknownTag? e)
    (hfind : (other.tables.values e.kind).find? e.id = (db.tables.values e.kind).find? e.id) :
    other.statement e.id = db.statement e.id ∧ other.value e.id = db.value e.id := by
  have hrequire (table : TableName) : other.require table = db.require table := by
    rw [require, require, hhas]
  have hread : other.readEdge e = db.readEdge e := by rw [readEdge, readEdge, htag]
  have hvalue : other.valueOf e = db.valueOf e := by
    rw [valueOf, valueOf, Tables.value, Tables.value, hfind, hrequire]
  have hedge : other.edge e.id = db.edge e.id := by
    rw [edge_eq_readEdge hother (hkept.trans hid), edge_eq_readEdge he hid, hread, hrequire]
  have hattach : other.attach e = db.attach e := by rw [attach, attach, hvalue]
  rw [statement, statement, value, value, hedge, edge_eq_readEdge he hid]
  cases db.require .edges with
  | error cause => exact ⟨rfl, rfl⟩
  | ok _ =>
    cases hread : db.readEdge e with
    | error cause => exact ⟨rfl, rfl⟩
    | ok x =>
      obtain rfl := eq_of_readEdge hread
      exact ⟨hattach, hvalue⟩

/-- **An edge that is not named is read as before**, and so is its value. -/
theorem reads_without (he : e ∈ db.tables.edges.rows) (hid : db.tables.kept e.id = e.id)
    (hstays : e.isNamed ids = false) :
    (db.without ids).statement e.id = db.statement e.id ∧
      (db.without ids).value e.id = db.value e.id :=
  reads_congr (fun _ => rfl) rfl hid he (Tables.mem_edges_removeEdges.2 ⟨he, hstays⟩)
    (Tables.unknownTag?_removeEdges he hstays) (Tables.find?_values_removeEdges he hstays e.kind)

end Database

/-! ## Runs -/

namespace Update

variable {α : Type} {db : Database}

/-- The change turns the list of edges to be removed into another, as `f` tells, and does nothing
else. It can fail only if there is no table of edges. -/
def Lists (change : Update Unit) (f : Tables → List String → List String) : Prop :=
  ∀ (db : Database) (ids : List String),
    change.apply (db.listing ids) = (.ok (), db.listing (f db.tables ids)) ∨
      db.has .edges = false ∧ ∃ cause left, change.apply (db.listing ids) = (.error cause, left)

theorem lists_doom (id : String) : Lists (doom id) fun t ids => ids ++ [t.kept id] :=
  fun _ _ => .inl rfl

theorem lists_spare (id : String) : Lists (spare id) fun t ids => ids.filter (· ≠ t.kept id) :=
  fun _ _ => .inl rfl

theorem lists_doomEdges (edges : Tables → List Edge) :
    Lists (doomEdges edges) fun t ids => ids ++ (edges t).map Edge.id := by
  intro db ids
  cases hedges : db.has .edges with
  | true =>
    have hhas : (db.listing ids).has .edges = true := hedges
    exact .inl (apply_bind_ok (apply_require hhas))
  | false =>
    have hhas : (db.listing ids).has .edges = false := hedges
    exact .inr ⟨rfl, _, _, apply_bind_error (apply_require_of_missing hhas)⟩

theorem Lists.bind {first rest : Update Unit} {f g : Tables → List String → List String}
    (hfirst : Lists first f) (hrest : Lists rest g) :
    Lists (do first; rest) fun t ids => g t (f t ids) := by
  intro db ids
  rcases hfirst db ids with hrun | ⟨hedges, cause, left, hrun⟩
  · rw [apply_bind_ok hrun]
    exact hrest db (f db.tables ids)
  · exact .inr ⟨hedges, cause, left, apply_bind_error hrun⟩

theorem Lists.forM {change : α → Update Unit} {f : α → Tables → List String → List String}
    (h : ∀ a, Lists (change a) (f a)) (items : List α) :
    Lists (items.forM change) fun t ids => items.foldl (fun ids a => f a t ids) ids := by
  induction items with
  | nil => exact fun _ _ => .inl rfl
  | cons a items ih => exact (h a).bind ih

/-- **The two deletions of a purge remove what is named**, and count it. -/
theorem apply_purgeDoomed (h : db.has .edges = true) (ids : List String) :
    purgeDoomed.apply (db.listing ids) =
      (.ok (db.tables.edges.rows.countP (Edge.isNamed ids)), db.without ids) := by
  let about (e : Edge) : Bool := e.node1 ∈ ids
  let listed (e : Edge) : Bool := e.id ∈ ids
  have hnamed : (fun e => about e || listed e) = Edge.isNamed ids :=
    funext fun e => Bool.or_comm ..
  have hfirst : deleteAbout.apply (db.listing ids) = (.ok (db.tables.edges.rows.countP about),
      { db.listing ids with tables := db.tables.removeEdges about }) := by
    have hhas : (db.listing ids).has .edges = true := h
    rw [deleteAbout, deleteEdges, apply_bind_ok (apply_require hhas), apply_bind_ok (apply_get _)]
    rfl
  -- The second deletion counts what the first has left, so an edge that both name is counted once.
  have hsecond : deleteListed.apply
        { db.listing ids with tables := db.tables.removeEdges about } =
      (.ok ((db.tables.removeEdges about).edges.rows.countP listed),
        { db.listing ids with
          tables := (db.tables.removeEdges about).removeEdges listed }) := by
    have hhas : Database.has { db.listing ids with
      tables := db.tables.removeEdges about } .edges = true := h
    rw [deleteListed, deleteEdges, apply_bind_ok (apply_require hhas), apply_bind_ok (apply_get _)]
    rfl
  rw [purgeDoomed, apply_bind_ok hfirst, apply_bind_ok hsecond, clearDoomed,
    apply_bind_ok (apply_modify _ _), apply_pure, Tables.countP_removeEdges,
    Tables.removeEdges_removeEdges, hnamed]
  rfl

variable {list : Update Unit} {f : Tables → List String → List String}

/-- **What is listed is removed**, and nothing that was listed before. -/
theorem Lists.apply_purgeListed (hlist : Lists list f) (h : db.has .edges = true) :
    (purgeListed list).apply db =
      (.ok (db.tables.edges.rows.countP (Edge.isNamed (f db.tables []))),
        db.without (f db.tables [])) := by
  have hrun := (hlist db []).resolve_right fun hmissing => by simp [h] at hmissing
  rw [purgeListed, createDoomed, apply_bind_ok (apply_modify _ _), clearDoomed,
    apply_bind_ok (apply_modify _ _)]
  exact (apply_bind_ok hrun).trans (apply_purgeDoomed h _)

theorem Lists.apply_purgeListed_eq_ok_iff (hlist : Lists list f) {n : Nat} {changed : Database} :
    (purgeListed list).apply db = (.ok n, changed) ↔
      db.has .edges = true ∧
        n = db.tables.edges.rows.countP (Edge.isNamed (f db.tables [])) ∧
        changed = db.without (f db.tables []) := by
  cases hedges : db.has .edges with
  | true => simp [hlist.apply_purgeListed hedges, eq_comm]
  | false =>
    refine iff_of_false (fun hrun => ?_) fun h => nomatch h.1
    obtain ⟨_, _, hcreate, hrun⟩ := of_apply_bind_ok hrun
    cases hcreate
    obtain ⟨_, _, hclear, hrun⟩ := of_apply_bind_ok hrun
    cases hclear
    obtain ⟨_, listed, hlisted, hrun⟩ := of_apply_bind_ok hrun
    rcases hlist db [] with hsame | ⟨-, cause, left, hfailed⟩
    · obtain ⟨-, rfl⟩ := Prod.mk.inj (hlisted.symm.trans hsame)
      have hhas : (db.listing (f db.tables [])).has .edges = false := hedges
      rw [purgeDoomed, deleteAbout, deleteEdges, bind_assoc,
        apply_bind_error (apply_require_of_missing hhas)] at hrun
      cases hrun
    · cases hlisted.symm.trans hfailed

/-! ### What is listed -/

theorem Lists.forM_append {change : α → Update Unit} {added : α → Tables → List String}
    (h : ∀ a, Lists (change a) fun t ids => ids ++ added a t) (items : List α) :
    Lists (items.forM change) fun t ids => ids ++ items.flatMap fun a => added a t := by
  have hall := Lists.forM h items
  simpa only [List.foldl_append_eq_append, ← List.flatMap_def] using hall

theorem lists_ids (ids : List String) :
    Lists (ids.forM doom) fun t listed => listed ++ ids.map t.kept := by
  have hall := Lists.forM_append lists_doom ids
  simpa only [List.map_eq_flatMap] using hall

theorem lists_observations (dataset : String) (properties : List String) :
    Lists (properties.forM fun p => doomEdges (·.observations dataset p)) fun t listed =>
      listed ++ t.observationIds dataset properties :=
  Lists.forM_append (fun _ => lists_doomEdges _) properties

/-- **A removal takes out the edges that are named by the ids as they are written**, and counts
them. -/
theorem apply_purge_of_has (h : db.has .edges = true) (ids : List String) :
    (purge ids).apply db =
      (.ok (db.tables.edges.rows.countP (Edge.isNamed (ids.map db.tables.kept))),
        db.without (ids.map db.tables.kept)) :=
  (lists_ids ids).apply_purgeListed h

theorem apply_purge (hcomplete : db.Complete) (h : db.tables.encoding = .utf8)
    (ids : List String) :
    (purge ids).apply db = (.ok (db.tables.edges.rows.countP (Edge.isNamed ids)),
      db.without ids) := by
  rw [apply_purge_of_has (hcomplete .edges), funext (Tables.kept_of_utf8 h), List.map_id']

/-- **Observations are removed by their ids.** -/
theorem apply_purgeObservations_of_has (h : db.has .edges = true) (dataset : String)
    (properties : List String) :
    (purgeObservations dataset properties).apply db =
      (.ok (db.tables.edges.rows.countP
          (Edge.isNamed (db.tables.observationIds dataset properties))),
        db.without (db.tables.observationIds dataset properties)) :=
  (lists_observations dataset properties).apply_purgeListed h

theorem of_apply_purgeObservations_ok {dataset : String} {properties : List String} {n : Nat}
    {changed : Database} (h : (purgeObservations dataset properties).apply db = (.ok n, changed)) :
    changed = db.without (db.tables.observationIds dataset properties) :=
  ((lists_observations dataset properties).apply_purgeListed_eq_ok_iff.1 h).2.2

end Update

namespace Store

variable {s : Store}

/-- The store without the edges that are named by the ids. -/
def without (s : Store) (ids : List String) : Store :=
  { s with database := s.database.without ids }

theorem run_transact_without (hready : s.Ready) {order : Tables → WriteOrder} {u : Update Nat}
    {n : Nat} {ids : List String} (hrun : u.apply s.database = (.ok n, s.database.without ids)) :
    s.run (StoreM.transact order u) = (.ok n, s.without ids) := by
  have hpages : (s.database.without ids).pages = none := hready.unlimited
  rw [run_transact_ok hready hrun, Database.settled_of_unlimited hpages]
  rfl

theorem run_deleteIds (hready : s.Ready) {ids : List String} (hne : ids ≠ []) :
    s.run (StoreM.deleteIds ids) =
      (.ok (s.database.tables.edges.rows.countP (Edge.isNamed ids)), s.without ids) := by
  have hempty : ¬ids.isEmpty = true := by simpa [List.isEmpty_iff] using hne
  rw [StoreM.deleteIds, if_neg hempty]
  exact run_transact_without hready (Update.apply_purge hready.complete hready.encoding ids)

theorem run_deleteObservations (hready : s.Ready) (dataset : String) {properties : List String}
    (hne : properties ≠ []) :
    ∃ n, s.run (StoreM.deleteObservations dataset properties) =
      (.ok n, s.without (s.database.tables.observationIds dataset properties)) := by
  have hempty : ¬properties.isEmpty = true := by simpa [List.isEmpty_iff] using hne
  have hrun := Update.apply_purgeObservations_of_has (hready.complete .edges) dataset properties
  rw [StoreM.deleteObservations, if_neg hempty]
  exact ⟨_, run_transact_without hready hrun⟩

end Store

end FactGraph
