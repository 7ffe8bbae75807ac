import FactGraph.Proofs.Store.Reading

/-!
# What a replacement does

A replacement removes what a node says under some predicates, except for the statements that are to
be said, and then inserts those. **What is left** (`Database.Replaced`): whatever the node says
under the predicates is one of the statements, each statement is there or another of the same id,
and the other nodes are as they were. This holds if no id of a statement stands for anything else in
the database before (`Database.Admits`); an edge that stands in the way otherwise is neither removed
nor replaced.
-/

namespace FactGraph

namespace Tables

variable {t : Tables} {node : String} {predicates staying : List String} {id : String}

theorem mem_staleIds (h : t.encoding = .utf8) : id ∈ t.staleIds node predicates staying ↔
    id ∉ staying ∧ ∃ e ∈ t.edges.rows, e.id = id ∧ e.node1 = node ∧ e.label ∈ predicates := by
  have hkept : staying.map t.kept = staying := by
    rw [funext (kept_of_utf8 h), List.map_id']
  have hlist : t.edgeList = t.edges.rows := by
    rw [edgeList, h]
    rfl
  simp only [staleIds, hkept, List.mem_filter, List.mem_flatMap, List.mem_map, lookup, hlist,
    kept_of_utf8 h, decide_eq_true_eq]
  constructor
  · rintro ⟨⟨p, hp, e, ⟨he, hnode, hlabel⟩, hid⟩, hstays⟩
    exact ⟨hstays, e, he, hid, hnode, hlabel ▸ hp⟩
  · rintro ⟨hstays, e, he, hid, hnode, hlabel⟩
    exact ⟨⟨e.label, hlabel, e, ⟨he, hnode, rfl⟩, hid⟩, hstays⟩

/-- The tables without the stale edges and those about them. -/
def cleared (t : Tables) (node : String) (predicates : List String) (statements : List Statement) :
    Tables :=
  t.removeEdges (Edge.isNamed (t.staleIds node predicates (Statement.ids statements)))

end Tables

namespace Update

variable {db changed : Database} {config : BatchConfig} {node : String} {predicates : List String}
  {statements : List Statement} {stats : ImportStats}

theorem foldl_filter_ne (gone ids : List String) :
    gone.foldl (fun ids id => ids.filter (· ≠ id)) ids = ids.filter (· ∉ gone) := by
  induction gone generalizing ids with
  | nil => simp
  | cons id gone ih =>
    rw [List.foldl_cons, ih, List.filter_filter]
    exact List.filter_congr fun x _ => by simp [Bool.and_comm]

/-- A replacement lists the edges of the node under the predicates, less the statements. -/
theorem lists_staleIds (node : String) (predicates : List String) (statements : List Statement) :
    Lists (do
        predicates.forM fun p => doomEdges (·.lookup node p)
        statements.forM fun s => spare s.edge.id)
      fun t ids => (ids ++ predicates.flatMap fun p => (t.lookup node p).map Edge.id).filter
        fun id => id ∉ (Statement.ids statements).map t.kept := by
  have hspared (t : Tables) (ids : List String) :
      statements.foldl (fun ids s => ids.filter (· ≠ t.kept s.edge.id)) ids =
        ids.filter (· ∉ (Statement.ids statements).map t.kept) := by
    rw [← foldl_filter_ne, Statement.ids, List.map_map, List.foldl_map]
    rfl
  have hlists := (Lists.forM_append (fun p => lists_doomEdges (·.lookup node p)) predicates).bind
    (Lists.forM (fun s : Statement => lists_spare s.edge.id) statements)
  simpa only [hspared] using hlists

/-- **A replacement removes and then inserts.** -/
theorem apply_replace (hedges : db.has .edges = true) :
    (replace config node predicates statements).apply db =
      (insert config .idempotent statements).apply
        (db.without (db.tables.staleIds node predicates (Statement.ids statements))) :=
  apply_bind_ok ((lists_staleIds node predicates statements).apply_purgeListed hedges)

theorem of_apply_replace_ok (hcomplete : db.Complete) (hencoding : db.tables.encoding = .utf8)
    (hsound : db.tables.Sound)
    (hrun : (replace config node predicates statements).apply db = (.ok stats, changed)) :
    let removed := db.without (db.tables.staleIds node predicates (Statement.ids statements))
    let news := removed.tables.news statements
    (∀ x ∈ news, Storable x) ∧
      stats = ⟨news.length, statements.length - news.length, news.length⟩ ∧
      changed = removed.withTables (removed.tables.withNews statements) := by
  intro removed news
  have hall : removed.Complete := hcomplete
  have hutf8 : removed.tables.encoding = .utf8 := hencoding
  -- After the removal a replacement is an insertion, of which it is known when it succeeds.
  rw [apply_replace (hcomplete .edges)] at hrun
  obtain ⟨hnone, hstorable⟩ := of_apply_insert_ok hall hutf8 hrun
  have happly := apply_insert hall hutf8 (hsound.removeEdges _) config hnone hstorable
  obtain ⟨hstats, hchanged⟩ := Prod.mk.inj (hrun.symm.trans happly)
  exact ⟨hstorable, Except.ok.inj hstats, hchanged⟩

theorem apply_replace_of_storable (config : BatchConfig) (node : String) (predicates : List String)
    (hcomplete : db.Complete) (hencoding : db.tables.encoding = .utf8) (hsound : db.tables.Sound)
    (hstorable : ∀ x ∈ statements, Storable x) :
    let removed := db.without (db.tables.staleIds node predicates (Statement.ids statements))
    let news := removed.tables.news statements
    (replace config node predicates statements).apply db =
      (.ok ⟨news.length, statements.length - news.length, news.length⟩,
        removed.withTables (removed.tables.withNews statements)) := by
  intro removed news
  have hall : removed.Complete := hcomplete
  have hutf8 : removed.tables.encoding = .utf8 := hencoding
  rw [apply_replace (hcomplete .edges)]
  exact apply_insert hall hutf8 (hsound.removeEdges _) config
    (Tables.conflict?_idempotent statements)
    fun x hx => hstorable x ((Tables.newsAfter_sublist _ [] statements).subset hx)

end Update

namespace Database

variable {db other : Database} {node : String} {predicates stale : List String}
  {statements : List Statement} {x : Statement} {e : Edge}

/-- The database `other` has come from `db` by removing the edges that are named by the stale ids
and inserting the statements. -/
structure Exchanged (db : Database) (stale : List String) (statements : List Statement)
    (other : Database) : Prop where
  kept : ∀ e ∈ db.tables.edges.rows, e.isNamed stale = false →
    e ∈ other.tables.edges.rows ∧ other.attach e = db.attach e
  cases : ∀ e ∈ other.tables.edges.rows,
    (e ∈ db.tables.edges.rows ∧ e.isNamed stale = false) ∨
      ∃ x ∈ statements, x.edge = e ∧ other.tables.Stores x
  said : ∀ x ∈ statements,
    (∃ e ∈ db.tables.edges.rows, e.id = x.edge.id ∧ e.isNamed stale = false) ∨
      ∃ y ∈ statements, y.edge.id = x.edge.id ∧ other.tables.Stores y

/-- Whatever is stored under the id of one of the statements is that statement. -/
def Admits (db : Database) (statements : List Statement) : Prop :=
  ∀ x ∈ statements, ∀ y, db.statement x.edge.id = .ok y → y = x

/-- The database `other` has come from `db` by putting the statements in the place of what the node
says under the predicates. -/
structure Replaced (db : Database) (node : String) (predicates : List String)
    (statements : List Statement) (other : Database) : Prop where
  own : ∀ e ∈ other.tables.edges.rows, e.node1 = node → e.label ∈ predicates →
    ∃ x ∈ statements, x.edge = e ∧ other.Holds x
  said : ∀ x ∈ statements, ∃ y ∈ statements, y.edge.id = x.edge.id ∧ other.Holds y
  others : ∀ n ≠ node, (∀ e ∈ db.tables.edges.rows, e.id = n → e ∈ other.tables.edges.rows) →
    db.AgreeOn other n

/-- An edge that stays under the id of a statement is its edge, and is read as it says. -/
theorem Exchanged.holds_of_id (hex : db.Exchanged stale statements other) (h : db.Intact)
    (hadmits : db.Admits statements) (hx : x ∈ statements) (he : e ∈ db.tables.edges.rows)
    (hid : e.id = x.edge.id) (hstays : e.isNamed stale = false) :
    x.edge = e ∧ other.Holds x := by
  obtain ⟨v, hattach, hstatement, -⟩ := h.exists_statement he
  obtain rfl := hadmits x hx _ (hid ▸ hstatement)
  obtain ⟨heOther, hattachOther⟩ := hex.kept e he hstays
  exact ⟨rfl, heOther, hattachOther.trans hattach⟩

/-- Edges of other nodes are not named, unless the node is the id of an edge that goes. -/
theorem Intact.isNamed_of_other (h : db.Intact) {n : String} (hn : n ≠ node)
    (hremains : ∀ e ∈ db.tables.edges.rows, e.id = n → e ∈ other.tables.edges.rows)
    (hown : ∀ e ∈ other.tables.edges.rows, e.node1 = node → e.label ∈ predicates →
      ∃ x ∈ statements, x.edge = e ∧ other.Holds x)
    (he : e ∈ db.tables.edges.rows) (hnode : e.node1 = n) :
    e.isNamed (db.tables.staleIds node predicates (Statement.ids statements)) = false := by
  refine Edge.isNamed_eq_false_iff.2 ⟨fun hmem => hn ?_, fun hmem => ?_⟩
  · obtain ⟨-, own, hmemOwn, hid, hownNode, -⟩ := (Tables.mem_staleIds h.encoding).1 hmem
    rw [← hnode, ← hownNode, Table.eq_of_key_eq hmemOwn he hid]
  · obtain ⟨hstays, gone, hgone, hid, hgoneNode, hlabel⟩ :=
      (Tables.mem_staleIds h.encoding).1 hmem
    obtain ⟨x, hx, rfl, -⟩ := hown gone (hremains gone hgone (hid.trans hnode)) hgoneNode hlabel
    exact hstays (List.mem_map.2 ⟨x, hx, hid⟩)

variable (hex : db.Exchanged (db.tables.staleIds node predicates (Statement.ids statements))
  statements other) (h : db.Intact)

include hex h

theorem Exchanged.own (hadmits : db.Admits statements)
    (hholds : ∀ x ∈ statements, other.tables.Stores x → other.Holds x)
    (he : e ∈ other.tables.edges.rows) (hnode : e.node1 = node) (hlabel : e.label ∈ predicates) :
    ∃ x ∈ statements, x.edge = e ∧ other.Holds x := by
  rcases hex.cases e he with ⟨he, hstays⟩ | ⟨x, hx, rfl, hstores⟩
  · have hid : e.id ∈ Statement.ids statements := by
      by_contra hnone
      exact (Edge.isNamed_eq_false_iff.1 hstays).1
        ((Tables.mem_staleIds h.encoding).2 ⟨hnone, e, he, rfl, hnode, hlabel⟩)
    obtain ⟨x, hx, hid⟩ := List.mem_map.1 hid
    exact ⟨x, hx, hex.holds_of_id h hadmits hx he hid.symm hstays⟩
  · exact ⟨x, hx, rfl, hholds x hx hstores⟩

/-- **An exchange that the database admits is a replacement.** -/
theorem Exchanged.replaced (hother : other.Intact) (hadmits : db.Admits statements)
    (hnode : ∀ x ∈ statements, x.edge.node1 = node)
    (hholds : ∀ x ∈ statements, other.tables.Stores x → other.Holds x) :
    db.Replaced node predicates statements other := by
  have hown (e : Edge) := hex.own (e := e) h hadmits hholds
  refine ⟨hown, fun x hx => ?_, fun n hn hremains => ?_⟩
  · -- A statement is said by an edge that had its id and stays, or by the first statement of the
    -- list with its id.
    rcases hex.said x hx with ⟨e, he, hid, hstays⟩ | ⟨y, hy, hid, hstores⟩
    · exact ⟨x, hx, rfl, (hex.holds_of_id h hadmits hx he hid hstays).2⟩
    · exact ⟨y, hy, hid, hholds y hy hstores⟩
  · have hstays {e : Edge} := h.isNamed_of_other (e := e) hn hremains hown
    refine h.agreeOn hother (fun e hnode1 => ⟨fun he => ?_, fun he => ?_⟩)
      fun e he hnode1 => (hex.kept e he (hstays he hnode1)).2
    · rcases hex.cases e he with ⟨he, -⟩ | ⟨x, hx, rfl, -⟩
      · exact he
      · exact absurd (hnode1.symm.trans (hnode x hx)) hn
    · exact (hex.kept e he (hstays he hnode1)).1

end Database

namespace Store

variable {s s' : Store} {node : String} {predicates : List String} {statements : List Statement}
  {stats : ImportStats}

/-- **In a store that is ready, statements that are in order and can be stored can be put in the
place of any others.** -/
theorem Ready.run_replace (h : s.Ready) (hsound : s.database.tables.Sound) (node : String)
    (predicates : List String) (hcheck : ∀ x ∈ statements, x.check = .ok ())
    (hstorable : ∀ x ∈ statements, Update.Storable x) :
    let cleared := s.database.tables.cleared node predicates statements
    let news := cleared.news statements
    s.run (StoreM.replace node predicates statements) =
      (.ok ⟨news.length, statements.length - news.length, news.length⟩, { s with
        database := { s.database with
          tables := cleared.withNews statements, doomed := some [] } }) := by
  intro cleared news
  have hchecked : s.run (liftM (checkStatements statements) : StoreM Unit) = (.ok (), s) := by
    rw [run_liftExcept, checkStatements_eq_ok_iff.2 hcheck]
  have happly := Update.apply_replace_of_storable s.batch node predicates h.complete h.encoding
    hsound hstorable
  have hsettled (ids : List String) (t : Tables) :
      ((s.database.without ids).withTables t).settled = (s.database.without ids).withTables t :=
    Database.settled_of_unlimited h.unlimited
  rw [StoreM.replace, run_bind_ok hchecked, run_bind_ok run_get, run_transact_ok h happly, hsettled]
  rfl

theorem Intact.exists_run_replace (h : s.Intact) (node : String) (predicates : List String)
    (hcheck : ∀ x ∈ statements, x.check = .ok ())
    (hstorable : ∀ x ∈ statements, Update.Storable x) :
    ∃ stats s', s.run (StoreM.replace node predicates statements) = (.ok stats, s') :=
  ⟨_, _, h.toReady.run_replace h.sound node predicates hcheck hstorable⟩

/-- **What a replacement that succeeds has done**, whatever the engine. -/
theorem of_run_replace_ok (hcomplete : s.database.Complete)
    (hencoding : s.database.tables.encoding = .utf8) (hsound : s.database.tables.Sound)
    (hrun : s.run (StoreM.replace node predicates statements) = (.ok stats, s')) :
    let cleared := s.database.tables.cleared node predicates statements
    let news := cleared.news statements
    (∀ x ∈ news, x.check = .ok () ∧ Update.Storable x) ∧
      stats = ⟨news.length, statements.length - news.length, news.length⟩ ∧
      ∃ pages, s' = { s with database := { s.database with
        tables := cleared.withNews statements, doomed := some [], pages := pages } } := by
  intro cleared news
  rw [StoreM.replace] at hrun
  obtain ⟨_, hcheck, hrun⟩ := of_run_liftExcept_ok hrun
  rw [run_bind_ok run_get] at hrun
  obtain ⟨changed, pages, happly, rfl⟩ := of_run_transact_ok hrun
  obtain ⟨hstorable, rfl, rfl⟩ := Update.of_apply_replace_ok hcomplete hencoding hsound happly
  refine ⟨fun x hx => ⟨?_, hstorable x hx⟩, rfl, pages, rfl⟩
  exact checkStatements_eq_ok_iff.1 hcheck x ((Tables.newsAfter_sublist _ [] statements).subset hx)

theorem Intact.of_run_replace_ok (h : s.Intact)
    (hrun : s.run (StoreM.replace node predicates statements) = (.ok stats, s')) :
    let cleared := s.database.tables.cleared node predicates statements
    (∀ x ∈ cleared.news statements, Update.Storable x) ∧
      cleared.Adds (cleared.news statements) s'.database.tables := by
  intro cleared
  obtain ⟨hnews, -, pages, rfl⟩ := Store.of_run_replace_ok h.complete h.encoding h.sound hrun
  exact ⟨fun x hx => (hnews x hx).2,
    Tables.adds_withNews (h.sound.removeEdges _) h.encoding statements⟩

theorem Intact.of_replace (h : s.Intact)
    (hrun : s.run (StoreM.replace node predicates statements) = (.ok stats, s')) : s'.Intact := by
  have hkeeps := StoreM.covers_keeps.replace node predicates statements s h
  rwa [hrun] at hkeeps

/-- **A replacement that succeeds exchanges edges for statements.** -/
theorem Intact.exchanged (h : s.Intact)
    (hrun : s.run (StoreM.replace node predicates statements) = (.ok stats, s')) :
    s.database.Exchanged (s.database.tables.staleIds node predicates (Statement.ids statements))
      statements s'.database := by
  obtain ⟨hstorable, hadds⟩ := h.of_run_replace_ok hrun
  have hafter := h.of_replace hrun
  refine ⟨fun e he hstays => ?_, fun e he => ?_, fun x hx => ?_⟩
  · have heAfter : e ∈ s'.database.tables.edges.rows :=
      (hadds.edges e).2 (.inl (Tables.mem_edges_removeEdges.2 ⟨he, hstays⟩))
    refine ⟨heAfter, h.database.attach_congr hafter.database he heAfter fun row hrow hid => ?_⟩
    exact (hadds.values _ row).2 (.inl (Tables.mem_values_removeEdges he hstays hrow hid))
  · rcases (hadds.edges e).1 he with he | ⟨x, hx, rfl⟩
    · exact .inl (Tables.mem_edges_removeEdges.1 he)
    · exact .inr ⟨x, (Tables.newsAfter_sublist _ [] statements).subset hx, rfl,
        hadds.stores hx (hstorable x hx)⟩
  · -- Either an edge with the id has stayed, or the first statement with the id is new and has come
    -- in.
    cases hstored : (s.database.tables.cleared node predicates statements).containsEdge
      x.edge.id with
    | true =>
      rw [Tables.containsEdge_of_utf8 (by exact h.encoding)] at hstored
      obtain ⟨e, he, hid⟩ := Table.contains_iff.1 hstored
      obtain ⟨he, hstays⟩ := Tables.mem_edges_removeEdges.1 he
      exact .inl ⟨e, he, hid, hstays⟩
    | false =>
      obtain ⟨y, hfirst, hid⟩ := Statement.exists_isFirst hx
      rw [← hid] at hstored
      have hy := Tables.mem_news_iff.2 ⟨hstored, hfirst⟩
      exact .inr ⟨y, hfirst.mem, hid, hadds.stores hy (hstorable y hy)⟩

end Store

end FactGraph
