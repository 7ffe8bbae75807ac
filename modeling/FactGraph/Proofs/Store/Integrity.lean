import FactGraph.Proofs.Store.Call
import FactGraph.Proofs.Store.Session

/-!
# Integrity over whole runs

A store is **intact** (`Store.Intact`) if it is ready and its tables are sound and can be read. A
change keeps databases intact (`Update.Keeps`) if its successes do, and an operation keeps stores
intact (`StoreM.Keeps`) whatever comes of it: a failure is undone. Each call that writes does
(`StoreM.covers_keeps`), so a store that was opened empty stays intact however it is written
(`Store.integrity_of_writes`).
-/

namespace FactGraph

/-- The database can be used as it is, and is sound. -/
structure Database.Intact (db : Database) : Prop where
  complete : db.Complete
  encoding : db.tables.encoding = .utf8
  unlimited : db.pages = none
  sound : db.tables.Sound
  readable : db.tables.Readable

/-- The store is ready to be written, and its tables are sound and can be read. -/
structure Store.Intact (s : Store) : Prop extends s.Ready where
  sound : s.database.tables.Sound
  readable : s.database.tables.Readable

theorem Store.Intact.database {s : Store} (h : s.Intact) : s.database.Intact :=
  ⟨h.complete, h.encoding, h.unlimited, h.sound, h.readable⟩

theorem Store.Intact.withDatabase {s : Store} (h : s.Intact) {db : Database} (hdb : db.Intact) :
    Store.Intact { s with database := db } where
  complete := hdb.complete
  encoding := hdb.encoding
  unlimited := hdb.unlimited
  writable := h.writable
  undoes := h.undoes
  idle := h.idle
  sound := hdb.sound
  readable := hdb.readable

/-! ## Changes -/

namespace Update

variable {α β : Type}

/-- If the change succeeds, an intact database stays intact. -/
def Keeps (u : Update α) : Prop :=
  ∀ db a changed, db.Intact → u.apply db = (.ok a, changed) → changed.Intact

theorem keeps_pure (a : α) : Keeps (pure a) := by
  intro db a' changed h hrun
  cases hrun
  exact h

theorem keeps_read (f : Database → Except StoreError α) : Keeps (read f) := by
  intro db a changed h hrun
  rw [apply_read] at hrun
  obtain ⟨-, rfl⟩ := Prod.mk.inj hrun
  exact h

theorem keeps_get : Keeps (get : Update Database) := by
  intro db a changed h hrun
  cases hrun
  exact h

theorem keeps_modify {f : Database → Database} (hf : ∀ db, db.Intact → (f db).Intact) :
    Keeps (modify f : Update Unit) := by
  intro db a changed h hrun
  cases hrun
  exact hf db h

theorem keeps_bind {u : Update α} {f : α → Update β} (hu : Keeps u) (hf : ∀ a, Keeps (f a)) :
    Keeps (u >>= f) := by
  intro db b changed h hrun
  obtain ⟨a, middle, hfirst, hrest⟩ := of_apply_bind_ok hrun
  exact hf a middle b changed (hu db a middle h hfirst) hrest

theorem keeps_forM {f : α → Update Unit} (hf : ∀ a, Keeps (f a)) (items : List α) :
    Keeps (items.forM f) := by
  induction items with
  | nil => exact keeps_pure ()
  | cons first rest ih => exact keeps_bind (hf first) fun _ => ih

theorem keeps_listed (f : Database → Option (List String)) :
    Keeps (modify fun db => { db with doomed := f db } : Update Unit) :=
  keeps_modify fun _ h => ⟨h.complete, h.encoding, h.unlimited, h.sound, h.readable⟩

theorem keeps_deleteEdges (isGone : List String → Edge → Bool) : Keeps (deleteEdges isGone) := by
  unfold deleteEdges
  refine keeps_bind (keeps_read _) fun _ => keeps_bind keeps_get fun _ =>
    keeps_bind (keeps_modify fun db h => ?_) fun _ => keeps_pure _
  exact ⟨h.complete, h.encoding, h.unlimited, h.sound.removeEdges _, h.readable.removeEdges _⟩

/-- **Removal keeps databases intact**: values go with their edges. -/
theorem keeps_purgeListed {list : Update Unit} (hlist : Keeps list) : Keeps (purgeListed list) := by
  unfold purgeListed purgeDoomed
  exact keeps_bind (keeps_listed _) fun _ => keeps_bind (keeps_listed _) fun _ =>
    keeps_bind hlist fun _ => keeps_bind (keeps_deleteEdges _) fun _ =>
      keeps_bind (keeps_deleteEdges _) fun _ => keeps_bind (keeps_listed _) fun _ => keeps_pure _

theorem keeps_doomEdges (edges : Tables → List Edge) : Keeps (doomEdges edges) :=
  keeps_bind (keeps_read _) fun _ => keeps_listed _

theorem keeps_purge (ids : List String) : Keeps (purge ids) :=
  keeps_purgeListed (keeps_forM (fun _ => keeps_listed _) ids)

theorem keeps_purgeObservations (dataset : String) (properties : List String) :
    Keeps (purgeObservations dataset properties) :=
  keeps_purgeListed (keeps_forM (fun _ => keeps_doomEdges _) properties)

/-- **Insertion keeps databases intact**: an edge comes with its value or not at all. -/
theorem keeps_insert (config : BatchConfig) (mode : InsertMode) {statements : List Statement}
    (hkind : ∀ x ∈ statements, x.edge.kind = x.value.kind) :
    Keeps (insert config mode statements) := by
  intro db stats changed h hrun
  -- That the insertion has succeeded says that its values could be stored, so each new edge has
  -- come with its value.
  obtain ⟨hnone, hstorable⟩ := of_apply_insert_ok h.complete h.encoding hrun
  have happly := apply_insert h.complete h.encoding h.sound config hnone hstorable
  have hadds := Tables.adds_withNews h.sound h.encoding statements
  have hnews : ∀ x ∈ db.tables.news statements, x.edge.kind = x.value.kind := fun x hx =>
    hkind x ((db.tables.newsAfter_sublist [] statements).subset hx)
  have hchanged : changed = db.withTables (db.tables.withNews statements) :=
    (Prod.ext_iff.1 (hrun.symm.trans happly)).2
  rw [hchanged]
  exact ⟨h.complete, hadds.encoding.trans h.encoding, h.unlimited,
    hadds.sound h.sound hnews hstorable, hadds.readable h.readable⟩

theorem keeps_replace (config : BatchConfig) (node : String) (predicates : List String)
    {statements : List Statement} (hkind : ∀ x ∈ statements, x.edge.kind = x.value.kind) :
    Keeps (replace config node predicates statements) := by
  unfold replace
  refine keeps_bind (keeps_purgeListed (keeps_bind ?_ fun _ => ?_)) fun _ =>
    keeps_insert config _ hkind
  · exact keeps_forM (fun _ => keeps_doomEdges _) predicates
  · exact keeps_forM (fun _ => keeps_listed _) statements

end Update

/-! ## Operations -/

namespace StoreM

/-- Whatever comes of the operation, an intact store stays intact. -/
def Keeps {α : Type} (operation : StoreM α) : Prop :=
  ∀ s : Store, s.Intact → (s.run operation).2.Intact

/-- A transaction keeps what its change keeps: a failure is undone. -/
theorem keeps_transact {α : Type} (order : Tables → WriteOrder) {u : Update α} (hu : u.Keeps) :
    Keeps (transact order u) := by
  intro s h
  rcases hrun : u.apply s.database with ⟨cause | a, changed⟩
  · rw [Store.run_transact_error h.toReady hrun]
    exact h
  · have hchanged := hu _ _ _ h.database hrun
    rw [Store.run_transact_ok h.toReady hrun, Database.settled_of_unlimited hchanged.unlimited]
    exact h.withDatabase hchanged

theorem kind_eq_of_checkStatements {statements : List Statement}
    (h : checkStatements statements = .ok ()) : ∀ x ∈ statements, x.edge.kind = x.value.kind :=
  fun x hx => Statement.kind_eq_of_check (checkStatements_eq_ok_iff.1 h x hx)

/-- **Every call keeps stores intact.** -/
theorem covers_keeps : Covers Keeps where
  answer := fun _ _ h => h
  map := by
    intro α β f x hx s h
    rw [Store.run_map]
    exact hx s h
  bind := fun hx hf s h =>
    hx.kept_bind (I := Store.Intact) h fun a hfirst => hf s a hfirst s h
  insertion := fun order config mode _ hcheck =>
    keeps_transact order (Update.keeps_insert config mode (kind_eq_of_checkStatements hcheck))
  replacement := fun order config node predicates _ hcheck => keeps_transact order
    (Update.keeps_replace config node predicates (kind_eq_of_checkStatements hcheck))
  removal := fun order ids => keeps_transact order (Update.keeps_purge ids)
  removalOfObservations := fun order dataset properties =>
    keeps_transact order (Update.keeps_purgeObservations dataset properties)

end StoreM

/-! ## Reading -/

namespace Database

variable {db : Database}

theorem require_of_complete (h : db.Complete) (table : TableName) (cause : StoreError) :
    db.require table cause = .ok () := by
  rw [require, h table, if_pos rfl]

theorem Intact.readEdge_eq (h : db.Intact) (e : Edge) : db.readEdge e = .ok e := by
  simp [readEdge, Tables.unknownTag?, h.sound.tagged]

theorem Intact.exists_valueOf (h : db.Intact) {e : Edge} (he : e ∈ db.tables.edges.rows) :
    ∃ v, db.valueOf e = .ok (some v) := by
  obtain ⟨row, hrow, hid⟩ := Table.contains_iff.1 (h.sound.valued e he)
  obtain ⟨v, hv⟩ := h.readable e.kind row hrow
  have hfind : (db.tables.values e.kind).find? e.id = some row :=
    Table.find?_eq_some_iff.2 ⟨hrow, hid⟩
  refine ⟨v, ?_⟩
  rw [valueOf, require_of_complete h.complete, Tables.value, hfind]
  simp [bind, Except.bind, hv, Except.map]

theorem Intact.edge_eq (h : db.Intact) {e : Edge} (he : e ∈ db.tables.edges.rows) :
    db.edge e.id = .ok e := by
  have hfind : db.tables.edges.find? e.id = some e := Table.find?_eq_some_iff.2 ⟨he, rfl⟩
  rw [edge, require_of_complete h.complete, Tables.kept_of_utf8 h.encoding, hfind]
  exact h.readEdge_eq e

/-- **A stored id can be read**, as a statement and as a value. -/
theorem Intact.exists_statement (h : db.Intact) {e : Edge} (he : e ∈ db.tables.edges.rows) :
    ∃ v, db.attach e = .ok ⟨e, v⟩ ∧ db.statement e.id = .ok ⟨e, v⟩ ∧
      db.value e.id = .ok (some v) := by
  obtain ⟨v, hv⟩ := h.exists_valueOf he
  have hattach : db.attach e = .ok ⟨e, v⟩ := by rw [attach, hv]; rfl
  refine ⟨v, hattach, ?_, ?_⟩
  · rw [statement, h.edge_eq he]
    exact hattach
  · rw [value, h.edge_eq he]
    exact hv

theorem exists_mapM_attach (h : db.Intact) {edges : List Edge}
    (hedges : ∀ e ∈ edges, e ∈ db.tables.edges.rows) :
    ∃ all, edges.mapM db.attach = .ok all ∧ all.map Statement.edge = edges := by
  induction edges with
  | nil => exact ⟨[], rfl, rfl⟩
  | cons e edges ih =>
    obtain ⟨v, hv, -⟩ := h.exists_statement (hedges e (List.mem_cons_self ..))
    obtain ⟨all, hall, hmap⟩ := ih fun x hx => hedges x (List.mem_cons_of_mem e hx)
    refine ⟨⟨e, v⟩ :: all, ?_, by rw [List.map_cons, hmap]⟩
    rw [List.mapM_cons, hv, hall]
    rfl

theorem Intact.allStatements_eq (h : db.Intact) :
    db.allStatements = db.tables.edges.rows.mapM db.attach := by
  have hlist : db.tables.edgeList = db.tables.edges.rows := by
    rw [Tables.edgeList, h.encoding]
    rfl
  have hread : db.readEdge = fun e => pure e := funext h.readEdge_eq
  rw [allStatements, require_of_complete h.complete, hlist, hread, List.mapM_pure, List.map_id']
  rfl

/-- **All statements can be read**: one for each edge. -/
theorem Intact.exists_allStatements (h : db.Intact) :
    ∃ all, db.allStatements = .ok all ∧ all.map Statement.edge = db.tables.edges.rows := by
  obtain ⟨all, hall, hmap⟩ := exists_mapM_attach h fun e he => he
  exact ⟨all, h.allStatements_eq.trans hall, hmap⟩

/-- **The integrity report of an intact database finds no fault.** -/
theorem Intact.checked_eq (h : db.Intact) :
    db.checked Tables.integrityReport = .ok ⟨db.tables.edges.size, ⟨0, 0, 0, 0⟩⟩ := by
  rw [checked, require_of_complete h.complete, h.sound.integrityReport_eq]
  simp [ValueKind.all, require_of_complete h.complete, bind, Except.bind, pure, Except.pure]

end Database

/-! ## Runs -/

namespace Store

variable {s : Store}

theorem Intact.afterCall (h : s.Intact) (call : WriteCall) : (s.afterCall call).Intact := by
  rw [afterCall_eq]
  exact StoreM.covers_keeps.operation call s h

/-- **A run keeps stores intact.** -/
theorem Intact.after (h : s.Intact) (calls : List WriteCall) : (s.after calls).Intact := by
  induction calls generalizing s with
  | nil => exact h
  | cons call calls ih => exact ih (h.afterCall call)

theorem intact_fresh (withoutMigrations inFile : Bool) (batch : BatchConfig)
    (insertMode : InsertMode) (now : String) :
    (fresh withoutMigrations inFile batch insertMode now).Intact where
  toReady := ready_fresh withoutMigrations inFile batch insertMode now
  sound := sound_fresh withoutMigrations inFile batch insertMode now
  readable := by cases withoutMigrations <;> exact Tables.readable_empty

/-- **However a store that was opened empty is written, it keeps its integrity.** Every edge has one
value over all tables, in the table of its kind; no value is without its edge; ids are unique; the
check reports no fault, and all that is stored can be read. -/
theorem integrity_of_writes (withoutMigrations inFile : Bool) (batch : BatchConfig)
    (insertMode : InsertMode) (now : String) :
    ∃ opened, (openDatabase ⟨withoutMigrations, none, inFile, [], batch, insertMode⟩ now
        .empty).1 = .ok opened ∧
      ∀ calls : List WriteCall,
        let db := (opened.after calls).database
        let t := db.tables
        (∀ e ∈ t.edges.rows, t.kindOf? e = some e.kind ∧ e.id ∈ t.valueIds e.kind ∧
          (ValueKind.all.flatMap t.valueIds).count e.id = 1) ∧
        (∀ kind, ∀ id ∈ t.valueIds kind, ∃ e ∈ t.edges.rows, e.id = id) ∧
        (t.edges.rows.map Edge.id).Nodup ∧
        (∃ report, db.checked Tables.integrityReport = .ok report ∧ report.hasIssues = false) ∧
        (∃ all, db.allStatements = .ok all ∧ all.map Statement.edge = t.edges.rows) ∧
        ∀ e ∈ t.edges.rows, ∃ v, db.statement e.id = .ok ⟨e, v⟩ ∧ db.value e.id = .ok (some v) := by
  refine ⟨_, openDatabase_empty withoutMigrations inFile batch insertMode now, ?_⟩
  intro calls
  have h := (intact_fresh withoutMigrations inFile batch insertMode now).after calls
  refine ⟨fun e he => ⟨h.sound.kindOf?_eq e, ?_, h.sound.count_valueIds he⟩, ?_,
    Table.nodup_keys _, ⟨_, h.database.checked_eq, rfl⟩, h.database.exists_allStatements, ?_⟩
  · exact Tables.mem_valueIds.2 (h.sound.valued e he)
  · intro kind id hid
    obtain ⟨row, hrow, rfl⟩ := Table.contains_iff.1 (Tables.mem_valueIds.1 hid)
    obtain ⟨e, he, hrowId, -⟩ := h.sound.owned kind row hrow
    exact ⟨e, he, hrowId⟩
  · intro e he
    obtain ⟨v, -, hv⟩ := h.database.exists_statement he
    exact ⟨v, hv⟩

end Store

end FactGraph
