import FactGraph.Proofs.Schema.Migration
import FactGraph.Proofs.Store.Ownership
import FactGraph.Proofs.Store.Replacement

/-!
# How long a statement stays

A database **retains** a statement (`Database.Retains`) if it has its edge and the columns of its
value, and can read them. A step of a session **spares** an edge (`Store.Spares`) if it leaves the
database as it is, or does not name the edge and leaves it there.

**What is retained stays retained until its edge is removed** (`Store.Follows.retains`): each step
that spares the edge preserves it, whether it succeeds or fails, and so does closing the store and
opening it again. An edge that is removed and added again in one step is not spared, although it is
there before and after: the new edge may have another value.
-/

namespace FactGraph

variable {x : Statement}

/-! ## Tables -/

namespace Tables

variable {t : Tables}

theorem Stores.addEdge (h : t.Stores x) (e : Edge) : (t.addEdge e).Stores x := by
  obtain ⟨kind, row, hrow, hmem⟩ := h.value
  refine ⟨Table.mem_insert.2 (.inl h.edge), kind, row, hrow, ?_⟩
  rw [show (t.addEdge e).values kind = t.values kind by cases kind <;> rfl]
  exact hmem

theorem Stores.addValue (h : t.Stores x) {kind : ValueKind} (row : ValueRow kind) :
    (t.addValue row).Stores x := by
  obtain ⟨own, ownRow, hown, hmem⟩ := h.value
  refine ⟨?_, own, ownRow, hown, ?_⟩
  · rw [Tables.addValue, setValues_edges]
    exact h.edge
  · by_cases hkind : kind = own
    · subst hkind
      rw [Tables.addValue, values_setValues]
      exact Table.mem_insert.2 (.inl hmem)
    · rw [Tables.addValue, values_setValues_of_ne t hkind]
      exact hmem

end Tables

/-! ## Databases -/

namespace Database

variable {db db' : Database}

theorem Extends.has (h : db'.Extends db) {table : TableName} (hhas : db.has table = true) :
    db'.has table = true := by
  simp only [Database.has, Bool.and_eq_true, decide_eq_true_eq, h.lost] at hhas ⊢
  exact ⟨h.schema hhas.1, hhas.2⟩

/-- The statement is stored under an id that is as it is written, in tables that can be used, and
its edge has the kind of its value. -/
structure Retains (db : Database) (x : Statement) : Prop where
  edges : db.has .edges = true
  values : db.has (.values x.value.kind) = true
  stores : db.tables.Stores x
  tag : db.tables.unknownTag? x.edge = none
  id : db.tables.kept x.edge.id = x.edge.id
  kind : x.edge.kind = x.value.kind

/-- **What is retained is read from its columns.** -/
theorem Retains.statement_eq (h : db.Retains x) (hnumbers : x.value.hasNaN = false)
    (hunit : x.value.HasPlainUnit) : db.statement x.edge.id = .ok x.unsignedZeros := by
  have hedge : db.edge x.edge.id = .ok x.edge := by
    rw [edge_eq_readEdge h.stores.edge h.id, require, if_pos h.edges]
    show db.readEdge x.edge = _
    rw [readEdge, h.tag]
  -- The row of the statement is the only one under its id, and says the value but for the signs of
  -- zeros.
  obtain ⟨kind, row, hrow, hmem⟩ := h.stores.value
  obtain ⟨stored, hstored, hsame⟩ := Option.map_eq_some_iff.1 hrow
  cases hsame
  have hvalue : db.tables.value x.value.kind x.edge.id = .ok (some x.value.unsignedZeros) := by
    rw [Tables.value, Table.find?_eq_some_iff.2 ⟨hmem, rfl⟩]
    simp only [StoredValue.toValue_ofValue? hnumbers hunit hstored]
    rfl
  have hattach : db.attach x.edge = .ok x.unsignedZeros := by
    rw [attach, valueOf, require, h.kind, if_pos h.values]
    simp only [bind, Except.bind, hvalue]
    rfl
  rw [statement, hedge]
  exact hattach

theorem Retains.of_extends (db db' : Database) (h : db.Retains x) (hextends : db'.Extends db) :
    db'.Retains x := by
  have htables := hextends.tables
  exact ⟨hextends.has h.edges, hextends.has h.values, by rw [htables]; exact h.stores,
    by rw [htables]; exact h.tag, by rw [htables]; exact h.id, h.kind⟩

theorem Retains.reopened (h : db.Retains x) (encoding : TextEncoding) :
    (db.reopened encoding).Retains x := by
  have hschema : db.schema ≠ .empty := by
    intro hnone
    have hedges := h.edges
    simp [has, hnone, Schema.empty] at hedges
  unfold Database.reopened
  rw [if_neg hschema]
  exact Retains.of_extends _ _ h ⟨rfl, List.Subset.refl _, rfl⟩

theorem Retains.addEdge (h : db.Retains x) (e : Edge) :
    Retains { db with tables := db.tables.addEdge e } x :=
  ⟨h.edges, h.values, h.stores.addEdge e, h.tag, h.id, h.kind⟩

theorem Retains.addValue (h : db.Retains x) {kind : ValueKind} (row : ValueRow kind) :
    Retains { db with tables := db.tables.addValue row } x := by
  refine ⟨h.edges, h.values, h.stores.addValue row, ?_, ?_, h.kind⟩
  · show (db.tables.addValue row).unknownTags.lookup x.edge.id = none
    rw [Tables.addValue, Tables.setValues_unknownTags]
    exact h.tag
  · show (db.tables.addValue row).encoding.kept x.edge.id = x.edge.id
    rw [Tables.addValue, Tables.setValues_encoding]
    exact h.id

theorem Retains.without (h : db.Retains x) {ids : List String}
    (hunnamed : x.edge.isNamed ids = false) : (db.without ids).Retains x :=
  ⟨h.edges, h.values, h.stores.removeEdges hunnamed,
    (Tables.unknownTag?_removeEdges h.stores.edge hunnamed).trans h.tag, h.id, h.kind⟩

theorem opens_retains (x : Statement) : Opens (·.Retains x) where
  reopened := fun _ encoding h => h.reopened encoding
  withPages := fun _ _ h => Retains.of_extends _ _ h ⟨rfl, List.Subset.refl _, rfl⟩
  ensureBase := Update.preserves_ensureBase Retains.of_extends
  makeSteps := Update.preserves_makeSteps Retains.of_extends

theorem not_retains_empty : ¬empty.Retains x := fun h => nomatch h.edges

end Database

/-! ## Changes -/

namespace Update

variable {α : Type}

/-- The change keeps what the ids of tables do not name. -/
def KeepsUnnamed (ids : Tables → List String) (u : Update α) : Prop :=
  ∀ (db : Database) (x : Statement), db.Retains x →
    x.edge.isNamed (ids db.tables) = false → (u.apply db).2.Retains x

theorem retains_insert (config : BatchConfig) (mode : InsertMode) (statements : List Statement) :
    (insert config mode statements).Preserves (·.Retains x) :=
  preserves_insert (fun _ e h _ => h.addEdge e) (fun _ _ row h => h.addValue row) config mode
    statements

theorem keepsUnnamed_insert (config : BatchConfig) (mode : InsertMode)
    (statements : List Statement) : (insert config mode statements).KeepsUnnamed fun _ => [] :=
  fun db _ h _ => retains_insert config mode statements db h

theorem keepsUnnamed_purge (ids : List String) :
    (purge ids).KeepsUnnamed fun t => ids.map t.kept := by
  intro db x h hunnamed
  rw [apply_purge_of_has h.edges]
  exact h.without hunnamed

theorem keepsUnnamed_purgeObservations (dataset : String) (properties : List String) :
    (purgeObservations dataset properties).KeepsUnnamed
      fun t => t.observationIds dataset properties := by
  intro db x h hunnamed
  rw [apply_purgeObservations_of_has h.edges]
  exact h.without hunnamed

theorem keepsUnnamed_replace (config : BatchConfig) (node : String) (predicates : List String)
    (statements : List Statement) :
    (replace config node predicates statements).KeepsUnnamed
      fun t => t.staleIds node predicates (Statement.ids statements) := by
  intro db x h hunnamed
  rw [apply_replace h.edges]
  exact retains_insert _ _ _ _ (h.without hunnamed)

end Update

/-! ## Calls -/

/-- The ids that a replacement removes, unless the statements could not be made. -/
def Tables.replacedIds (t : Tables) (node : String) (predicates : List String) :
    Except StoreError (List Statement) → List String
  | .ok statements => t.staleIds node predicates (Statement.ids statements)
  | .error _ => []

/-- The ids by which a call names what it removes: it is given them, and names them as they are
written, or finds them in the tables. -/
def WriteCall.namedIds (t : Tables) : WriteCall → List String
  | insert _ _ => []
  | replace node predicates statements => t.replacedIds node predicates (.ok statements)
  | deleteIds ids => ids.map t.kept
  | deleteObservations dataset properties => t.observationIds dataset properties
  | putDataset d => t.replacedIds d.node Dataset.fields d.statements
  | putVariable v => t.replacedIds v.node Variable.fields v.statements
  | putProperty q => t.replacedIds q.property QualifierProperty.fields q.statements

namespace StoreM

variable {α : Type} {ids : Tables → List String}

/-- The operation does nothing, or makes a transaction of a change that keeps what the ids do not
name. -/
def KeepsUnnamed (ids : Tables → List String) (operation : StoreM α) : Prop :=
  ∀ s : Store, (s.run operation).2 = s ∨
    ∃ (β : Type) (order : Tables → WriteOrder) (u : Update β),
      (s.run operation).2 = (s.run (transact order u)).2 ∧ u.KeepsUnnamed ids

theorem keepsUnnamed_transact {u : Update α} (order : Tables → WriteOrder)
    (hu : u.KeepsUnnamed ids) : KeepsUnnamed ids (transact order u) :=
  fun _ => .inr ⟨α, order, u, rfl, hu⟩

theorem keepsUnnamed_discard {x : StoreM α} (hx : KeepsUnnamed ids x) :
    KeepsUnnamed ids (discard x) := by
  intro s
  rw [Store.run_discard]
  exact hx s

/-- After an operation that only reads, what follows may use its answer. -/
theorem keepsUnnamed_bind {β : Type} {x : StoreM α} {f : α → StoreM β} (hx : ReadsOnly x)
    (hf : ∀ (s : Store) (a : α), s.run x = (.ok a, s) → KeepsUnnamed ids (f a)) :
    KeepsUnnamed ids (x >>= f) := by
  intro s
  rcases hx.run_bind_cases f s with ⟨cause, hrun⟩ | ⟨a, hfirst, hrun⟩ <;> rw [hrun]
  · exact .inl rfl
  · exact hf s a hfirst s

theorem keepsUnnamed_insert (mode : InsertMode) (statements : List Statement) :
    KeepsUnnamed (fun _ => []) (insert mode statements) := by
  unfold insert
  split
  · exact fun _ => .inl rfl
  · exact keepsUnnamed_bind (readsOnly_liftExcept _) fun _ _ _ =>
      keepsUnnamed_bind readsOnly_get fun _ _ _ =>
        keepsUnnamed_transact _ (Update.keepsUnnamed_insert _ _ _)

theorem keepsUnnamed_replace (node : String) (predicates : List String)
    (statements : List Statement) :
    KeepsUnnamed (fun t => t.replacedIds node predicates (.ok statements))
      (replace node predicates statements) := by
  unfold replace
  exact keepsUnnamed_bind (readsOnly_liftExcept _) fun _ _ _ =>
    keepsUnnamed_bind readsOnly_get fun _ _ _ =>
      keepsUnnamed_transact _ (Update.keepsUnnamed_replace _ _ _ _)

theorem keepsUnnamed_replace_lift (node : String) (predicates : List String)
    (statements : Except StoreError (List Statement)) :
    KeepsUnnamed (fun t => t.replacedIds node predicates statements)
      (do replace node predicates (← statements)) := by
  refine keepsUnnamed_bind (readsOnly_liftExcept _) fun s made hmade => ?_
  rw [Store.run_liftExcept] at hmade
  rw [(Prod.mk.inj hmade).1]
  exact keepsUnnamed_replace node predicates made

theorem keepsUnnamed_putVariable (v : Variable) :
    KeepsUnnamed (fun t => t.replacedIds v.node Variable.fields v.statements) (putVariable v) := by
  have hput := keepsUnnamed_replace_lift v.node Variable.fields v.statements
  unfold putVariable
  refine keepsUnnamed_bind (readsOnly_read _) fun _ dataset _ => ?_
  split
  · exact keepsUnnamed_bind (readsOnly_throw _) fun _ _ _ => hput
  · exact hput

/-- **Every call keeps what it does not name.** -/
theorem keepsUnnamed_operation (call : WriteCall) :
    KeepsUnnamed (fun t => call.namedIds t) call.operation := by
  cases call with
  | insert mode statements => exact keepsUnnamed_discard (keepsUnnamed_insert mode statements)
  | replace node predicates statements =>
    exact keepsUnnamed_discard (keepsUnnamed_replace node predicates statements)
  | deleteIds ids =>
    refine keepsUnnamed_discard ?_
    unfold deleteIds
    split
    · exact fun _ => .inl rfl
    · exact keepsUnnamed_transact _ (Update.keepsUnnamed_purge ids)
  | deleteObservations dataset properties =>
    refine keepsUnnamed_discard ?_
    unfold deleteObservations
    split
    · exact fun _ => .inl rfl
    · exact keepsUnnamed_transact _ (Update.keepsUnnamed_purgeObservations dataset properties)
  | putDataset d => exact keepsUnnamed_discard (keepsUnnamed_replace_lift _ _ _)
  | putVariable v => exact keepsUnnamed_discard (keepsUnnamed_putVariable v)
  | putProperty q => exact keepsUnnamed_discard (keepsUnnamed_replace_lift _ _ _)

end StoreM

/-! ## Sessions -/

/-- The ids by which a step names what it removes. -/
def SessionStep.namedIds (t : Tables) : SessionStep → List String
  | write call => call.namedIds t
  | beginTransaction | commit | rollback | migrate _ => []

namespace Store

variable {s s' : Store}

/-- The step does not remove the edge: it leaves the database as it is, or it does not name the
edge, which is there afterwards. -/
def Spares (s : Store) (step : SessionStep) (e : Edge) : Prop :=
  (s.run step.operation).2.database = s.database ∨
    e.isNamed (step.namedIds s.database.tables) = false ∧
      e ∈ (s.run step.operation).2.database.tables.edges.rows

/-- A transaction of a change that retains the statement retains it, if the edge is there
afterwards. -/
theorem retains_transact {α : Type} {order : Tables → WriteOrder} {u : Update α}
    {called : StoreError → StoreError} (h : s.Satisfies (·.Retains x))
    (hrun : (s.run (StoreM.transact order u called)).2 = s')
    (hspares : s'.database = s.database ∨
      (u.apply s.database).2.Retains x ∧ x.edge ∈ s'.database.tables.edges.rows) :
    s'.Satisfies (·.Retains x) := by
  have hleaves : s.run (StoreM.transact order u called) =
      ((s.run (StoreM.transact order u called)).1, s') := by
    rw [← hrun]
  obtain ⟨hsaved, hdatabase⟩ := run_transact_leaves hleaves
  refine ⟨?_, fun db hdb => ?_⟩
  · rcases hspares with hsame | ⟨hmade, hedge⟩
    · rw [hsame]
      exact h.database
    · -- That the edge is still there rules out a database that was lost, and the pages do not
      -- matter.
      rcases hdatabase with hsame | ⟨pages, hleft⟩ | hlost
      · rw [hsame]
        exact h.database
      · rw [hleft]
        exact (Database.opens_retains x).withPages _ pages hmade
      · rw [hlost] at hedge
        exact absurd hedge (Table.not_mem_rows_empty _)
  · rcases hsaved with hsame | hnone
    · exact h.saved db (hsame ▸ hdb)
    · exact nomatch hnone.symm.trans hdb

theorem retains_migrate (h : s.Satisfies (·.Retains x)) {dryRun : Bool}
    (hrun : (s.run (StoreM.migrate dryRun)).2 = s')
    (hspares : s'.database = s.database ∨ x.edge ∈ s'.database.tables.edges.rows) :
    s'.Satisfies (·.Retains x) := by
  cases hversion : s.database.storedVersion with
  | error cause =>
    rw [run_migrate_of_error hversion] at hrun
    exact hrun ▸ h
  | ok version =>
    by_cases hnothing : ((pendingSteps version).isEmpty || dryRun) = true
    · rw [run_migrate_report hversion dryRun hnothing] at hrun
      exact hrun ▸ h
    · obtain ⟨hpending, rfl⟩ : pendingSteps version ≠ [] ∧ dryRun = false := by
        simpa [List.isEmpty_iff] using hnothing
      rw [run_migrate_of_pending hversion hpending, ← map_eq_pure_bind, run_map] at hrun
      have hmade := (Database.opens_retains x).makeSteps s.now version _ h.database
      exact retains_transact h hrun (hspares.imp_right fun hedge => ⟨hmade, hedge⟩)

/-- **A step that spares the edge preserves what is stored with it**, whether the step succeeds or
fails. -/
theorem Spares.retains {step : SessionStep} (hspares : s.Spares step x.edge)
    (h : s.Satisfies (·.Retains x)) : (s.run step.operation).2.Satisfies (·.Retains x) := by
  cases step with
  | write call =>
    rcases StoreM.keepsUnnamed_operation call s with hsame | ⟨β, order, u, hrun, hu⟩
    · show (s.run call.operation).2.Satisfies _
      rwa [hsame]
    · refine retains_transact h hrun.symm (hspares.imp_right fun ⟨hunnamed, hedge⟩ => ?_)
      exact ⟨hu _ x h.database hunnamed, hedge⟩
  | beginTransaction => exact StoreM.preserves_beginTransaction s h
  | commit => exact StoreM.preserves_commit (Database.opens_retains x) s h
  | rollback => exact StoreM.preserves_rollback s h
  | migrate dryRun =>
    refine retains_migrate h (run_discard _).symm (hspares.imp_right fun ⟨_, hedge⟩ => hedge)

/-- The store has come of another by steps that spare the edge, in the same session or in later
ones. Between sessions there can be attempts to open the database that are refused. -/
inductive Follows (e : Edge) (s : Store) : Store → Prop where
  | start : Follows e s s
  | step {s' : Store} (h : Follows e s s') (step : SessionStep) (hspares : s'.Spares step e) :
    Follows e s (s'.run step.operation).2
  | reopened {s' opened : Store} (h : Follows e s s') (refused : List (StoreConfig × String))
    {config : StoreConfig} {now : String}
    (hopen : (openDatabase config now (refused.foldl
      (fun db attempt => (openDatabase attempt.1 attempt.2 db).2) s'.rolledBack.database)).1 =
        .ok opened) :
    Follows e s opened

theorem retains_attempts (attempts : List (StoreConfig × String)) (db : Database)
    (h : db.Retains x) : (attempts.foldl (fun db attempt =>
      (openDatabase attempt.1 attempt.2 db).2) db).Retains x := by
  induction attempts generalizing db with
  | nil => exact h
  | cons attempt attempts ih =>
    exact ih _ (satisfies_openDatabase (Database.opens_retains x) h attempt.1 attempt.2).1

/-- **What is retained stays so until its edge is removed.** -/
theorem Follows.retains (hfollows : Follows x.edge s s') (h : s.Satisfies (·.Retains x)) :
    s'.Satisfies (·.Retains x) := by
  induction hfollows with
  | start => exact h
  | step _ _ hspares ih => exact hspares.retains ih
  | reopened _ refused hopen ih =>
    have hleft := retains_attempts refused _ ih.rolledBack.database
    exact (satisfies_openDatabase (Database.opens_retains x) hleft _ _).2 _ hopen

end Store

end FactGraph
