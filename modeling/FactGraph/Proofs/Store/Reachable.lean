import FactGraph.Proofs.Schema.Migration
import FactGraph.Proofs.Schema.Object

/-!
# Reachable stores

Sessions follow one another, each with a configuration of its own: it opens the database that was
left, writes, and leaves it without what was not committed (`Database.IsLeft`). A store is
**reachable** (`Store.Reachable`) if it is that of such a session after some steps, each of which
may have failed. Nothing is assumed of its engine: it may not be able to undo changes, have another
encoding, or run out of pages.

**What no database violates at first, and no change makes untrue, holds in every reachable store**
(`Database.Invariant.of_reachable`). The induction over sessions, their steps and the parts of a
step is made here, so that for an invariant only the changes themselves have to be looked at
(`Update.Preserves`).
-/

namespace FactGraph

/-! ## Sessions -/

/-- Sessions leave such a database: at first there is none; opening one can change it, even if it is
refused; and what is open at the end of a session is rolled back. -/
inductive Database.IsLeft : Database → Prop where
  | empty : IsLeft .empty
  | opened {db : Database} (h : IsLeft db) (config : StoreConfig) (now : String) :
    IsLeft (Store.openDatabase config now db).2
  | closed {db : Database} (h : IsLeft db) {config : StoreConfig} {now : String} {opened : Store}
    (hopen : (Store.openDatabase config now db).1 = .ok opened) (steps : List SessionStep) :
    IsLeft (opened.afterSteps steps).rolledBack.database

/-- The store is in a session with a database that earlier sessions left. -/
def Store.Reachable (s : Store) : Prop :=
  ∃ db config now opened steps, db.IsLeft ∧ (openDatabase config now db).1 = .ok opened ∧
    s = opened.afterSteps steps

/-- Nothing but tables without rows has come to the database: what it holds is the same, and each
table can be used that could be. -/
structure Database.Extends (db' db : Database) : Prop where
  tables : db'.tables = db.tables
  schema : db.schema.tables ⊆ db'.schema.tables
  lost : db'.lost = db.lost

/-! ## Changes -/

variable {P : Database → Prop}

namespace Update

variable {α β : Type}

/-- The change leads from databases with the property to such databases, also if it fails. -/
def Preserves (P : Database → Prop) (u : Update α) : Prop := ∀ db, P db → P (u.apply db).2

theorem preserves_pure (a : α) : Preserves P (pure a) := fun _ h => h

theorem preserves_throw (cause : StoreError) : Preserves P (throw cause : Update α) :=
  fun _ h => h

theorem preserves_read (f : Database → Except StoreError α) : Preserves P (read f) := fun _ h => h

theorem preserves_get : Preserves P (get : Update Database) := fun _ h => h

theorem preserves_modify {f : Database → Database} (hf : ∀ db, P db → P (f db)) :
    Preserves P (modify f : Update Unit) := hf

theorem preserves_bind {u : Update α} {f : α → Update β} (hu : Preserves P u)
    (hf : ∀ a, Preserves P (f a)) : Preserves P (u >>= f) := by
  intro db h
  have hfirst := hu db h
  rw [apply_bind]
  rcases hrun : u.apply db with ⟨cause | a, middle⟩ <;> rw [hrun] at hfirst
  · exact hfirst
  · exact hf a middle hfirst

theorem preserves_read_bind {f : Database → Except StoreError α} {g : α → Update β}
    (hg : ∀ db a, P db → f db = .ok a → P ((g a).apply db).2) : Preserves P (read f >>= g) := by
  intro db h
  rw [apply_bind, apply_read]
  cases hf : f db with
  | error cause => exact h
  | ok a => exact hg db a h hf

theorem preserves_map (f : α → β) {u : Update α} (hu : Preserves P u) : Preserves P (f <$> u) := by
  rw [map_eq_pure_bind]
  exact preserves_bind hu fun _ => preserves_pure _

theorem preserves_mapM {f : α → Update β} {items : List α}
    (hf : ∀ a ∈ items, Preserves P (f a)) : Preserves P (items.mapM f) := by
  induction items with
  | nil => exact preserves_pure []
  | cons first rest ih =>
    obtain ⟨hfirst, hrest⟩ := List.forall_mem_cons.1 hf
    rw [List.mapM_cons]
    exact preserves_bind hfirst fun _ => preserves_bind (ih hrest) fun _ => preserves_pure _

theorem preserves_forM {f : α → Update Unit} (hf : ∀ a, Preserves P (f a)) (items : List α) :
    Preserves P (items.forM f) := by
  induction items with
  | nil => exact preserves_pure ()
  | cons first rest ih => exact preserves_bind (hf first) fun _ => ih

theorem preserves_addValue {s : Statement}
    (hrow : ∀ (db : Database) (stored : StoredValue s.value.kind),
      StoredValue.ofValue? s.value = some stored → P db →
        P { db with tables := db.tables.addValue ⟨s.edge.id, stored⟩ }) :
    (addValue s.edge.id s.value).Preserves P := by
  unfold addValue
  refine preserves_bind (preserves_read _) fun _ => ?_
  split
  · exact preserves_throw _
  next stored hstored =>
    refine preserves_bind preserves_get fun _ => ?_
    exact preserves_bind (preserves_modify fun db h => hrow db stored hstored h) fun _ =>
      preserves_pure _

theorem preserves_addValues {statements : List Statement}
    (hrow : ∀ s ∈ statements, ∀ (db : Database) (stored : StoredValue s.value.kind),
      StoredValue.ofValue? s.value = some stored → P db →
        P { db with tables := db.tables.addValue ⟨s.edge.id, stored⟩ })
    (config : BatchConfig) (kind : ValueKind) :
    (addValues config kind statements).Preserves P := by
  rw [addValues_eq]
  exact preserves_map _ (preserves_mapM fun s hs =>
    preserves_addValue (hrow s (List.mem_of_mem_filter hs)))

/-! ### Tables and steps -/

section Extension

variable (hextends : ∀ db db' : Database, P db → db'.Extends db → P db')

include hextends

theorem preserves_ensureBase : ensureBase.Preserves P := by
  have hversion (f : Database → Option Int) :
      Preserves P (modify fun db => { db with version := f db } : Update Unit) :=
    preserves_modify fun _ h => hextends _ _ h ⟨rfl, List.Subset.refl _, rfl⟩
  unfold ensureBase createBase checkVersion
  refine preserves_bind (preserves_modify fun db h => hextends _ _ h ⟨rfl, ?_, rfl⟩) fun _ =>
    preserves_bind preserves_get fun db => ?_
  · intro t ht
    rw [Schema.tables_foldl_addIndex, Schema.mem_tables_foldl_addTable]
    exact .inl ht
  · split
    -- A version is only raised, and a newer one is refused before; in neither case does a table go.
    next v _ =>
      have hraised : Preserves P (if v < baseVersion then
          modify fun db => { db with version := some baseVersion } else pure () : Update Unit) := by
        split
        · exact hversion _
        · exact preserves_pure ()
      dsimp only
      split
      · exact preserves_bind (preserves_throw _) fun _ => hraised
      · exact hraised
    next => exact hversion _

theorem preserves_makeSteps (now : String) (version : Int) :
    (makeSteps now version).Preserves P := by
  have hstep (step : MigrationStep) : (makeStep now step).Preserves P := by
    unfold makeStep
    refine preserves_bind (preserves_read _) fun _ =>
      preserves_bind (preserves_modify fun db h => hextends _ _ h ⟨rfl, ?_, rfl⟩) fun _ =>
        preserves_bind (preserves_read _) fun _ =>
          preserves_modify fun db h => hextends _ _ h ⟨rfl, List.Subset.refl _, rfl⟩
    rw [Schema.tables_addIndex]
    exact List.Subset.refl _
  unfold makeSteps
  exact preserves_bind (preserves_forM hstep _) fun _ =>
    preserves_modify fun db h => hextends _ _ h ⟨rfl, List.Subset.refl _, rfl⟩

end Extension

/-! ### Insertion -/

section Insertion

variable (hadded : ∀ (db : Database) (e : Edge), P db → db.has .edges = true →
  P { db with tables := db.tables.addEdge e })

include hadded

theorem preserves_addEdge (e : Edge) :
    (addEdge e).Preserves fun db => P db ∧ db.has .edges = true := by
  unfold addEdge
  refine fun db h => ?_
  rw [apply_bind_ok (apply_get db)]
  dsimp only
  split
  · exact h
  · exact ⟨hadded db e h.1 h.2, h.2⟩

theorem preserves_writeEdges (edges : List Edge) : (writeEdges edges).Preserves P := by
  unfold writeEdges
  split
  · exact preserves_pure _
  · refine preserves_read_bind fun db _ h hrequire => ?_
    have hedges : db.has .edges = true := by
      by_contra hnone
      simp [Database.require, hnone] at hrequire
    exact (preserves_bind (preserves_mapM fun e _ => preserves_addEdge hadded e)
      (fun ids => preserves_pure ids.reduceOption) db ⟨h, hedges⟩).1

theorem preserves_addEdges (mode : InsertMode) (chunk : List Statement) (seen : List String) :
    ((addEdges mode chunk).run seen).Preserves P := by
  rw [run_addEdges]
  refine preserves_bind (preserves_writeEdges hadded _) fun written => ?_
  dsimp only
  split
  · exact preserves_throw _
  · exact preserves_pure _

theorem preserves_mapM_addEdges (mode : InsertMode) (chunks : List (List Statement))
    (seen : List String) : ((chunks.mapM (addEdges mode)).run seen).Preserves P := by
  induction chunks generalizing seen with
  | nil => exact preserves_pure _
  | cons chunk chunks ih =>
    rw [List.mapM_cons, StateT.run_bind]
    refine preserves_bind (preserves_addEdges hadded mode chunk seen) fun first => ?_
    rw [StateT.run_bind]
    exact preserves_bind (ih _) fun _ => preserves_pure _

/-- **What edges and rows of values preserve, an insertion preserves.** -/
theorem preserves_insert
    (hrow : ∀ (db : Database) (kind : ValueKind) (row : ValueRow kind), P db →
      P { db with tables := db.tables.addValue row })
    (config : BatchConfig) (mode : InsertMode) (statements : List Statement) :
    (insert config mode statements).Preserves P := by
  have hedges : (((config.perStatement edgeWidth).execute (addEdges mode) statements).run'
      []).Preserves P := by
    rw [run'_execute]
    exact preserves_map _ (preserves_mapM_addEdges hadded mode _ [])
  unfold insert
  exact preserves_bind hedges fun _ =>
    preserves_bind (preserves_mapM fun kind _ =>
      preserves_addValues (fun _ _ db _ _ h => hrow db _ _ h) config kind) fun _ => preserves_pure _

end Insertion

end Update

/-! ## Invariants -/

namespace Database

/-- The property holds of no database, is preserved by opening one and by the changes, and does not
depend on pages. -/
structure Invariant (P : Database → Prop) : Prop where
  empty : P .empty
  reopened : ∀ db encoding, P db → P (db.reopened encoding)
  withPages : ∀ db pages, P db → P { db with pages := pages }
  ensureBase : Update.ensureBase.Preserves P
  makeSteps : ∀ now version, (Update.makeSteps now version).Preserves P
  insert : ∀ config mode statements, (Update.insert config mode statements).Preserves P
  listing : ∀ db ids, P db → P { db with doomed := ids }
  removeEdges : ∀ (db : Database) (p : Edge → Bool), P db →
    P { db with tables := db.tables.removeEdges p }

/-- Opening a database preserves the property, which does not depend on pages. -/
structure Opens (P : Database → Prop) : Prop where
  reopened : ∀ db encoding, P db → P (db.reopened encoding)
  withPages : ∀ db pages, P db → P { db with pages := pages }
  ensureBase : Update.ensureBase.Preserves P
  makeSteps : ∀ now version, (Update.makeSteps now version).Preserves P

theorem Invariant.opens (hP : Invariant P) : Opens P :=
  ⟨hP.reopened, hP.withPages, hP.ensureBase, hP.makeSteps⟩

namespace Opens

variable (hP : Opens P) {before after db : Database}

include hP

theorem ensure (now : String) : (Update.ensure now).Preserves P := by
  unfold Update.ensure
  refine Update.preserves_bind hP.ensureBase fun _ => Update.preserves_map _ fun db h => ?_
  let s : Store :=
    ⟨{ db with pages := none }, .standard, .standard, .idempotent, now, none⟩
  have hdatabase : P s.database := hP.withPages db none h
  suffices hleft : P (s.run (StoreM.migrate false)).2.database from hP.withPages _ db.pages hleft
  obtain ⟨cause, hrun⟩ | ⟨version, -, ⟨-, hrun⟩ | ⟨changed, pages, happly, hrun⟩⟩ :=
    Store.run_migrate_cases (s := s) rfl false <;> rw [hrun]
  · exact hdatabase
  · exact hdatabase
  · have hsteps := hP.makeSteps now version _ hdatabase
    rw [happly] at hsteps
    exact hP.withPages changed pages hsteps

theorem followed {order : Tables → WriteOrder} (h : P after)
    (hfollowed : before.followed? after order = some db) : P db := by
  obtain ⟨pages, rfl⟩ := of_followed?_eq_some hfollowed
  exact hP.withPages after pages h

theorem settled (h : P db) : P db.settled := hP.withPages db _ h

end Opens

namespace Invariant

variable (hP : Invariant P)

include hP

theorem listed (f : Database → Option (List String)) :
    (modify fun db => { db with doomed := f db } : Update Unit).Preserves P :=
  Update.preserves_modify fun db h => hP.listing db (f db) h

theorem deleteEdges (isGone : List String → Edge → Bool) :
    (Update.deleteEdges isGone).Preserves P := by
  unfold Update.deleteEdges
  exact Update.preserves_bind (Update.preserves_read _) fun _ =>
    Update.preserves_bind Update.preserves_get fun _ =>
      Update.preserves_bind (Update.preserves_modify fun db h => hP.removeEdges db _ h) fun _ =>
        Update.preserves_pure _

theorem purgeListed {list : Update Unit} (hlist : list.Preserves P) :
    (Update.purgeListed list).Preserves P := by
  unfold Update.purgeListed Update.purgeDoomed
  exact Update.preserves_bind (hP.listed _) fun _ => Update.preserves_bind (hP.listed _) fun _ =>
    Update.preserves_bind hlist fun _ => Update.preserves_bind (hP.deleteEdges _) fun _ =>
      Update.preserves_bind (hP.deleteEdges _) fun _ => Update.preserves_bind (hP.listed _) fun _ =>
        Update.preserves_pure _

theorem doomEdges (edges : Tables → List Edge) : (Update.doomEdges edges).Preserves P :=
  Update.preserves_bind (Update.preserves_read _) fun _ => hP.listed _

theorem purge (ids : List String) : (Update.purge ids).Preserves P :=
  hP.purgeListed (Update.preserves_forM (fun _ => hP.listed _) ids)

theorem purgeObservations (dataset : String) (properties : List String) :
    (Update.purgeObservations dataset properties).Preserves P :=
  hP.purgeListed (Update.preserves_forM (fun _ => hP.doomEdges _) properties)

theorem replace (config : BatchConfig) (node : String) (predicates : List String)
    (statements : List Statement) :
    (Update.replace config node predicates statements).Preserves P := by
  unfold Update.replace
  refine Update.preserves_bind (hP.purgeListed (Update.preserves_bind ?_ fun _ => ?_)) fun _ =>
    hP.insert _ _ _
  · exact Update.preserves_forM (fun _ => hP.doomEdges _) predicates
  · exact Update.preserves_forM (fun _ => hP.listed _) statements

end Invariant

end Database

/-! ## Operations -/

/-- The database has the property, and so had the one that the open transaction began with. -/
structure Store.Satisfies (P : Database → Prop) (s : Store) : Prop where
  database : P s.database
  saved : ∀ db, s.saved = some db → P db

theorem Store.Satisfies.rolledBack {s : Store} (h : s.Satisfies P) :
    s.rolledBack.Satisfies P where
  database := by
    show P (if s.engine.undoes then s.saved.getD s.database else s.database)
    split
    · cases hsaved : s.saved with
      | none => exact h.database
      | some db => exact h.saved db hsaved
    · exact h.database
  saved := fun _ hdb => nomatch hdb

namespace StoreM

variable {α β : Type}

/-- Whatever comes of the operation, a store that satisfies the property goes on to. -/
def Preserves (P : Database → Prop) (operation : StoreM α) : Prop :=
  ∀ s : Store, s.Satisfies P → (s.run operation).2.Satisfies P

theorem ReadsOnly.preserves {x : StoreM α} (hx : ReadsOnly x) : Preserves P x := by
  intro s h
  rwa [hx s]

theorem preserves_pure (a : α) : Preserves P (pure a) := fun _ h => h

theorem preserves_throw (cause : StoreError) : Preserves P (throw cause : StoreM α) :=
  fun _ h => h

theorem preserves_bind {x : StoreM α} {f : α → StoreM β} (hx : Preserves P x)
    (hf : ∀ a, Preserves P (f a)) : Preserves P (x >>= f) := by
  intro s h
  have hfirst := hx s h
  rw [Store.run_bind]
  rcases hrun : s.run x with ⟨cause | a, middle⟩ <;> rw [hrun] at hfirst
  · exact hfirst
  · exact hf a middle hfirst

theorem preserves_map (f : α → β) {x : StoreM α} (hx : Preserves P x) : Preserves P (f <$> x) := by
  intro s h
  rw [Store.run_map]
  exact hx s h

theorem preserves_tryCatch {x : StoreM α} {handler : StoreError → StoreM α} (hx : Preserves P x)
    (hhandler : ∀ cause, Preserves P (handler cause)) : Preserves P (tryCatch x handler) := by
  intro s h
  have hfirst := hx s h
  rw [Store.run_tryCatch]
  rcases hrun : s.run x with ⟨cause | a, middle⟩ <;> rw [hrun] at hfirst
  · exact hhandler cause middle hfirst
  · exact hfirst

theorem preserves_beginTransaction {called : StoreError → StoreError} :
    Preserves P (beginTransaction called) := by
  intro s h
  rw [Store.run_beginTransaction]
  split
  · exact h
  · exact ⟨h.database, fun db hdb => Option.some.inj hdb ▸ h.database⟩

theorem preserves_rollback : Preserves P rollback := fun _ h => h.rolledBack

end StoreM

section Opens

variable (hP : Database.Opens P)

include hP

theorem StoreM.preserves_commit {called : StoreError → StoreError} :
    Preserves P (commit called) := by
  intro s h
  rw [Store.run_commit]
  split
  · exact h
  · exact ⟨hP.settled h.database, fun _ hdb => nomatch hdb⟩

/-- Opening preserves the property, whether the database is accepted or refused. -/
theorem Store.satisfies_openDatabase {db : Database} (h : P db) (config : StoreConfig)
    (now : String) :
    P (openDatabase config now db).2 ∧
      ∀ opened, (openDatabase config now db).1 = .ok opened → opened.Satisfies P := by
  unfold openDatabase
  split
  next => exact ⟨h, fun _ hopen => nomatch hopen⟩
  next engine _ =>
    have hfound : P ((db.reopened engine.encoding).counted engine.layout engine.pageLimit) :=
      hP.withPages _ _ (hP.reopened db _ h)
    have hensure : (if config.withoutMigrations then Update.ensureBase
        else Update.ensure now).Preserves P := by
      split
      · exact hP.ensureBase
      · exact hP.ensure now
    have hchange := hensure _ hfound
    dsimp only
    split
    next changed hrun =>
      rw [hrun] at hchange
      split
      next db' haccepted =>
        have hopened := hP.followed hchange (Option.filter_eq_some_iff.1 haccepted).1
        refine ⟨hopened, ?_⟩
        rintro opened hopen
        obtain rfl := Except.ok.inj hopen
        exact ⟨hopened, fun _ hdb => nomatch hdb⟩
      next => exact ⟨h, fun _ hopen => nomatch hopen⟩
    next cause changed hrun =>
      rw [hrun] at hchange
      exact ⟨hchange, fun _ hopen => nomatch hopen⟩

end Opens

section Invariant

variable (hP : Database.Invariant P)

include hP

namespace Store

variable {s : Store}

theorem Satisfies.exhausted (h : s.Satisfies P) : s.exhausted.Satisfies P := by
  unfold Store.exhausted
  split
  · exact h.rolledBack
  · exact ⟨hP.empty, fun _ hdb => nomatch hdb⟩

end Store

namespace StoreM

variable {α : Type}

/-- A change goes on to what it preserves, and if there are no pages for it, to what was saved. -/
theorem preserves_changeWithin (cause : StoreError) (order : Tables → WriteOrder) {u : Update α}
    (hu : u.Preserves P) : Preserves P (changeWithin cause order u) := by
  intro s h
  show (changeWithin cause order u s).2.Satisfies P
  have hchange := hu _ h.database
  unfold changeWithin
  rcases hrun : u.apply s.database with ⟨outcome, changed⟩
  rw [hrun] at hchange
  dsimp only
  split
  next db hfollowed => exact ⟨hP.opens.settled (hP.opens.followed hchange hfollowed), h.saved⟩
  next => exact h.exhausted hP

/-- What is done in a transaction may preserve the property, and so does either end of it. -/
theorem preserves_transact (order : Tables → WriteOrder) {u : Update α} (hu : u.Preserves P)
    (called : StoreError → StoreError) : Preserves P (transact order u called) := by
  unfold transact inTransaction
  refine preserves_bind preserves_beginTransaction fun _ => preserves_tryCatch ?_ fun cause => ?_
  · refine preserves_bind ?_ fun _ => preserves_bind (preserves_commit hP.opens) fun _ =>
      preserves_pure _
    exact preserves_bind (readsOnly_requireWritable called).preserves fun _ =>
      preserves_changeWithin hP _ _ hu
  · exact preserves_bind (preserves_rollback) fun _ => preserves_throw cause

/-- **Every call preserves an invariant.** -/
theorem covers_preserves : Covers (Preserves P) where
  answer := preserves_pure
  map := preserves_map
  bind := fun hx hf s h =>
    hx.kept_bind (I := fun s => s.Satisfies P) h fun a hfirst => hf s a hfirst s h
  insertion := fun order _ _ _ _ => preserves_transact hP order (hP.insert _ _ _) id
  replacement := fun order _ _ _ _ _ => preserves_transact hP order (hP.replace _ _ _ _) id
  removal := fun order ids => preserves_transact hP order (hP.purge ids) id
  removalOfObservations := fun order _ _ =>
    preserves_transact hP order (hP.purgeObservations _ _) id

theorem preserves_migrate (dryRun : Bool) : Preserves P (migrate dryRun) := by
  unfold migrate
  refine preserves_bind (readsOnly_read _).preserves fun version => ?_
  dsimp only
  split
  · exact preserves_pure _
  · refine preserves_bind readsOnly_get.preserves fun s => ?_
    exact preserves_bind (preserves_transact hP _ (hP.makeSteps s.now version) _) fun _ =>
      preserves_pure _

end StoreM

/-! ## Runs -/

theorem SessionStep.preserves (step : SessionStep) : step.operation.Preserves P := by
  cases step with
  | write call => exact (StoreM.covers_preserves hP).operation call
  | beginTransaction => exact StoreM.preserves_beginTransaction
  | commit => exact StoreM.preserves_commit hP.opens
  | rollback => exact StoreM.preserves_rollback
  | migrate dryRun => exact StoreM.preserves_map _ (StoreM.preserves_migrate hP dryRun)

namespace Store

variable {s : Store}

/-- **A session preserves what its steps preserve.** -/
theorem Satisfies.afterSteps (h : s.Satisfies P) (steps : List SessionStep) :
    (s.afterSteps steps).Satisfies P := by
  induction steps generalizing s with
  | nil => exact h
  | cons step steps ih => exact ih (step.preserves hP s h)

end Store

namespace Database.Invariant

theorem of_isLeft {db : Database} (h : db.IsLeft) : P db := by
  induction h with
  | empty => exact hP.empty
  | opened _ config now ih => exact (Store.satisfies_openDatabase hP.opens ih config now).1
  | closed _ hopen steps ih =>
    have hopened := (Store.satisfies_openDatabase hP.opens ih _ _).2 _ hopen
    exact ((hopened.afterSteps hP steps).rolledBack).database

/-- **An invariant holds in every reachable store**, also of what a rollback would lead back to. -/
theorem of_reachable {s : Store} (h : s.Reachable) : s.Satisfies P := by
  obtain ⟨db, config, now, opened, steps, hdb, hopen, rfl⟩ := h
  have hopened := Store.satisfies_openDatabase hP.opens (hP.of_isLeft hdb) config now
  exact (hopened.2 opened hopen).afterSteps hP steps

end Database.Invariant

end Invariant

end FactGraph
