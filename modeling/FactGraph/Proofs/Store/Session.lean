import FactGraph.Proofs.Store.Insertion
import FactGraph.Proofs.Store.Transaction

/-!
# Writing to a store

A store is **ready** (`Store.Ready`) if its tables are all there and it can be written. A write to a
store that is ready either succeeds and leaves the changed database, or fails and leaves the store
as it was (`Store.run_transact_ok`, `Store.run_transact_error`).

The main result is that insertion takes each new statement once and no other, in the order of the
list, however the list is cut into chunks (`Store.run_insert_news`).
-/

namespace FactGraph

/-- A part of the value is no number. -/
def Value.hasNaN : Value → Bool
  | .quantity q =>
    (match q.number with
      | .int _ => false
      | .float x => x.isNaN) ||
    q.lowTolerance.any Binary64.isNaN || q.highTolerance.any Binary64.isNaN
  | .coordinate c =>
    c.latitude.isNaN || c.longitude.isNaN || c.precision.any Binary64.isNaN
  | .string .. | .pointInTime _ | .symbol _ => false

namespace Store

/-- All tables exist, texts are kept as they are, nothing limits the growth of the database, changes
can be made and undone, and no transaction is open. -/
structure Ready (s : Store) : Prop where
  complete : s.database.Complete
  encoding : s.database.tables.encoding = .utf8
  unlimited : s.database.pages = none
  writable : s.engine.refusal = none
  undoes : s.engine.undoes = true
  idle : s.saved = none

/-- The store with other tables. -/
def withTables (s : Store) (t : Tables) : Store :=
  { s with database := s.database.withTables t }

variable {α β : Type} {s s' : Store}

/-! ## Transactions -/

variable {order : Tables → WriteOrder} {u : Update α}

theorem Ready.begins (hready : s.Ready) : s.engine.refusal ≠ some .transaction := by
  simp [hready.writable]

theorem run_changeWithin (hunlimited : s.database.pages = none) (cause : StoreError) :
    s.run (StoreM.changeWithin cause order u) =
      ((u.apply s.database).1, { s with database := (u.apply s.database).2.settled }) := by
  have hfollowed : ∀ writes, s.database.followed? (u.apply s.database).2 writes =
      some (u.apply s.database).2 := by
    intro writes
    rw [Database.followed?, hunlimited]
  show StoreM.changeWithin cause order u s = _
  rw [StoreM.changeWithin]
  simp only [hfollowed]

/-- **Where nothing limits its growth, a store makes a change unless it refuses to.** A change that
fails stays only if the engine cannot undo it. -/
theorem run_transact_unlimited (hunlimited : s.database.pages = none) (order : Tables → WriteOrder)
    (u : Update α) :
    s.run (StoreM.transact order u) =
      if s.saved.isSome ∨ s.engine.refusal = some .transaction then (.error .transaction, s)
      else match s.engine.refusal, u.apply s.database with
        | some cause, _ => (.error cause, s)
        | none, (.ok a, changed) => (.ok a, { s with database := changed.settled })
        | none, (.error cause, changed) => (.error cause,
            if s.engine.undoes then s else { s with database := changed.settled }) := by
  rw [StoreM.transact_eq]
  by_cases hrefused : s.saved.isSome ∨ s.engine.refusal = some .transaction
  · rw [run_inTransaction_of_refused hrefused, if_pos hrefused]
    rfl
  rw [if_neg hrefused]
  obtain ⟨hidle, hbegins⟩ := not_or.1 hrefused
  replace hidle : s.saved = none := by simpa using hidle
  have hmake := run_makeChange_eq s.begun order u id
  rw [show s.begun.engine = s.engine from rfl] at hmake
  -- A refusal is noticed inside of the transaction, so it is rolled back although nothing changed.
  cases hrefusal : s.engine.refusal with
  | some cause =>
    rw [hrefusal] at hmake
    rw [run_inTransaction_of_error hidle hbegins hmake,
      show s.begun.rolledBack = _ from rolledBack_change hidle s.database]
    exact congrArg (Prod.mk _) (ite_self s)
  | none =>
    rw [hrefusal] at hmake
    replace hmake := hmake.trans (run_changeWithin (s := s.begun) hunlimited (id .query))
    rw [show s.begun.database = s.database from rfl] at hmake
    rcases hrun : u.apply s.database with ⟨cause | a, changed⟩ <;> rw [hrun] at hmake
    · rw [run_inTransaction_of_error hidle hbegins hmake, rolledBack_change hidle]
    · rw [run_inTransaction_of_ok hidle hbegins hmake rfl, committed_change hidle,
        Database.settled_settled]

theorem run_transact_ok (hready : s.Ready) {a : α} {changed : Database}
    (h : u.apply s.database = (.ok a, changed)) :
    s.run (StoreM.transact order u) = (.ok a, { s with database := changed.settled }) := by
  rw [run_transact_unlimited hready.unlimited, if_neg (by simp [hready.idle, hready.begins]),
    hready.writable, h]

/-- **A write that fails changes nothing.** -/
theorem run_transact_error (hready : s.Ready) {cause : StoreError} {changed : Database}
    (h : u.apply s.database = (.error cause, changed)) :
    s.run (StoreM.transact order u) = (.error cause, s) := by
  rw [run_transact_unlimited hready.unlimited, if_neg (by simp [hready.idle, hready.begins]),
    hready.writable, h, hready.undoes]
  rfl

end Store

/-! ## A store to start with -/

namespace Database

/-- The empty database with the base schema. -/
def base : Database :=
  { empty with
    version := some baseVersion
    schema := ⟨TableName.all, [.node1Label, .labelNode2]⟩ }

/-- The empty database with the present schema, which has been made at the time `now`. -/
def present (now : String) : Database :=
  { base with
    version := some schemaVersion
    history := [⟨schemaVersion, now⟩]
    schema := ⟨TableName.all, [.node1Label, .labelNode2, .node2]⟩ }

theorem complete_base : base.Complete := by
  intro table
  cases table with
  | values kind => cases kind <;> rfl
  | _ => rfl

end Database

namespace Update

theorem apply_createBase_empty :
    createBase.apply .empty = (.ok (), { Database.base with version := none }) := by
  have hschema : [IndexName.node1Label, .labelNode2].foldl Schema.addIndex
      (TableName.all.foldl Schema.addTable .empty) =
      ⟨TableName.all, [.node1Label, .labelNode2]⟩ := by decide
  show (Except.ok (), { Database.empty with
    schema := [IndexName.node1Label, .labelNode2].foldl Schema.addIndex
      (TableName.all.foldl Schema.addTable .empty) }) = _
  rw [hschema]
  rfl

theorem apply_ensureBase_empty : ensureBase.apply .empty = (.ok (), .base) := by
  rw [ensureBase, apply_bind_ok apply_createBase_empty]
  rfl

theorem apply_ensure_empty (now : String) : (ensure now).apply .empty = (.ok (), .present now) := by
  rw [ensure, apply_bind_ok apply_ensureBase_empty]
  rfl

end Update

namespace Store

/-- The store that opening an empty database gives. -/
def fresh (withoutMigrations inFile : Bool) (batch : BatchConfig) (insertMode : InsertMode)
    (now : String) : Store where
  database := if withoutMigrations then .base else .present now
  engine := { Engine.standard with layout := { PageLayout.standard with isFixed := inFile } }
  batch := batch
  insertMode := insertMode
  now := now
  saved := none

theorem openDatabase_of_engine {config : StoreConfig} {engine : Engine}
    (hengine : config.engine = .ok engine) (hencoding : engine.encoding = .utf8)
    (hlimit : engine.pageLimit = none) (hrefusal : engine.refusal = none)
    (hanswers : engine.reportsChanges = false) (hmemory : engine.isStarved = false)
    (now : String) :
    (openDatabase config now .empty).1 = .ok
      ⟨if config.withoutMigrations then .base else .present now, engine, config.batch,
        config.insertMode, now, none⟩ := by
  have hfound : (Database.empty.reopened engine.encoding).counted engine.layout engine.pageLimit =
      .empty := by
    rw [hencoding, hlimit]
    rfl
  have haccepts (opened : Database) : engine.accepts .empty opened = true := by
    simp [Engine.accepts, hrefusal, hanswers, hmemory]
  have hopened (opened : Database) :
      (Database.empty.followed? opened fun _ => .none).filter (engine.accepts .empty) =
        some opened := by
    show (some opened).filter (engine.accepts .empty) = some opened
    rw [Option.filter_some, if_pos (haccepts opened)]
  unfold openDatabase
  rw [hengine]
  cases hmigrations : config.withoutMigrations with
  | true => simp only [hfound, if_true, Update.apply_ensureBase_empty, hopened]
  | false =>
    simp only [hfound, Bool.false_eq_true, if_false, Update.apply_ensure_empty, hopened]

theorem openDatabase_empty (withoutMigrations inFile : Bool) (batch : BatchConfig)
    (insertMode : InsertMode) (now : String) :
    (openDatabase ⟨withoutMigrations, none, inFile, [], batch, insertMode⟩ now .empty).1 =
      .ok (fresh withoutMigrations inFile batch insertMode now) := by
  have hengine : (StoreConfig.mk withoutMigrations none inFile [] batch insertMode).engine =
      .ok { Engine.standard with layout := { PageLayout.standard with isFixed := inFile } } := rfl
  exact openDatabase_of_engine hengine rfl rfl rfl rfl rfl now

theorem ready_fresh (withoutMigrations inFile : Bool) (batch : BatchConfig)
    (insertMode : InsertMode) (now : String) :
    (fresh withoutMigrations inFile batch insertMode now).Ready where
  complete := by
    cases withoutMigrations <;> exact Database.complete_base
  encoding := by cases withoutMigrations <;> rfl
  unlimited := by cases withoutMigrations <;> rfl
  writable := rfl
  undoes := rfl
  idle := rfl

theorem sound_fresh (withoutMigrations inFile : Bool) (batch : BatchConfig)
    (insertMode : InsertMode) (now : String) :
    (fresh withoutMigrations inFile batch insertMode now).database.tables.Sound := by
  cases withoutMigrations <;> exact Tables.sound_empty

end Store

/-! ## Insertion -/

theorem checkStatements_eq_ok_iff {statements : List Statement} :
    checkStatements statements = .ok () ↔ ∀ x ∈ statements, x.check = .ok () := by
  induction statements with
  | nil => simp [checkStatements]; rfl
  | cons x rest ih =>
    show (x.check.mapError StoreError.invalidInput >>= fun _ => checkStatements rest) = _ ↔ _
    rw [List.forall_mem_cons, ← ih]
    cases x.check <;> simp [Except.mapError, bind, Except.bind]

theorem Statement.kind_eq_of_check {x : Statement} (h : x.check = .ok ()) :
    x.edge.kind = x.value.kind := by
  by_contra hne
  unfold check at h
  split at h
  · cases h
  · split at h
    · cases h
    · split at h
      · cases h
      · cases h

theorem Update.storable_of_hasNaN {x : Statement} (h : x.value.hasNaN = false) : Storable x := by
  unfold Storable
  rcases x with ⟨edge, value⟩
  cases value with
  | string text language => rfl
  | pointInTime t => rfl
  | symbol text => rfl
  | quantity q =>
    rcases q with ⟨number, low, high, unit, node⟩
    cases number with
    | int v => rfl
    | float v =>
      simp only [Value.hasNaN, Bool.or_eq_false_iff] at h
      simp only [StoredValue.ofValue?, numberCell?, h.1.1]
      rfl
  | coordinate c =>
    simp only [Value.hasNaN, Bool.or_eq_false_iff] at h
    simp only [StoredValue.ofValue?, columnValue?, h.1.1, h.1.2]
    rfl

namespace Store

variable {s : Store} {mode : InsertMode} {statements : List Statement}

theorem run_insert_of_check (hcheck : checkStatements statements = .ok ())
    (hne : statements ≠ []) :
    s.run (StoreM.insert mode statements) =
      s.run (StoreM.transact (fun _ => ⟨[], statements.map (·.edge.id)⟩)
        (Update.insert s.batch mode statements)) := by
  have hchecked : s.run (liftM (checkStatements statements) : StoreM Unit) = (.ok (), s) := by
    rw [run_liftExcept, hcheck]
  have hempty : ¬statements.isEmpty = true := by simpa [List.isEmpty_iff] using hne
  rw [StoreM.insert, if_neg hempty, run_bind_ok hchecked, run_bind_ok run_get]

theorem run_insert_ok (hready : s.Ready) (hsound : s.database.tables.Sound)
    (hcheck : checkStatements statements = .ok ()) (hne : statements ≠ [])
    (hnone : s.database.tables.conflict? mode [] statements = none)
    (hstorable : ∀ x ∈ s.database.tables.news statements, Update.Storable x) :
    s.run (StoreM.insert mode statements) =
      (.ok ⟨(s.database.tables.news statements).length,
          statements.length - (s.database.tables.news statements).length,
          (s.database.tables.news statements).length⟩,
        s.withTables (s.database.tables.withNews statements)) := by
  have hrun := Update.apply_insert hready.complete hready.encoding hsound s.batch
    hnone hstorable
  have hpages : (s.database.withTables (s.database.tables.withNews statements)).pages = none :=
    hready.unlimited
  rw [run_insert_of_check hcheck hne, run_transact_ok hready hrun,
    Database.settled_of_unlimited hpages]
  rfl

theorem run_insert_conflict (hready : s.Ready) (hcheck : checkStatements statements = .ok ())
    (hne : statements ≠ []) {id : String}
    (hconflict : s.database.tables.conflict? mode [] statements = some id) :
    s.run (StoreM.insert mode statements) = (.error (.importConflict id), s) := by
  obtain ⟨changed, hrun⟩ := Update.apply_insert_conflict hready.complete
    hready.encoding s.batch hconflict
  rw [run_insert_of_check hcheck hne]
  exact run_transact_error hready hrun

/-- **Insertion takes the first statement of each id that is not stored**, whatever the chunks. In
strict mode every statement has to be new, and the first that is not ends the insertion. -/
theorem run_insert_news (s : Store) (hready : s.Ready) (hsound : s.database.tables.Sound)
    (mode : InsertMode) (statements : List Statement)
    (hcheck : ∀ x ∈ statements, x.check = .ok ())
    (hnumbers : ∀ x ∈ statements, x.value.hasNaN = false) :
    let t := s.database.tables
    let news := t.news statements
    (mode = .idempotent ∨ news = statements → ∃ t', t.Adds news t' ∧
      s.run (StoreM.insert mode statements) =
        (.ok ⟨news.length, statements.length - news.length, news.length⟩, s.withTables t')) ∧
    (mode = .strict → news ≠ statements → ∃ earlier x later,
      statements = earlier ++ x :: later ∧ t.news earlier = earlier ∧ ¬t.IsNew earlier x ∧
      s.run (StoreM.insert mode statements) = (.error (.importConflict x.edge.id), s)) := by
  intro t news
  have hchecked := checkStatements_eq_ok_iff.2 hcheck
  have hstorable : ∀ x ∈ news, Update.Storable x := fun x hx =>
    Update.storable_of_hasNaN (hnumbers x ((t.newsAfter_sublist [] statements).subset hx))
  constructor
  · intro hmode
    have hnone : t.conflict? mode [] statements = none := by
      rcases hmode with rfl | hall
      · exact Tables.conflict?_idempotent statements
      · exact Tables.conflict?_of_all_new hall
    by_cases hne : statements = []
    · subst hne
      exact ⟨t, Tables.adds_nil t, rfl⟩
    · exact ⟨t.withNews statements, Tables.adds_withNews hsound hready.encoding statements,
        run_insert_ok hready hsound hchecked hne hnone hstorable⟩
  · rintro rfl hnews
    obtain ⟨front, x, back, hsplit, hfront, hold, hconflict⟩ := Tables.exists_conflict hnews
    have hne : statements ≠ [] := by simp [hsplit]
    exact ⟨front, x, back, hsplit, hfront, hold,
      run_insert_conflict hready hchecked hne hconflict⟩

/-- A statement that says a symbol. -/
def symbolStatement (id symbol : String) : Statement :=
  .ofLiteral id "n" "l" (.symbol symbol)

/-- An id that comes again in another chunk is skipped, or ends a strict insertion. -/
theorem run_insert_news_repeated :
    let s := fresh false false ⟨1, true⟩ .idempotent "now"
    let x := symbolStatement "x" "a"
    let y := symbolStatement "y" "b"
    let again := symbolStatement "x" "c"
    (∃ t', s.database.tables.Adds [x, y] t' ∧
      s.run (StoreM.insert .idempotent [x, y, again]) = (.ok ⟨2, 1, 2⟩, s.withTables t')) ∧
    s.run (StoreM.insert .strict [x, y, again]) = (.error (.importConflict "x"), s) := by
  intro s x y again
  have hcheck : ∀ z ∈ [x, y, again], z.check = .ok () := by decide
  have hnumbers : ∀ z ∈ [x, y, again], z.value.hasNaN = false := by decide
  have hnews : s.database.tables.news [x, y, again] = [x, y] := by decide
  have hready := ready_fresh false false ⟨1, true⟩ .idempotent "now"
  have hsound := sound_fresh false false ⟨1, true⟩ .idempotent "now"
  obtain ⟨t', hadds, hrun⟩ :=
    (run_insert_news s hready hsound .idempotent [x, y, again] hcheck hnumbers).1 (.inl rfl)
  obtain ⟨earlier, z, later, hsplit, hearlier, hold, hconflict⟩ :=
    (run_insert_news s hready hsound .strict [x, y, again] hcheck hnumbers).2 rfl (by decide)
  rw [hnews] at hadds hrun
  have hz : z = again := by
    rcases earlier with _ | ⟨first, _ | ⟨second, _ | ⟨third, rest⟩⟩⟩
    · have hz : x = z := (List.cons.inj hsplit).1
      exact absurd (hz ▸ by decide) hold
    · obtain ⟨hfirst, hrest⟩ := List.cons.inj hsplit
      have hz : y = z := (List.cons.inj hrest).1
      exact absurd (hfirst ▸ hz ▸ by decide) hold
    · exact (List.cons.inj (List.cons.inj (List.cons.inj hsplit).2).2).1.symm
    · simp at hsplit
  rw [hz] at hconflict
  exact ⟨⟨t', hadds, hrun⟩, hconflict⟩

end Store

end FactGraph
