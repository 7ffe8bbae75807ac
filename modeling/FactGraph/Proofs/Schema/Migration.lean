import FactGraph.Proofs.Schema.Object
import FactGraph.Proofs.Store.Failure

/-!
# Migrations

A migration makes the steps that the version of a database lacks. Each step adds an index and a
record, and in the end there is the new version. Any of the tables for them may be missing, and
there may be no room.

The main result is that **a migration is all or nothing, and that a dry run tells the truth**
(`Store.migration_all_or_nothing`): it either fails and leaves the store as it was, or makes just
the steps that the version lacks, in their order. This is so from any database whatever, as long as
the engine can undo changes. Without its journal it cannot (`Store.migration_journal_off`).
-/

namespace FactGraph

/-! ## Versions -/

/-- The versions that the steps lead to. -/
def migrationTargets : List Int := migrationSteps.map (·.target)

theorem pairwise_migrationTargets : migrationTargets.Pairwise (· < ·) := by decide

theorem getLast?_migrationTargets : migrationTargets.getLast? = some schemaVersion := by decide

theorem targets_pendingSteps (version : Int) :
    (pendingSteps version).map (·.target) = migrationTargets.filter (version < ·) := by
  rw [pendingSteps, migrationTargets, List.filter_map]
  rfl

/-- The last of ascending numbers after `v`, or `v` if there is none. -/
theorem getLast?_filter_lt_getD {numbers : List Int} (h : numbers.Pairwise (· < ·)) (v : Int) :
    (numbers.filter (v < ·)).getLast?.getD v = max v (numbers.getLast?.getD v) := by
  induction numbers using List.reverseRecOn with
  | nil => simp
  | append_singleton front last _ =>
    rw [List.filter_append]
    by_cases hlast : v < last
    · simp [hlast, max_eq_right hlast.le]
    · have hfront : front.filter (v < ·) = [] := by
        refine List.filter_eq_nil_iff.2 fun n hn => ?_
        have hbefore := (List.pairwise_append.1 h).2.2 n hn last (List.mem_singleton_self last)
        simp only [decide_eq_true_eq, not_lt]
        exact (hbefore.trans_le (not_lt.1 hlast)).le
      simp [hfront, hlast, max_eq_left (not_lt.1 hlast)]

theorem MigrationReport.toVersion_ofVersion (version : Int) (dryRun : Bool) :
    (MigrationReport.ofVersion version dryRun).toVersion = max version schemaVersion := by
  have hlast : (pendingSteps version).getLast?.map (·.target) =
      (migrationTargets.filter (version < ·)).getLast? := by
    rw [← targets_pendingSteps, List.getLast?_map]
  show ((pendingSteps version).getLast?.map (·.target)).getD version = _
  rw [hlast, getLast?_filter_lt_getD pairwise_migrationTargets, getLast?_migrationTargets]
  rfl

/-! ## Steps -/

namespace Database

variable {db : Database} {version : Int}

theorem storedVersion_eq_ok (h : db.storedVersion = .ok version) : db.version = some version := by
  obtain ⟨-, -, h⟩ := exists_of_bind_eq_ok h
  cases hversion : db.version with
  | none => rw [hversion] at h; cases h
  | some v => rw [hversion] at h; cases h; rfl

/-- The database after steps that were made at the time `now`. -/
def stepped (db : Database) (now : String) (steps : List MigrationStep) : Database :=
  { db with
    schema := (steps.map (·.index)).foldl Schema.addIndex db.schema
    history := db.history ++ steps.map fun step => ⟨step.target, now⟩ }

/-- What a migration from a version makes of a database: the present version, a record and an index
for each step that the version lacks, and nothing else. -/
structure Migrates (before after : Database) (version : Int) : Prop where
  reached : after.version = some (max version schemaVersion)
  recorded : ∃ made : List AppliedMigration, after.history = before.history ++ made ∧
    made.map (·.version) = migrationTargets.filter (version < ·) ∧
    (made.map (·.version)).Pairwise (· < ·)
  existing : after.schema.tables = before.schema.tables
  indexes : ∀ i, i ∈ after.schema.indexes ↔
    i ∈ before.schema.indexes ∨ ∃ step ∈ migrationSteps, version < step.target ∧ step.index = i
  tables : after.tables = before.tables
  lost : after.lost = before.lost

theorem migrates_of_pendingSteps_eq_nil (hversion : db.version = some version)
    (h : pendingSteps version = []) : db.Migrates db version where
  reached := by
    have htargets := getLast?_filter_lt_getD pairwise_migrationTargets version
    rw [← targets_pendingSteps, h, getLast?_migrationTargets] at htargets
    rw [hversion]
    exact congrArg some htargets
  recorded := ⟨[], by simp [← targets_pendingSteps, h]⟩
  existing := rfl
  indexes := by
    have hnone := List.filter_eq_nil_iff.1 h
    simp only [decide_eq_true_eq] at hnone
    intro i
    refine (or_iff_left ?_).symm
    rintro ⟨step, hstep, hlt, -⟩
    exact hnone step hstep hlt
  tables := rfl
  lost := rfl

theorem migrates_stepped (db : Database) (now : String) (version : Int) (pages : Option Pages) :
    db.Migrates { db.stepped now (pendingSteps version) with
      version := some (MigrationReport.ofVersion version false).toVersion
      pages := pages } version where
  reached := congrArg some (MigrationReport.toVersion_ofVersion version false)
  recorded := by
    have hversions : ((pendingSteps version).map fun step =>
        (⟨step.target, now⟩ : AppliedMigration)).map (·.version) =
        migrationTargets.filter (version < ·) := by
      rw [List.map_map, ← targets_pendingSteps]
      rfl
    refine ⟨_, rfl, hversions, ?_⟩
    rw [hversions]
    exact pairwise_migrationTargets.filter _
  existing := Schema.tables_foldl_addIndex ..
  indexes := by
    intro i
    refine (Schema.mem_indexes_foldl_addIndex ..).trans (or_congr_right ?_)
    simp [pendingSteps, and_assoc]
  tables := rfl
  lost := rfl

end Database

namespace Update

variable {db changed : Database} {now : String}

theorem of_apply_makeStep_ok {step : MigrationStep}
    (h : (makeStep now step).apply db = (.ok (), changed)) : changed = db.stepped now [step] := by
  unfold makeStep at h
  obtain ⟨_, _, hedges, h⟩ := of_apply_bind_ok h
  obtain ⟨-, rfl⟩ := Prod.mk.inj hedges
  obtain ⟨_, _, hindex, h⟩ := of_apply_bind_ok h
  obtain ⟨-, rfl⟩ := Prod.mk.inj hindex
  obtain ⟨_, _, hhistory, h⟩ := of_apply_bind_ok h
  obtain ⟨-, rfl⟩ := Prod.mk.inj hhistory
  exact (Prod.mk.inj h).2.symm

theorem of_apply_forM_makeStep_ok {steps : List MigrationStep}
    (h : (steps.forM (makeStep now)).apply db = (.ok (), changed)) :
    changed = db.stepped now steps := by
  induction steps generalizing db with
  | nil =>
    obtain ⟨-, rfl⟩ := Prod.mk.inj h
    simp [Database.stepped]
  | cons step steps ih =>
    obtain ⟨_, middle, hstep, hrest⟩ := of_apply_bind_ok h
    rw [ih hrest, of_apply_makeStep_ok hstep]
    simp [Database.stepped]

theorem of_apply_makeSteps_ok {version : Int}
    (h : (makeSteps now version).apply db = (.ok (), changed)) :
    changed = { db.stepped now (pendingSteps version) with
      version := some (MigrationReport.ofVersion version false).toVersion } := by
  obtain ⟨_, middle, hsteps, h⟩ := of_apply_bind_ok h
  rw [← (Prod.mk.inj h).2, ← of_apply_forM_makeStep_ok hsteps]

end Update

/-! ## Stores -/

namespace Store

variable {s : Store} {version : Int}

theorem run_migrate_of_error {cause : StoreError} (h : s.database.storedVersion = .error cause)
    (dryRun : Bool) : s.run (StoreM.migrate dryRun) = (.error cause, s) := by
  have hread : s.run (StoreM.read (·.storedVersion)) = (.error cause, s) := by rw [run_read, h]
  rw [StoreM.migrate, run_bind_error hread]

theorem run_migrate_report (h : s.database.storedVersion = .ok version) (dryRun : Bool)
    (hnothing : ((pendingSteps version).isEmpty || dryRun) = true) :
    s.run (StoreM.migrate dryRun) = (.ok (MigrationReport.ofVersion version dryRun), s) := by
  have hread : s.run (StoreM.read (·.storedVersion)) = (.ok version, s) := by rw [run_read, h]
  rw [StoreM.migrate, run_bind_ok hread]
  dsimp only
  rw [if_pos hnothing]
  rfl

theorem run_migrate_of_pending (h : s.database.storedVersion = .ok version)
    (hpending : pendingSteps version ≠ []) :
    s.run (StoreM.migrate false) = s.run (do
      StoreM.transact (fun _ => .none) (Update.makeSteps s.now version) fun _ => .schema
      return MigrationReport.ofVersion version false) := by
  have hread : s.run (StoreM.read (·.storedVersion)) = (.ok version, s) := by rw [run_read, h]
  have hsomething : ¬((pendingSteps version).isEmpty || false) = true := by simpa using hpending
  rw [StoreM.migrate, run_bind_ok hread]
  dsimp only
  rw [if_neg hsomething, run_bind_ok run_get]

/-- A migration that fails leaves the store as it was, and so does one that has nothing to do; any
other makes the steps. -/
theorem run_migrate_cases (hundoes : s.engine.undoes = true) (dryRun : Bool) :
    (∃ cause, s.run (StoreM.migrate dryRun) = (.error cause, s)) ∨
    ∃ version, s.database.storedVersion = .ok version ∧
      (((pendingSteps version).isEmpty || dryRun) = true ∧ s.run (StoreM.migrate dryRun) =
          (.ok (MigrationReport.ofVersion version dryRun), s) ∨
        ∃ changed pages,
          (Update.makeSteps s.now version).apply s.database = (.ok (), changed) ∧
          s.run (StoreM.migrate dryRun) = (.ok (MigrationReport.ofVersion version dryRun),
            { s with database := { changed with pages := pages } })) := by
  cases hversion : s.database.storedVersion with
  | error cause => exact .inl ⟨cause, run_migrate_of_error hversion dryRun⟩
  | ok version =>
    by_cases hnothing : ((pendingSteps version).isEmpty || dryRun) = true
    · exact .inr ⟨version, rfl, .inl ⟨hnothing, run_migrate_report hversion dryRun hnothing⟩⟩
    · obtain ⟨hpending, rfl⟩ : pendingSteps version ≠ [] ∧ dryRun = false := by
        simpa [List.isEmpty_iff] using hnothing
      rw [run_migrate_of_pending hversion hpending]
      obtain ⟨cause, hrun⟩ | ⟨_, changed, pages, happly, hrun⟩ := run_transact_cases hundoes
      · exact .inl ⟨cause, run_bind_error hrun⟩
      · exact .inr ⟨version, rfl, .inr ⟨changed, pages, happly, run_bind_ok hrun⟩⟩

/-- The steps are all made, or none is. -/
theorem run_migrate_false (hundoes : s.engine.undoes = true) :
    (∃ cause, s.run (StoreM.migrate false) = (.error cause, s)) ∨
    ∃ version db, s.database.storedVersion = .ok version ∧ s.database.Migrates db version ∧
      s.run (StoreM.migrate false) =
        (.ok (MigrationReport.ofVersion version false), { s with database := db }) := by
  refine (run_migrate_cases hundoes false).imp_right ?_
  rintro ⟨version, hversion, ⟨hnothing, hrun⟩ | ⟨changed, pages, happly, hrun⟩⟩
  · have hpending : pendingSteps version = [] := by simpa [List.isEmpty_iff] using hnothing
    exact ⟨version, s.database, hversion, Database.migrates_of_pendingSteps_eq_nil
      (Database.storedVersion_eq_ok hversion) hpending, hrun⟩
  · refine ⟨version, _, hversion, ?_, hrun⟩
    rw [Update.of_apply_makeSteps_ok happly]
    exact Database.migrates_stepped s.database s.now version pages

/-- **A migration is all or nothing, and a dry run tells the truth.** Whatever version a database
has and whatever is missing of it, a migration either fails and changes nothing, or leads to the
present version, if that is later, with a record of each step that was lacking, apart from pages.
A dry run changes nothing either, and tells what a migration does if it succeeds. -/
theorem migration_all_or_nothing (s : Store) (hundoes : s.engine.undoes = true) :
    ((∃ cause, s.run (StoreM.migrate false) = (.error cause, s)) ∨
      ∃ version report db, s.database.version = some version ∧ s.database.Migrates db version ∧
        s.run (StoreM.migrate false) = (.ok report, { s with database := db })) ∧
    (s.run (StoreM.migrate true)).2 = s ∧
    ∀ version, s.database.storedVersion = .ok version →
      ∃ told, (s.run (StoreM.migrate true)).1 = .ok told ∧
        ∀ report, (s.run (StoreM.migrate false)).1 = .ok report →
          told.fromVersion = report.fromVersion ∧ told.toVersion = report.toVersion ∧
            told.statements = report.statements := by
  have hreal := run_migrate_false hundoes
  refine ⟨hreal.imp_right ?_, ?_, fun version hversion => ?_⟩
  · rintro ⟨version, db, hversion, hmigrates, hrun⟩
    exact ⟨version, _, db, Database.storedVersion_eq_ok hversion, hmigrates, hrun⟩
  · cases hversion : s.database.storedVersion with
    | error cause => rw [run_migrate_of_error hversion]
    | ok version => rw [run_migrate_report hversion true (Bool.or_true _)]
  · refine ⟨_, by rw [run_migrate_report hversion true (Bool.or_true _)], fun report hreport => ?_⟩
    obtain ⟨cause, hrun⟩ | ⟨stored, db, hstored, -, hrun⟩ := hreal <;> rw [hrun] at hreport
    · cases hreport
    · obtain rfl := Except.ok.inj (hversion.symm.trans hstored)
      obtain rfl := Except.ok.inj hreport
      exact ⟨rfl, rfl, rfl⟩

/-- A database of the base schema is migrated; one that has lost the table of its history is not. -/
theorem migration_all_or_nothing_damaged :
    let s := fresh true false .standard .idempotent "now"
    let damaged : Store := { s with database := { s.database with
      schema := s.database.schema.dropTable .history } }
    (∃ report db, s.database.Migrates db 1 ∧
      s.run (StoreM.migrate false) = (.ok report, { s with database := db })) ∧
    ∃ cause, damaged.run (StoreM.migrate false) = (.error cause, damaged) := by
  intro s damaged
  have hmigrated : (s.run (StoreM.migrate false)).1.isOk = true := by decide +kernel
  have hfailed : (damaged.run (StoreM.migrate false)).1.isOk = false := by decide +kernel
  constructor
  · obtain ⟨cause, hrun⟩ | ⟨version, report, db, hversion, hmigrates, hrun⟩ :=
      (migration_all_or_nothing s rfl).1
    · rw [hrun] at hmigrated
      cases hmigrated
    · cases hversion
      exact ⟨report, db, hmigrates, hrun⟩
  · refine (migration_all_or_nothing damaged rfl).1.resolve_right ?_
    rintro ⟨_, _, _, -, -, hrun⟩
    rw [hrun] at hfailed
    cases hfailed

/-- **Without its journal, a database in memory does not survive a migration that fails**: if there
is no room for the index, not even the version can be read any more. -/
theorem migration_journal_off :
    let config : StoreConfig := ⟨true, none, false,
      [("journal_mode", "off"), ("max_page_count", "17")], .standard, .idempotent⟩
    ∃ opened, (openDatabase config "now" .empty).1 = .ok opened ∧
      let left := (opened.run (StoreM.migrate false)).2
      (opened.run (StoreM.migrate false)).1 = .error .schema ∧
        opened.database.storedVersion = .ok 1 ∧ left.database.storedVersion = .error .schema := by
  intro config
  have hrun : (openDatabase config "now" .empty).1.toOption.any (fun opened =>
      (opened.run (StoreM.migrate false)).1 = .error .schema ∧
        opened.database.storedVersion = .ok 1 ∧
        (opened.run (StoreM.migrate false)).2.database.storedVersion = .error .schema) = true := by
    decide +kernel
  obtain ⟨opened, hopen, hleft⟩ := exists_of_toOption_any hrun
  exact ⟨opened, hopen, of_decide_eq_true hleft⟩

end Store

end FactGraph
