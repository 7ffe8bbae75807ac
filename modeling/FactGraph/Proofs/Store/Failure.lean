import FactGraph.Proofs.Store.Integrity

/-!
# Calls that fail

A call that writes may fail at any point: before it writes anything, in a later chunk, after some of
the values, after a removal, or because there is no room. In a store that can undo changes it then
leaves no trace (`Store.afterCall_of_error`): tables, pages, the list of edges to be removed and the
settings of the session are what they were, so that whatever follows goes as if the call had not
been made.

Each call reads and checks first and then makes one transaction (`StoreM.IsAtomic`). A store that
can undo changes stays so (`Store.undoes_afterSteps`), so that the result holds after any history of
a session. A store can undo changes unless a setting turns its journal off
(`StoreConfig.KeepsJournal.undoes`); in memory a failed call then leaves what it has done so far
(`Store.afterCall_journal_off`).
-/

namespace FactGraph

/-! ## Operations -/

namespace StoreM

variable {α β : Type}

/-- In a store that can undo changes, the operation changes the database if it succeeds, and nothing
if it fails. -/
def IsAtomic (operation : StoreM α) : Prop :=
  ∀ s : Store, s.engine.undoes = true →
    (∃ cause, s.run operation = (.error cause, s)) ∨
    ∃ a db, s.run operation = (.ok a, { s with database := db })

theorem isAtomic_map (f : α → β) {x : StoreM α} (hx : IsAtomic x) : IsAtomic (f <$> x) := by
  intro s hundoes
  rw [map_eq_pure_bind]
  obtain ⟨cause, hrun⟩ | ⟨a, db, hrun⟩ := hx s hundoes
  · exact .inl ⟨cause, Store.run_bind_error hrun⟩
  · exact .inr ⟨f a, db, Store.run_bind_ok hrun⟩

theorem isAtomic_transact (order : Tables → WriteOrder) (u : Update α)
    (called : StoreError → StoreError) : IsAtomic (transact order u called) :=
  fun _ hundoes => (Store.run_transact_cases hundoes).imp_right
    fun ⟨a, _, _, _, hrun⟩ => ⟨a, _, hrun⟩

/-- **Every call is atomic.** -/
theorem covers_isAtomic : Covers IsAtomic where
  answer := fun a s _ => .inr ⟨a, s.database, rfl⟩
  map := isAtomic_map
  bind := by
    intro α β x f hx hf s hundoes
    obtain ⟨cause, hrun⟩ | ⟨a, hfirst, hrun⟩ := hx.run_bind_cases f s
    · exact .inl ⟨cause, hrun⟩
    · rw [hrun]
      exact hf s a hfirst s hundoes
  insertion := fun order _ _ _ _ => isAtomic_transact order _ id
  replacement := fun order _ _ _ _ _ => isAtomic_transact order _ id
  removal := fun order _ => isAtomic_transact order _ id
  removalOfObservations := fun order _ _ => isAtomic_transact order _ id

end StoreM

namespace Store

variable {s : Store}

/-- **A call that fails leaves no trace.** -/
theorem afterCall_of_error (hundoes : s.engine.undoes = true) {call : WriteCall}
    {cause : StoreError} (hfail : (s.run call.operation).1 = .error cause) :
    s.afterCall call = s := by
  rw [afterCall_eq]
  obtain ⟨_, hrun⟩ | ⟨_, _, hrun⟩ := StoreM.covers_isAtomic.operation call s hundoes
  · rw [hrun]
  · rw [hrun] at hfail
    cases hfail

end Store

/-! ## Sessions -/

/-- What is done with a store in a session, one thing after the other. -/
inductive SessionStep where
  | write (call : WriteCall)
  | beginTransaction
  | commit
  | rollback
  | migrate (dryRun : Bool)

namespace SessionStep

def operation : SessionStep → StoreM Unit
  | write call => call.operation
  | beginTransaction => StoreM.beginTransaction
  | commit => StoreM.commit
  | rollback => StoreM.rollback
  | migrate dryRun => discard (StoreM.migrate dryRun)

end SessionStep

/-- The store after these steps, each of which may have failed. -/
def Store.afterSteps (s : Store) (steps : List SessionStep) : Store :=
  steps.foldl (fun s step => (s.run step.operation).2) s

namespace StoreM

variable {α β : Type}

/-- A store that can undo changes keeps its engine, whatever comes of the operation. -/
def KeepsEngine (operation : StoreM α) : Prop :=
  ∀ s : Store, s.engine.undoes = true → (s.run operation).2.engine = s.engine

theorem IsAtomic.keepsEngine {x : StoreM α} (hx : IsAtomic x) : KeepsEngine x := by
  intro s hundoes
  obtain ⟨_, hrun⟩ | ⟨_, _, hrun⟩ := hx s hundoes <;> rw [hrun]

theorem ReadsOnly.keepsEngine {x : StoreM α} (hx : ReadsOnly x) : KeepsEngine x := by
  intro s _
  rw [hx s]

theorem keepsEngine_bind {x : StoreM α} {f : α → StoreM β} (hx : KeepsEngine x)
    (hf : ∀ a, KeepsEngine (f a)) : KeepsEngine (x >>= f) := by
  intro s hundoes
  have hfirst := hx s hundoes
  rw [Store.run_bind]
  rcases hrun : s.run x with ⟨cause | a, middle⟩ <;> rw [hrun] at hfirst
  · exact hfirst
  · exact (hf a middle (by rw [hfirst, hundoes])).trans hfirst

theorem keepsEngine_beginTransaction : KeepsEngine beginTransaction := by
  intro s _
  rw [Store.run_beginTransaction]
  split <;> rfl

theorem keepsEngine_commit : KeepsEngine commit := by
  intro s _
  rw [Store.run_commit]
  split <;> rfl

theorem keepsEngine_rollback : KeepsEngine rollback := fun _ _ => rfl

theorem keepsEngine_migrate (dryRun : Bool) : KeepsEngine (migrate dryRun) := by
  unfold migrate
  refine keepsEngine_bind (readsOnly_read _).keepsEngine fun version => ?_
  dsimp only
  split
  · exact (readsOnly_pure _).keepsEngine
  · refine keepsEngine_bind readsOnly_get.keepsEngine fun s => ?_
    exact keepsEngine_bind (isAtomic_transact _ _ _).keepsEngine fun _ =>
      (readsOnly_pure _).keepsEngine

end StoreM

theorem SessionStep.keepsEngine (step : SessionStep) : step.operation.KeepsEngine := by
  cases step with
  | write call => exact (StoreM.covers_isAtomic.operation call).keepsEngine
  | beginTransaction => exact StoreM.keepsEngine_beginTransaction
  | commit => exact StoreM.keepsEngine_commit
  | rollback => exact StoreM.keepsEngine_rollback
  | migrate dryRun =>
    intro s hundoes
    show (s.run (discard (StoreM.migrate dryRun))).2.engine = s.engine
    rw [Store.run_discard, StoreM.keepsEngine_migrate dryRun s hundoes]

/-! ## Engines that can undo changes -/

/-- The setting of this name and value turns the journal off. -/
def Setting.TurnsJournalOff (name value : String) : Prop :=
  name.toLower = "journal_mode" ∧ startsWord value "off" = true

namespace Engine

variable {e e' : Engine}

theorem undoes_write {layout : PageLayout} (h : e.write layout = .ok e') :
    e'.undoes = e.undoes := by
  unfold write at h
  split at h <;> cases h
  rfl

theorem undoes_arrange (layout : PageLayout) : (e.arrange layout).undoes = e.undoes := by
  unfold arrange
  split <;> rfl

/-- Only the setting of the journal has to do with undoing. -/
theorem undoes_change {name value : String} (h : e.change name value = .ok e')
    (hname : name ≠ "journal_mode") : e'.undoes = e.undoes := by
  unfold change at h
  -- One setting after the other. Of all of them only that of the journal writes what undoing
  -- depends on.
  split at h
  next => exact undoes_write h
  next =>
    split at h
    case h_7 => exact absurd rfl hname
    all_goals repeat' split at h
    all_goals first
      | exact undoes_write h
      | cases h; done
      | cases h; rfl
      | cases h; exact undoes_arrange _

theorem undoes_change_journal {value : String} (h : e.change "journal_mode" value = .ok e')
    (hvalue : ¬Setting.startsWord value "off" = true) (hundoes : e.undoes = true) :
    e'.undoes = true := by
  have hkept : "journal_mode" ∉ Setting.writtenNames := by decide
  simp only [change, if_neg hkept, if_neg hvalue] at h
  split at h <;> cases h
  · rfl
  · exact hundoes

theorem undoes_set {name value : String} (h : e.set name value = .ok e')
    (hjournal : ¬Setting.TurnsJournalOff name value) (hundoes : e.undoes = true) :
    e'.undoes = true := by
  unfold set at h
  split at h
  next =>
    by_cases hname : name.toLower = "journal_mode"
    · rw [hname] at h
      exact undoes_change_journal h (fun hvalue => hjournal ⟨hname, hvalue⟩) hundoes
    · rwa [undoes_change h hname]
  next => cases h

theorem undoes_ofSettings {settings : List (String × String)} (h : e.ofSettings settings = .ok e')
    (hjournal : ∀ setting ∈ settings, ¬Setting.TurnsJournalOff setting.1 setting.2)
    (hundoes : e.undoes = true) : e'.undoes = true := by
  induction settings generalizing e with
  | nil =>
    cases h
    exact hundoes
  | cons setting settings ih =>
    obtain ⟨name, value⟩ := setting
    obtain ⟨hfirst, hrest⟩ := List.forall_mem_cons.1 hjournal
    obtain ⟨middle, hset, h⟩ := exists_of_bind_eq_ok h
    exact ih h hrest (undoes_set hset hfirst hundoes)

end Engine

namespace StoreConfig

/-- No setting turns the journal off. -/
def KeepsJournal (config : StoreConfig) : Prop :=
  ∀ setting ∈ config.settings, ¬Setting.TurnsJournalOff setting.1 setting.2

/-- **With its journal, an engine can undo changes.** -/
theorem KeepsJournal.undoes {config : StoreConfig} (h : config.KeepsJournal) {engine : Engine}
    (hengine : config.engine = .ok engine) : engine.undoes = true := by
  obtain ⟨e, hset, hengine⟩ := exists_of_bind_eq_ok hengine
  cases hengine
  simp [Engine.undoes_ofSettings hset h rfl]

end StoreConfig

/-! ## Runs -/

namespace Store

variable {s : Store}

/-- **A store that can undo changes stays so.** -/
theorem undoes_afterSteps (hundoes : s.engine.undoes = true) (steps : List SessionStep) :
    (s.afterSteps steps).engine.undoes = true := by
  induction steps generalizing s with
  | nil => exact hundoes
  | cons step steps ih =>
    have hengine := step.keepsEngine s hundoes
    exact ih (by rw [hengine, hundoes])

theorem engine_openDatabase {config : StoreConfig} {now : String} {found : Database}
    {opened : Store} (h : (openDatabase config now found).1 = .ok opened) :
    config.engine = .ok opened.engine := by
  unfold openDatabase at h
  split at h
  next => cases h
  next engine hengine =>
    rw [hengine]
    dsimp only at h
    split at h
    · split at h
      · cases h
        rfl
      · cases h
    · cases h

/-- **A call that fails leaves no trace**, at any time of a session with a store that keeps its
journal: the tables are what they were, and whatever comes next has the outcome and the effect that
it would have had without the call. -/
theorem run_afterCall_of_error (config : StoreConfig) (now : String) (found : Database)
    (opened : Store) (hopen : (openDatabase config now found).1 = .ok opened)
    (hjournal : config.KeepsJournal) (earlier : List SessionStep) (call : WriteCall)
    (cause : StoreError)
    (hfail : ((opened.afterSteps earlier).run call.operation).1 = .error cause) :
    let s := opened.afterSteps earlier
    (s.afterCall call).database.tables = s.database.tables ∧
      ∀ (α : Type) (next : StoreM α), (s.afterCall call).run next = s.run next := by
  intro s
  have hundoes : opened.engine.undoes = true := hjournal.undoes (engine_openDatabase hopen)
  have hsame : s.afterCall call = s :=
    afterCall_of_error (undoes_afterSteps hundoes earlier) hfail
  exact ⟨by rw [hsame], fun α next => by rw [hsame]⟩

/-- A statement whose number cannot be stored. -/
def numberlessStatement (id : String) : Statement :=
  ⟨⟨id, "n", "l", "NaN", .quantity⟩, .quantity ⟨.float .nan, none, none, none, none⟩⟩

/-- A replacement that has removed one statement and added another, each in a chunk of its own, when
its last statement fails. -/
theorem run_afterCall_of_error_replace :
    let s := (fresh false false ⟨1, true⟩ .idempotent "now").afterSteps
      [.write (.insert .idempotent [symbolStatement "x" "a"])]
    let call := WriteCall.replace "n" ["l"] [symbolStatement "y" "b", numberlessStatement "z"]
    (s.run call.operation).1 = .error .query ∧
      (s.afterCall call).database.tables = s.database.tables ∧
      ∀ (α : Type) (next : StoreM α), (s.afterCall call).run next = s.run next := by
  intro s call
  have hfail : (s.run call.operation).1 = .error .query := by decide +kernel
  have hopen := openDatabase_empty false false ⟨1, true⟩ .idempotent "now"
  have hjournal : StoreConfig.KeepsJournal ⟨false, none, false, [], ⟨1, true⟩, .idempotent⟩ :=
    fun _ hsetting => absurd hsetting List.not_mem_nil
  exact ⟨hfail, run_afterCall_of_error _ "now" .empty _ hopen hjournal _ call _ hfail⟩

/-- **Without its journal, a database in memory keeps what a failed call has done**: the first edge
of a strict insertion stays, without its value. -/
theorem afterCall_journal_off :
    ∃ opened, (openDatabase ⟨false, none, false, [("journal_mode", "off")], .standard, .idempotent⟩
        "now" .empty).1 = .ok opened ∧
      let s := opened.afterCall (.insert .idempotent [symbolStatement "x" "a"])
      let call := WriteCall.insert .strict [symbolStatement "y" "b", symbolStatement "x" "a"]
      (s.run call.operation).1 = .error (.importConflict "x") ∧
        (s.afterCall call).database.tables ≠ s.database.tables := by
  have hengine : (StoreConfig.mk false none false [("journal_mode", "off")] .standard
      .idempotent).engine = .ok { Engine.standard with undoes := false } := by decide +kernel
  refine ⟨_, openDatabase_of_engine hengine rfl rfl rfl rfl rfl "now", by decide +kernel, ?_⟩
  intro hsame
  have hsize := congrArg (fun t : Tables => t.edges.size) hsame
  exact absurd hsize (by decide +kernel)

end Store

end FactGraph
