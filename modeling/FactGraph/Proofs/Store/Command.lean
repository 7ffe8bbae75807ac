import FactGraph.Proofs.Store.Batch

/-!
# What the database is asked to do

A change asks the database for commands, one after the other. A command binds cells, of which there
is a limit, and one that inserts rows has to have rows (`StoreCommand.IsPossible`). Insertion and
replacement are told as programs over the commands that they ask for (`insertBy`, `replaceBy`). With
the commands themselves these are the changes (`Update.insert_eq_insertBy`,
`Update.replace_eq_replaceBy`), and with commands that are put on record they tell what was asked
for (`Recorded.commands`).

Main result: **the chunks of a batch do not show, and no command of an insertion or of a replacement
is too large or empty**, whatever the sizes of chunks that are configured
(`BatchConfig.execute_within_limits`).
-/

namespace FactGraph

-- Sums are those of the core library, as in the insertion itself.
attribute [local instance (high)] Zero.ofOfNat0

/-! ## Commands -/

/-- What the database is asked to do at once. -/
inductive StoreCommand where
  /-- Inserts rows of so many cells each. -/
  | insertRows (rows width : Nat)
  /-- Anything else; its text does not depend on the statements, and it binds so many cells. -/
  | fixed (cells : Nat)
  deriving DecidableEq, Repr

/-- The database can do it: it can bind the cells, and there is a row to insert. -/
def StoreCommand.IsPossible : StoreCommand → Prop
  | insertRows rows width => rows ≠ 0 ∧ rows * width ≤ maxBoundCells
  | fixed cells => cells ≤ maxBoundCells

/-! ## Changes by their commands -/

/-- The commands that insertions and replacements are made of. -/
structure Commands (m : Type → Type) where
  /-- Adds edges whose ids are not stored, and answers the ids of those that were added. -/
  writeEdges : List Edge → m (List String)
  /-- Adds values unless their ids have one, and tells which were added. -/
  writeValues : ValueKind → List Statement → m (List Bool)
  createDoomed : m Unit
  clearDoomed : m Unit
  /-- Puts the edges of a node under a predicate on the list. -/
  doomLookup : String → String → m Unit
  spare : String → m Unit
  deleteAbout : m Nat
  deleteListed : m Nat

section Program

variable {m : Type → Type} [Monad m] [MonadExceptOf StoreError m] (c : Commands m)

/-- Adds the edges of a chunk. -/
def addEdgesBy (mode : InsertMode) (chunk : List Statement) :
    StateT (List String) m (List Bool) := do
  let ids := chunk.map (·.edge.id)
  let first := Update.firstSeen (← get) ids
  modify (ids ++ ·)
  let written ← c.writeEdges (((chunk.zip first).filter (·.2)).map (·.1.edge))
  let fresh := (ids.zip first).map fun (id, first) => first && id ∈ written
  match mode, (chunk.zip fresh).find? (!·.2) with
  | .strict, some (s, _) => throw (.importConflict s.edge.id)
  | _, _ => return fresh

/-- Adds the values of one kind. -/
def addValuesBy (config : BatchConfig) (kind : ValueKind) (statements : List Statement) :
    m Nat := do
  let group := statements.filter fun s => s.value.kind = kind
  if group.isEmpty then return 0
  let added ← (config.perStatement (valueWidth kind)).execute (c.writeValues kind) group
  return added.count true

/-- Inserts statements by the commands. -/
def insertBy (config : BatchConfig) (mode : InsertMode) (statements : List Statement) :
    m ImportStats := do
  let fresh ← ((config.perStatement edgeWidth).execute (addEdgesBy c mode) statements).run' []
  let added := ((statements.zip fresh).filter (·.2)).map (·.1)
  let values ← ValueKind.all.mapM fun kind => addValuesBy c config kind added
  return ⟨fresh.count true, fresh.count false, values.sum⟩

/-- Removes by the commands what is put on the list. -/
def purgeListedBy (list : m Unit) : m Nat := do
  c.createDoomed
  c.clearDoomed
  list
  let about ← c.deleteAbout
  let listed ← c.deleteListed
  c.clearDoomed
  return about + listed

/-- Puts statements in the place of others by the commands. -/
def replaceBy (config : BatchConfig) (node : String) (predicates : List String)
    (statements : List Statement) : m ImportStats := do
  let _ ← purgeListedBy c do
    predicates.forM fun p => c.doomLookup node p
    statements.forM fun s => c.spare s.edge.id
  insertBy c config .idempotent statements

end Program

namespace Update

/-- The commands as changes. -/
def commands : Commands Update where
  writeEdges := writeEdges
  writeValues _ chunk := chunk.mapM fun s => addValue s.edge.id s.value
  createDoomed := createDoomed
  clearDoomed := clearDoomed
  doomLookup node p := doomEdges (·.lookup node p)
  spare := spare
  deleteAbout := deleteAbout
  deleteListed := deleteListed

variable (config : BatchConfig) (statements : List Statement)

/-- **An insertion is told by its commands.** -/
theorem insert_eq_insertBy (mode : InsertMode) :
    insert config mode statements = insertBy commands config mode statements := rfl

/-- **A replacement is told by its commands.** -/
theorem replace_eq_replaceBy (node : String) (predicates : List String) :
    replace config node predicates statements =
      replaceBy commands config node predicates statements := rfl

end Update

/-! ## Keeping a record -/

/-- A change that keeps a record of the commands that it asks for, those before a failure too. -/
abbrev Recorded (α : Type) := ExceptT StoreError (StateM (Database × List StoreCommand)) α

namespace Recorded

variable {α : Type}

/-- The outcome, the database and the record after the change. -/
def apply (r : Recorded α) (db : Database) (earlier : List StoreCommand) :
    Except StoreError α × Database × List StoreCommand :=
  (ExceptT.run r).run (db, earlier)

/-- A change after these commands have been put on record. -/
def asking (commands : List StoreCommand) (u : Update α) : Recorded α := fun (db, earlier) =>
  let (outcome, changed) := u.apply db
  (outcome, changed, earlier ++ commands)

/-- The commands, put on record with the cells that they bind. Without edges there is nothing to ask
for. -/
def commands : Commands Recorded where
  writeEdges edges :=
    asking (if edges.isEmpty then [] else [.insertRows edges.length edgeWidth])
      (Update.commands.writeEdges edges)
  writeValues kind chunk :=
    asking [.insertRows chunk.length (valueWidth kind)] (Update.commands.writeValues kind chunk)
  createDoomed := asking [.fixed 0] Update.commands.createDoomed
  clearDoomed := asking [.fixed 0] Update.commands.clearDoomed
  doomLookup node p := asking [.fixed 2] (Update.commands.doomLookup node p)
  spare id := asking [.fixed 1] (Update.commands.spare id)
  deleteAbout := asking [.fixed 0] Update.commands.deleteAbout
  deleteListed := asking [.fixed 0] Update.commands.deleteListed

end Recorded

/-! ## Programs that do the same step by step -/

/-- A relation between programs of two monads that holds of a program if it holds of its steps. -/
structure StepRelation (m n : Type → Type) [Monad m] [Monad n] where
  Relates {α : Type} : m α → n α → Prop
  ofPure {α : Type} (a : α) : Relates (pure a) (pure a)
  ofBind {α β : Type} {x : m α} {y : n α} {f : α → m β} {g : α → n β} (h : Relates x y)
    (hrest : ∀ a, Relates (f a) (g a)) : Relates (x >>= f) (y >>= g)

namespace StepRelation

variable {m n : Type → Type} [Monad m] [Monad n] (r : StepRelation m n) {α β : Type}

/-- Programs with a state, if they are related from each state on. -/
def stateT (σ : Type) : StepRelation (StateT σ m) (StateT σ n) where
  Relates x y := ∀ s, r.Relates (x.run s) (y.run s)
  ofPure a s := r.ofPure (a, s)
  ofBind h hrest s := r.ofBind (h s) fun (a, s) => hrest a s

theorem ofForM {f : α → m PUnit} {g : α → n PUnit} (h : ∀ a, r.Relates (f a) (g a))
    (items : List α) : r.Relates (items.forM f) (items.forM g) := by
  induction items with
  | nil => exact r.ofPure _
  | cons a items ih => exact r.ofBind (h a) fun _ => ih

variable [LawfulMonad m] [LawfulMonad n]

theorem ofMap {x : m α} {y : n α} (f : α → β) (h : r.Relates x y) :
    r.Relates (f <$> x) (f <$> y) := by
  rw [map_eq_pure_bind, map_eq_pure_bind]
  exact r.ofBind h fun a => r.ofPure (f a)

theorem ofMapM {items : List α} {f : α → m β} {g : α → n β}
    (h : ∀ a ∈ items, r.Relates (f a) (g a)) : r.Relates (items.mapM f) (items.mapM g) := by
  induction items with
  | nil =>
    rw [List.mapM_nil, List.mapM_nil]
    exact r.ofPure []
  | cons a items ih =>
    have hrest := ih fun x hx => h x (List.mem_cons_of_mem a hx)
    rw [List.mapM_cons, List.mapM_cons]
    exact r.ofBind (h a List.mem_cons_self) fun b => r.ofBind hrest fun bs => r.ofPure (b :: bs)

/-- A batch needs the relation on its chunks only. -/
theorem ofExecute {config : BatchConfig} {items : List α} {f : List α → m (List β)}
    {g : List α → n (List β)} (h : ∀ chunk ∈ config.chunks items, r.Relates (f chunk) (g chunk)) :
    r.Relates (config.execute f items) (config.execute g items) :=
  r.ofMap List.flatten (r.ofMapM h)

end StepRelation

/-! ## What is on record -/

namespace Recorded

variable {α β : Type}

/-- The change on record is the change, and all that it asks for is possible. -/
def Records (r : Recorded α) (u : Update α) : Prop :=
  ∀ db earlier, ∃ commands, r.apply db earlier =
      ((u.apply db).1, (u.apply db).2, earlier ++ commands) ∧
    ∀ command ∈ commands, command.IsPossible

theorem records_asking {commands : List StoreCommand} (h : ∀ command ∈ commands, command.IsPossible)
    (u : Update α) : Records (asking commands u) u :=
  fun _ _ => ⟨commands, rfl, h⟩

theorem records_throw (cause : StoreError) :
    Records (throw cause : Recorded α) (throw cause : Update α) :=
  fun _ earlier => ⟨[], by rw [List.append_nil]; rfl, nofun⟩

theorem records_bind {r : Recorded α} {u : Update α} {f : α → Recorded β} {g : α → Update β}
    (h : Records r u) (hrest : ∀ a, Records (f a) (g a)) : Records (r >>= f) (u >>= g) := by
  intro db earlier
  obtain ⟨commands, hrun, hpossible⟩ := h db earlier
  -- A failure ends both programs, on record with the commands up to it.
  rcases hchange : u.apply db with ⟨cause | a, middle⟩
  · rw [hchange] at hrun
    refine ⟨commands, ?_, hpossible⟩
    rw [Update.apply_bind_error hchange]
    exact run_bind_of_error hrun
  · rw [hchange] at hrun
    obtain ⟨more, hrestrun, hmore⟩ := hrest a middle (earlier ++ commands)
    refine ⟨commands ++ more, ?_, List.forall_mem_append.2 ⟨hpossible, hmore⟩⟩
    rw [Update.apply_bind_ok hchange, ← List.append_assoc, ← hrestrun]
    exact run_bind_of_ok hrun

/-- What is on record step by step is on record. -/
def records : StepRelation Recorded Update where
  Relates := Records
  ofPure a := fun _ earlier => ⟨[], by rw [List.append_nil]; rfl, nofun⟩
  ofBind := records_bind

/-- A command that binds few cells is always possible. -/
theorem records_fixed {cells : Nat} (h : cells ≤ maxBoundCells) (u : Update α) :
    Records (asking [.fixed cells] u) u := by
  refine records_asking ?_ u
  rw [List.forall_mem_singleton]
  exact h

/-- A chunk of edges is one command, unless none of its edges has come for the first time. -/
theorem records_writeEdges {edges : List Edge} (h : edges.length * edgeWidth ≤ maxBoundCells) :
    Records (commands.writeEdges edges) (Update.commands.writeEdges edges) := by
  refine records_asking ?_ _
  by_cases hempty : edges.isEmpty
  · simp [hempty]
  · rw [if_neg hempty, List.forall_mem_singleton]
    refine ⟨?_, h⟩
    rwa [ne_eq, List.length_eq_zero_iff, ← List.isEmpty_iff]

theorem records_writeValues {kind : ValueKind} {chunk : List Statement} (hne : chunk ≠ [])
    (h : chunk.length * valueWidth kind ≤ maxBoundCells) :
    Records (commands.writeValues kind chunk) (Update.commands.writeValues kind chunk) := by
  refine records_asking ?_ _
  rw [List.forall_mem_singleton]
  exact ⟨mt List.length_eq_zero_iff.1 hne, h⟩

theorem length_first_le (chunk : List Statement) (first : List Bool) :
    (((chunk.zip first).filter (·.2)).map (·.1.edge)).length ≤ chunk.length := by
  calc (((chunk.zip first).filter (·.2)).map (·.1.edge)).length
      = ((chunk.zip first).filter (·.2)).length := List.length_map _
    _ ≤ (chunk.zip first).length := List.length_filter_le _ _
    _ ≤ chunk.length := by
      rw [List.length_zip]
      exact Nat.min_le_left _ _

theorem records_addEdges {chunk : List Statement}
    (h : chunk.length * edgeWidth ≤ maxBoundCells) (mode : InsertMode) :
    (records.stateT (List String)).Relates (addEdgesBy commands mode chunk)
      (addEdgesBy Update.commands mode chunk) := by
  intro seen
  unfold addEdgesBy
  simp only [StateT.run_bind, StateT.run_get, StateT.run_modify, StateT.run_monadLift, pure_bind,
    bind_assoc]
  -- The cells are bounded by the chunk: what is written are edges of some of its statements.
  refine records_bind (records_writeEdges ?_) fun written => ?_
  · exact Nat.le_trans (Nat.mul_le_mul_right _ (length_first_le chunk _)) h
  · cases mode with
    | idempotent => exact records.ofPure _
    | strict =>
      generalize List.find? _ _ = old
      cases old with
      | none => exact records.ofPure _
      | some old => exact records_throw _

theorem valueWidth_bounds (kind : ValueKind) :
    1 ≤ valueWidth kind ∧ valueWidth kind ≤ maxBoundCells := by
  cases kind <;> decide

theorem records_addValues (config : BatchConfig) (kind : ValueKind) (statements : List Statement) :
    Records (addValuesBy commands config kind statements)
      (addValuesBy Update.commands config kind statements) := by
  obtain ⟨hpos, hwidth⟩ := valueWidth_bounds kind
  unfold addValuesBy
  -- A kind without statements asks for nothing. Otherwise no chunk is empty, so no command is
  -- without rows.
  by_cases hempty : (statements.filter fun s => s.value.kind = kind).isEmpty
  · simp only [hempty, if_true]
    exact records.ofPure 0
  · simp only [hempty]
    have hgroup := mt List.isEmpty_iff.2 hempty
    refine records_bind (records.ofExecute fun chunk hchunk => records_writeValues ?_ ?_)
      fun added => records.ofPure _
    · exact BatchConfig.ne_nil_of_mem_chunks hgroup hchunk
    · exact BatchConfig.length_mul_le_of_mem_chunks hpos hwidth hchunk

/-- **An insertion asks for what is possible**, and on record it is the insertion. -/
theorem records_insertBy (config : BatchConfig) (mode : InsertMode) (statements : List Statement) :
    Records (insertBy commands config mode statements)
      (insertBy Update.commands config mode statements) := by
  have hedges : (records.stateT (List String)).Relates
      ((config.perStatement edgeWidth).execute (addEdgesBy commands mode) statements)
      ((config.perStatement edgeWidth).execute (addEdgesBy Update.commands mode) statements) :=
    (records.stateT (List String)).ofExecute fun chunk hchunk =>
      records_addEdges (BatchConfig.length_mul_le_of_mem_chunks (by decide) (by decide) hchunk) mode
  have hfresh : Records
      (((config.perStatement edgeWidth).execute (addEdgesBy commands mode) statements).run' [])
      (((config.perStatement edgeWidth).execute (addEdgesBy Update.commands mode) statements).run'
        []) := by
    rw [StateT.run'_eq, StateT.run'_eq]
    exact records.ofMap (·.1) (hedges [])
  refine records_bind hfresh fun fresh => ?_
  have hvalues := fun added => records.ofMapM fun kind (_ : kind ∈ ValueKind.all) =>
    records_addValues config kind added
  exact records_bind (hvalues _) fun values => records.ofPure _

theorem records_purgeListedBy {list : Recorded Unit} {change : Update Unit}
    (h : Records list change) :
    Records (purgeListedBy commands list) (purgeListedBy Update.commands change) := by
  have hnone {β : Type} (u : Update β) : Records (asking [.fixed 0] u) u :=
    records_fixed (Nat.zero_le _) u
  exact records_bind (hnone _) fun _ => records_bind (hnone _) fun _ => records_bind h fun _ =>
    records_bind (hnone _) fun _ => records_bind (hnone _) fun _ => records_bind (hnone _) fun _ =>
      records.ofPure _

/-- **A replacement asks for what is possible**, and on record it is the replacement. -/
theorem records_replaceBy (config : BatchConfig) (node : String) (predicates : List String)
    (statements : List Statement) :
    Records (replaceBy commands config node predicates statements)
      (replaceBy Update.commands config node predicates statements) := by
  refine records_bind (records_purgeListedBy (records_bind ?_ fun _ => ?_)) fun _ =>
    records_insertBy config .idempotent statements
  · exact records.ofForM (fun _ => records_fixed (by decide) _) predicates
  · exact records.ofForM (fun _ => records_fixed (by decide) _) statements

end Recorded

/-! ## Batches -/

/-- **Chunks do not show, and keep within the limits.** A batch is worked off by calls on
consecutive slices, which end with the first that fails; what can be done piece by piece is done as
if there were no chunks; chunks for one statement fit into it; and insertions and replacements,
however long, which are made of commands, ask for none that binds too many cells or inserts no
rows. -/
theorem BatchConfig.execute_within_limits (config : BatchConfig) :
    (∀ {α β ε σ : Type} (operation : List α → ExceptT ε (StateM σ) (List β)) (items : List α),
      (∀ s, ∃ called uncalled outcome last,
        config.IsSlicing items (called ++ uncalled) ∧
        (config.execute operation items).run.run s = (outcome, last) ∧
        Calls operation s called outcome last ∧ (outcome.isOk = true → uncalled = [])) ∧
      (Distributes operation → config.execute operation items = operation items)) ∧
    (∀ width, 1 ≤ width → width ≤ maxBoundCells →
      (config.perStatement width).chunked = true ∧ 1 ≤ (config.perStatement width).size ∧
        (config.perStatement width).size * width ≤ maxBoundCells) ∧
    (∀ mode statements,
      Update.insert config mode statements = insertBy Update.commands config mode statements ∧
      Recorded.Records (insertBy Recorded.commands config mode statements)
        (Update.insert config mode statements)) ∧
    ∀ node predicates statements,
      Update.replace config node predicates statements =
        replaceBy Update.commands config node predicates statements ∧
      Recorded.Records (replaceBy Recorded.commands config node predicates statements)
        (Update.replace config node predicates statements) := by
  refine ⟨?_, ?_, fun mode statements => ?_, fun node predicates statements => ?_⟩
  · intro α β ε σ operation items
    refine ⟨?_, fun h => config.execute_of_distributes h items⟩
    intro s
    obtain ⟨called, uncalled, outcome, last, hslices, hrun, hcalls, hall⟩ :=
      config.exists_calls_execute operation items s
    refine ⟨called, uncalled, outcome, last, ?_, hrun, hcalls, hall⟩
    rw [hslices]
    exact config.isSlicing_chunks items
  · intro width hpos hwidth
    exact ⟨config.chunked_perStatement width, config.one_le_size_perStatement width,
      config.size_perStatement_mul_le hpos hwidth⟩
  · have hprogram := Update.insert_eq_insertBy config statements mode
    exact ⟨hprogram, hprogram ▸ Recorded.records_insertBy config mode statements⟩
  · have hprogram := Update.replace_eq_replaceBy config statements node predicates
    exact ⟨hprogram, hprogram ▸ Recorded.records_replaceBy config node predicates statements⟩

/-- Doubling the items one by one, with their sum kept, in chunks of two; and rows of five cells. -/
theorem BatchConfig.execute_within_limits_doubling :
    let doubling : List Nat → ExceptT StoreError (StateM Nat) (List Nat) :=
      fun slice => slice.mapM fun n => do modify (· + n); return 2 * n
    Distributes doubling ∧
      (⟨2, true⟩ : BatchConfig).execute doubling [1, 2, 3, 4, 5] = doubling [1, 2, 3, 4, 5] ∧
      1 ≤ 5 ∧ 5 ≤ maxBoundCells ∧
      (standard.perStatement 5).size = 6553 ∧
      (standard.perStatement 5).size * 5 ≤ maxBoundCells := by
  intro doubling
  have hdistributes : Distributes doubling := by
    intro front back
    exact List.mapM_append
  obtain ⟨hcalls, -⟩ := execute_within_limits ⟨2, true⟩
  obtain ⟨-, hsizes, -⟩ := execute_within_limits standard
  exact ⟨hdistributes, (hcalls doubling _).2 hdistributes, by decide, by decide, by decide,
    (hsizes 5 (by decide) (by decide)).2.2⟩

end FactGraph
