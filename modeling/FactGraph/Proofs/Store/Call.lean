import FactGraph.Metadata.Store
import FactGraph.Proofs.Store.Transaction

/-!
# Calls that write

Each call reads and checks first, and then makes one transaction with one of four changes. So what
holds of these transactions, whatever is read before them, holds of every call
(`StoreM.Covers.operation`). That a call fails without a trace, that it keeps the integrity of a
store, and that it preserves what its changes preserve are shown in this way, for all calls at once.
-/

namespace FactGraph

/-- A call that writes, with its arguments. -/
inductive WriteCall where
  | insert (mode : InsertMode) (statements : List Statement)
  | replace (node : String) (predicates : List String) (statements : List Statement)
  | deleteIds (ids : List String)
  | deleteObservations (dataset : String) (properties : List String)
  | putDataset (d : Dataset)
  | putVariable (v : Variable)
  | putProperty (q : QualifierProperty)

/-- The operation of a call, of whose answer only counts whether it is a failure. -/
def WriteCall.operation : WriteCall → StoreM Unit
  | insert mode statements => discard (StoreM.insert mode statements)
  | replace node predicates statements => discard (StoreM.replace node predicates statements)
  | deleteIds ids => discard (StoreM.deleteIds ids)
  | deleteObservations dataset properties =>
    discard (StoreM.deleteObservations dataset properties)
  | putDataset d => discard (StoreM.putDataset d)
  | putVariable v => discard (StoreM.putVariable v)
  | putProperty q => discard (StoreM.putProperty q)

/-- The store after a call, which may have failed. -/
def Store.afterCall (s : Store) : WriteCall → Store
  | .insert mode statements => (s.run (StoreM.insert mode statements)).2
  | .replace node predicates statements => (s.run (StoreM.replace node predicates statements)).2
  | .deleteIds ids => (s.run (StoreM.deleteIds ids)).2
  | .deleteObservations dataset properties =>
    (s.run (StoreM.deleteObservations dataset properties)).2
  | .putDataset d => (s.run (StoreM.putDataset d)).2
  | .putVariable v => (s.run (StoreM.putVariable v)).2
  | .putProperty q => (s.run (StoreM.putProperty q)).2

/-- The store after these calls, one after the other. -/
def Store.after (s : Store) (calls : List WriteCall) : Store := calls.foldl afterCall s

namespace Store

variable {s : Store}

theorem run_map {α β : Type} (f : α → β) (x : StoreM α) : (s.run (f <$> x)).2 = (s.run x).2 := by
  rw [map_eq_pure_bind, run_bind]
  rcases s.run x with ⟨_ | _, _⟩ <;> rfl

theorem run_discard {α : Type} (x : StoreM α) : (s.run (discard x)).2 = (s.run x).2 :=
  run_map (fun _ => ()) x

theorem afterCall_eq (call : WriteCall) : s.afterCall call = (s.run call.operation).2 := by
  cases call <;> exact (run_discard _).symm

end Store

namespace StoreM

variable {α β : Type}

/-! ## Operations that only read -/

/-- The operation answers and changes nothing. -/
def ReadsOnly (operation : StoreM α) : Prop := ∀ s : Store, (s.run operation).2 = s

/-- After an operation that only reads either nothing more is done, or what follows is done in the
same store. -/
theorem ReadsOnly.run_bind_cases {x : StoreM α} (hx : ReadsOnly x) (f : α → StoreM β) (s : Store) :
    (∃ cause, s.run (x >>= f) = (.error cause, s)) ∨
      ∃ a, s.run x = (.ok a, s) ∧ s.run (x >>= f) = s.run (f a) := by
  have hsame := hx s
  rcases hrun : s.run x with ⟨cause | a, middle⟩ <;> rw [hrun] at hsame <;> subst hsame
  · exact .inl ⟨cause, Store.run_bind_error hrun⟩
  · exact .inr ⟨a, rfl, Store.run_bind_ok hrun⟩

/-- After an operation that only reads a store is kept as what follows keeps it. -/
theorem ReadsOnly.kept_bind {I : Store → Prop} {x : StoreM α} (hx : ReadsOnly x)
    {f : α → StoreM β} {s : Store} (h : I s)
    (hf : ∀ a, s.run x = (.ok a, s) → I (s.run (f a)).2) : I (s.run (x >>= f)).2 := by
  obtain ⟨cause, hrun⟩ | ⟨a, hfirst, hrun⟩ := hx.run_bind_cases f s <;> rw [hrun]
  · exact h
  · exact hf a hfirst

theorem readsOnly_pure (a : α) : ReadsOnly (pure a) := fun _ => rfl

theorem readsOnly_throw (cause : StoreError) : ReadsOnly (throw cause : StoreM α) := fun _ => rfl

theorem readsOnly_get : ReadsOnly (get : StoreM Store) := fun _ => rfl

theorem readsOnly_read (f : Database → Except StoreError α) : ReadsOnly (read f) := fun _ => rfl

theorem readsOnly_liftExcept (e : Except StoreError α) : ReadsOnly (liftM e : StoreM α) := by
  intro s
  rw [Store.run_liftExcept]

theorem readsOnly_requireWritable (called : StoreError → StoreError) :
    ReadsOnly (requireWritable called) := by
  intro s
  rw [Store.run_requireWritable]

/-! ## What calls are made of -/

/-- The property holds of operations that do nothing or one of the transactions of a call, and
whatever is read before or made of the answer. Statements are written only if they are in order. -/
structure Covers (C : ∀ {α : Type}, StoreM α → Prop) : Prop where
  answer : ∀ {α : Type} (a : α), C (pure a)
  map : ∀ {α β : Type} (f : α → β) {x : StoreM α}, C x → C (f <$> x)
  bind : ∀ {α β : Type} {x : StoreM α} {f : α → StoreM β}, ReadsOnly x →
    (∀ (s : Store) (a : α), s.run x = (.ok a, s) → C (f a)) → C (x >>= f)
  insertion : ∀ order config mode statements, checkStatements statements = .ok () →
    C (transact order (Update.insert config mode statements))
  replacement : ∀ order config node predicates statements, checkStatements statements = .ok () →
    C (transact order (Update.replace config node predicates statements))
  removal : ∀ order ids, C (transact order (Update.purge ids))
  removalOfObservations : ∀ order dataset properties,
    C (transact order (Update.purgeObservations dataset properties))

namespace Covers

variable {C : ∀ {α : Type}, StoreM α → Prop} (h : Covers C)

include h

theorem checked {statements : List Statement} {f : Unit → StoreM α}
    (hf : checkStatements statements = .ok () → C (f ())) :
    C ((liftM (checkStatements statements) : StoreM Unit) >>= f) := by
  refine h.bind (readsOnly_liftExcept _) fun s _ hrun => hf ?_
  rw [Store.run_liftExcept] at hrun
  exact (Prod.mk.inj hrun).1

theorem insert (mode : InsertMode) (statements : List Statement) :
    C (StoreM.insert mode statements) := by
  unfold StoreM.insert
  split
  · exact h.answer _
  · exact h.checked fun hcheck => h.bind readsOnly_get fun _ _ _ => h.insertion _ _ _ _ hcheck

theorem replace (node : String) (predicates : List String) (statements : List Statement) :
    C (StoreM.replace node predicates statements) := by
  unfold StoreM.replace
  exact h.checked fun hcheck => h.bind readsOnly_get fun _ _ _ => h.replacement _ _ _ _ _ hcheck

theorem deleteIds (ids : List String) : C (StoreM.deleteIds ids) := by
  unfold StoreM.deleteIds
  split
  · exact h.answer _
  · exact h.removal _ ids

theorem deleteObservations (dataset : String) (properties : List String) :
    C (StoreM.deleteObservations dataset properties) := by
  unfold StoreM.deleteObservations
  split
  · exact h.answer _
  · exact h.removalOfObservations _ dataset properties

theorem putDataset (d : Dataset) : C (StoreM.putDataset d) := by
  unfold StoreM.putDataset
  exact h.bind (readsOnly_liftExcept _) fun _ _ _ => h.replace _ _ _

theorem putVariable (v : Variable) : C (StoreM.putVariable v) := by
  unfold StoreM.putVariable
  refine h.bind (readsOnly_read _) fun _ dataset _ => ?_
  have hput : C (do StoreM.replace v.node Variable.fields (← v.statements)) :=
    h.bind (readsOnly_liftExcept _) fun _ _ _ => h.replace _ _ _
  split
  · exact h.bind (readsOnly_throw _) fun _ _ _ => hput
  · exact hput

theorem putProperty (q : QualifierProperty) : C (StoreM.putProperty q) := by
  unfold StoreM.putProperty
  exact h.bind (readsOnly_liftExcept _) fun _ _ _ => h.replace _ _ _

/-- **What covers the transactions of calls covers the calls.** -/
theorem operation (call : WriteCall) : C call.operation := by
  cases call with
  | insert mode statements => exact h.map _ (h.insert mode statements)
  | replace node predicates statements => exact h.map _ (h.replace node predicates statements)
  | deleteIds ids => exact h.map _ (h.deleteIds ids)
  | deleteObservations dataset properties => exact h.map _ (h.deleteObservations dataset properties)
  | putDataset d => exact h.map _ (h.putDataset d)
  | putVariable v => exact h.map _ (h.putVariable v)
  | putProperty q => exact h.map _ (h.putProperty q)

end Covers

end StoreM

end FactGraph
