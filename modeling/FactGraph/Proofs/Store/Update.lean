import FactGraph.Proofs.Outcome
import FactGraph.Store.Removal

/-!
# Running changes

What a change of a database answers and leaves, part by part. A change that is put together by the
operations of its monad is run by rewriting with these lemmas, so that the proofs about insertion
and removal see outcomes and databases only.
-/

namespace FactGraph

variable {α β : Type}

/-! ## Batches -/

theorem flatten_chunksOf (size : Nat) (items : List α) : (chunksOf size items).flatten = items := by
  fun_induction chunksOf size items with
  | case1 => rfl
  | case2 items _ ih => rw [List.flatten_cons, ih, List.take_append_drop]

/-- **Chunks lose nothing**: joined, they are the list. -/
theorem BatchConfig.flatten_chunks (config : BatchConfig) (items : List α) :
    (config.chunks items).flatten = items := by
  unfold chunks
  split
  · simp
  · exact flatten_chunksOf _ items

theorem BatchConfig.execute_mapM {m : Type → Type} [Monad m] [LawfulMonad m]
    (config : BatchConfig) (f : α → m β) (items : List α) :
    config.execute (fun chunk => chunk.mapM f) items = items.mapM f := by
  have flat (chunks : List (List α)) :
      List.flatten <$> chunks.mapM (fun chunk => chunk.mapM f) = chunks.flatten.mapM f := by
    induction chunks with
    | nil => simp
    | cons chunk chunks ih =>
      rw [List.flatten_cons, List.mapM_append, ← ih]
      simp [List.mapM_cons]
  rw [execute, flat, flatten_chunks]

namespace Update

variable (db : Database)

@[simp] theorem apply_pure (a : α) : (pure a : Update α).apply db = (.ok a, db) := rfl

@[simp] theorem apply_throw (cause : StoreError) :
    (throw cause : Update α).apply db = (.error cause, db) := rfl

@[simp] theorem apply_read (f : Database → Except StoreError α) :
    (read f).apply db = (f db, db) := rfl

@[simp] theorem apply_get : (get : Update Database).apply db = (.ok db, db) := rfl

@[simp] theorem apply_modify (f : Database → Database) :
    (modify f : Update Unit).apply db = (.ok (), f db) := rfl

theorem apply_bind (u : Update α) (f : α → Update β) :
    (u >>= f).apply db =
      match u.apply db with
      | (.ok a, changed) => (f a).apply changed
      | (.error cause, changed) => (.error cause, changed) := by
  simp only [apply, ExceptT.run_bind, StateT.run_bind]
  rcases ExceptT.run u |>.run db with ⟨_ | _, _⟩ <;> rfl

variable {db}

theorem apply_bind_ok {u : Update α} {f : α → Update β} {a : α} {changed : Database}
    (h : u.apply db = (.ok a, changed)) : (u >>= f).apply db = (f a).apply changed := by
  rw [apply_bind, h]

theorem apply_bind_error {u : Update α} {f : α → Update β} {cause : StoreError}
    {changed : Database} (h : u.apply db = (.error cause, changed)) :
    (u >>= f).apply db = (.error cause, changed) := by
  rw [apply_bind, h]

/-- A table that a change requires is looked for, and nothing else happens. -/
theorem apply_require {table : TableName} (h : db.has table = true) :
    (read (·.require table)).apply db = (.ok (), db) := by
  rw [apply_read, Database.require, if_pos h]

theorem apply_require_of_missing {table : TableName} (h : db.has table = false) :
    (read (·.require table)).apply db = (.error .query, db) := by
  rw [apply_read, Database.require, h]
  rfl

theorem apply_map_ok {u : Update α} {a : α} {changed : Database} (f : α → β)
    (h : u.apply db = (.ok a, changed)) : (f <$> u).apply db = (.ok (f a), changed) := by
  rw [map_eq_pure_bind, apply_bind_ok h, apply_pure]

theorem apply_map_error {u : Update α} {cause : StoreError} {changed : Database} (f : α → β)
    (h : u.apply db = (.error cause, changed)) :
    (f <$> u).apply db = (.error cause, changed) := by
  rw [map_eq_pure_bind, apply_bind_error h]

theorem of_apply_bind_ok {u : Update α} {f : α → Update β} {b : β} {changed : Database}
    (h : (u >>= f).apply db = (.ok b, changed)) :
    ∃ a middle, u.apply db = (.ok a, middle) ∧ (f a).apply middle = (.ok b, changed) := by
  rw [apply_bind] at h
  rcases hu : u.apply db with ⟨cause | a, middle⟩ <;> rw [hu] at h
  · cases h
  · exact ⟨a, middle, rfl, h⟩

theorem of_apply_map_ok {u : Update α} {f : α → β} {b : β} {changed : Database}
    (h : (f <$> u).apply db = (.ok b, changed)) : ∃ a, u.apply db = (.ok a, changed) ∧ f a = b := by
  rw [map_eq_pure_bind] at h
  obtain ⟨a, middle, hu, hpure⟩ := of_apply_bind_ok h
  obtain ⟨hb, rfl⟩ := Prod.mk.inj hpure
  exact ⟨a, hu, Except.ok.inj hb⟩

theorem of_apply_mapM_ok {f : α → Update β} {items : List α} {bs : List β} {changed : Database}
    (h : (items.mapM f).apply db = (.ok bs, changed)) :
    ∀ a ∈ items, ∃ b before after, (f a).apply before = (.ok b, after) := by
  induction items generalizing db bs changed with
  | nil => simp
  | cons first rest ih =>
    rw [List.mapM_cons] at h
    obtain ⟨b, middle, hfirst, hrest⟩ := of_apply_bind_ok h
    obtain ⟨bs, last, hrest, -⟩ := of_apply_bind_ok hrest
    intro a ha
    rcases List.mem_cons.1 ha with rfl | ha
    · exact ⟨b, db, middle, hfirst⟩
    · exact ih hrest a ha

end Update

end FactGraph
