import FactGraph.Proofs.Store.Update
import FactGraph.Store.Session

/-!
# Transactions

An operation on a store is run part by part, as a change of a database is. A transaction is either
committed as a whole or rolled back.

A transaction comes to one of three ends (`Store.Transacts`): it cannot begin, its change stays, or
its change fails and is rolled back. The main result is that one that fails leaves the store as it
was (`Store.run_transact_cases`), as long as the engine can undo changes. This holds whatever had
been done by then, also if there was no room for it and the engine has ended the transaction itself:
all that happens between begin and end leaves the saved database alone (`Store.IsWithin`).
-/

namespace FactGraph

/-! ## Pages -/

theorem PageSupply.settled_of_free_eq_zero {p : PageSupply} (h : p.free = 0) : p.settled = p := by
  simp [settled, h]

theorem PageSupply.settled_settled (p : PageSupply) : p.settled.settled = p.settled := by
  by_cases h : (!p.layout.givesBack || p.free = 0) = true
  · have hsame : p.settled = p := if_pos h
    rw [hsame, hsame]
  · have hfree : p.settled.free = 0 := by
      rw [settled, if_neg h]
    exact settled_of_free_eq_zero hfree

theorem Database.settled_settled (db : Database) : db.settled.settled = db.settled := by
  cases hpages : db.pages <;> simp [settled, hpages, PageSupply.settled_settled]

theorem Database.settled_of_unlimited {db : Database} (h : db.pages = none) : db.settled = db := by
  cases db
  subst h
  rfl

/-- Only the pages of a changed database follow its change. -/
theorem Database.of_followed?_eq_some {before after db : Database} {order : Tables → WriteOrder}
    (h : before.followed? after order = some db) :
    ∃ pages, db = { after with pages := pages } := by
  unfold followed? at h
  split at h
  next => exact ⟨after.pages, (Option.some.inj h).symm⟩
  next =>
    obtain ⟨result, -, rfl⟩ := Option.map_eq_some_iff.1 h
    exact ⟨_, rfl⟩

/-- What a transaction does between its begin and its end. -/
def StoreM.makeChange {α : Type} (order : Tables → WriteOrder) (u : Update α)
    (called : StoreError → StoreError := id) : StoreM α := do
  requireWritable called
  changeWithin (called .query) order u

theorem StoreM.transact_eq {α : Type} (order : Tables → WriteOrder) (u : Update α)
    (called : StoreError → StoreError) :
    transact order u called = inTransaction (makeChange order u called) called := rfl

namespace Store

variable {α β : Type} {s s' : Store} {called : StoreError → StoreError}

/-! ## Operations in parts -/

@[simp] theorem run_pure (a : α) : s.run (pure a) = (.ok a, s) := rfl

@[simp] theorem run_throw (cause : StoreError) :
    s.run (throw cause : StoreM α) = (.error cause, s) := rfl

@[simp] theorem run_read (f : Database → Except StoreError α) :
    s.run (StoreM.read f) = (f s.database, s) := rfl

@[simp] theorem run_get : s.run (get : StoreM Store) = (.ok s, s) := rfl

@[simp] theorem run_modify (f : Store → Store) :
    s.run (modify f : StoreM Unit) = (.ok (), f s) := rfl

theorem run_liftExcept (e : Except StoreError α) : s.run (liftM e : StoreM α) = (e, s) := by
  cases e <;> rfl

theorem run_bind (x : StoreM α) (f : α → StoreM β) :
    s.run (x >>= f) =
      match s.run x with
      | (.ok a, s') => s'.run (f a)
      | (.error cause, s') => (.error cause, s') := by
  simp only [run, ExceptT.run_bind, StateT.run_bind]
  rcases ExceptT.run x |>.run s with ⟨_ | _, _⟩ <;> rfl

theorem run_bind_ok {x : StoreM α} {f : α → StoreM β} {a : α} (h : s.run x = (.ok a, s')) :
    s.run (x >>= f) = s'.run (f a) := by
  rw [run_bind, h]

theorem run_bind_error {x : StoreM α} {f : α → StoreM β} {cause : StoreError}
    (h : s.run x = (.error cause, s')) : s.run (x >>= f) = (.error cause, s') := by
  rw [run_bind, h]

theorem of_run_bind_ok {x : StoreM α} {f : α → StoreM β} {b : β}
    (h : s.run (x >>= f) = (.ok b, s')) :
    ∃ a middle, s.run x = (.ok a, middle) ∧ middle.run (f a) = (.ok b, s') := by
  rw [run_bind] at h
  rcases hx : s.run x with ⟨cause | a, middle⟩ <;> rw [hx] at h
  · cases h
  · exact ⟨a, middle, rfl, h⟩

theorem of_run_read_ok {f : Database → Except StoreError α} {g : α → StoreM β} {b : β}
    (h : s.run (StoreM.read f >>= g) = (.ok b, s')) :
    ∃ a, f s.database = .ok a ∧ s.run (g a) = (.ok b, s') := by
  obtain ⟨a, middle, hf, h⟩ := of_run_bind_ok h
  rw [run_read] at hf
  obtain ⟨hanswer, rfl⟩ := Prod.mk.inj hf
  exact ⟨a, hanswer, h⟩

theorem of_run_liftExcept_ok {e : Except StoreError α} {f : α → StoreM β} {b : β}
    (h : s.run ((liftM e : StoreM α) >>= f) = (.ok b, s')) :
    ∃ a, e = .ok a ∧ s.run (f a) = (.ok b, s') := by
  obtain ⟨a, middle, he, h⟩ := of_run_bind_ok h
  rw [run_liftExcept] at he
  obtain ⟨houtcome, rfl⟩ := Prod.mk.inj he
  exact ⟨a, houtcome, h⟩

theorem run_tryCatch (x : StoreM α) (handler : StoreError → StoreM α) :
    s.run (tryCatch x handler) =
      match s.run x with
      | (.ok a, s') => (.ok a, s')
      | (.error cause, s') => s'.run (handler cause) := by
  show (ExceptT.tryCatch x handler).run.run s = _
  simp only [ExceptT.tryCatch, run, ExceptT.run, ExceptT.mk, StateT.run_bind]
  rcases StateT.run x s with ⟨_ | _, _⟩ <;> rfl

/-! ## Transactions -/

theorem run_requireIdle (cause : StoreError) :
    s.run (StoreM.requireIdle cause) =
      (if s.saved.isSome then .error cause else .ok (), s) := by
  rw [StoreM.requireIdle, run_bind_ok run_get]
  split <;> rfl

theorem run_requireWritable :
    s.run (StoreM.requireWritable called) =
      (match s.engine.refusal with
        | some cause => .error (called cause)
        | none => .ok (), s) := by
  rw [StoreM.requireWritable, run_bind_ok run_get]
  cases s.engine.refusal <;> rfl

theorem run_commit :
    s.run (StoreM.commit called) =
      if s.saved.isNone then (.error (called .transaction), s) else (.ok (), s.committed) := by
  rw [StoreM.commit, run_bind_ok run_get]
  split <;> rfl

theorem run_beginTransaction :
    s.run (StoreM.beginTransaction called) =
      if s.saved.isSome ∨ s.engine.refusal = some .transaction then
        (.error (called .transaction), s)
      else (.ok (), s.begun) := by
  rw [StoreM.beginTransaction]
  by_cases hopen : s.saved.isSome
  · have hidle : s.run (StoreM.requireIdle (called .transaction)) =
        (.error (called .transaction), s) := by
      rw [run_requireIdle, if_pos hopen]
    rw [run_bind_error hidle, if_pos (.inl hopen)]
  · have hidle : s.run (StoreM.requireIdle (called .transaction)) = (.ok (), s) := by
      rw [run_requireIdle, if_neg hopen]
    rw [run_bind_ok hidle, run_bind_ok run_get]
    by_cases hrefused : s.engine.refusal = some .transaction
    · rw [if_pos hrefused, if_pos (.inr hrefused)]
      rfl
    · rw [if_neg hrefused, if_neg (not_or.2 ⟨hopen, hrefused⟩)]
      rfl

theorem run_inTransaction_of_refused {operation : StoreM α}
    (h : s.saved.isSome ∨ s.engine.refusal = some .transaction) :
    s.run (StoreM.inTransaction operation called) = (.error (called .transaction), s) := by
  have hbegin : s.run (StoreM.beginTransaction called) = (.error (called .transaction), s) := by
    rw [run_beginTransaction, if_pos h]
  rw [StoreM.inTransaction, run_bind_error hbegin]

/-- **What succeeds in a transaction is committed**, unless the engine has ended the transaction. -/
theorem run_inTransaction_of_ok {operation : StoreM α} {a : α} (hidle : s.saved = none)
    (hbegins : s.engine.refusal ≠ some .transaction)
    (h : s.begun.run operation = (.ok a, s')) (hopen : s'.saved.isSome) :
    s.run (StoreM.inTransaction operation called) = (.ok a, s'.committed) := by
  have hbegin : s.run (StoreM.beginTransaction called) = (.ok (), s.begun) := by
    rw [run_beginTransaction, if_neg (by simp [hidle, hbegins])]
  have hcommit : s'.run (StoreM.commit called) = (.ok (), s'.committed) := by
    rw [run_commit, if_neg (by simp [Option.ne_none_iff_isSome.2 hopen])]
  rw [StoreM.inTransaction, run_bind_ok hbegin, run_tryCatch, run_bind_ok h, run_bind_ok hcommit]
  rfl

/-- **What fails in a transaction is rolled back.** -/
theorem run_inTransaction_of_error {operation : StoreM α} {cause : StoreError}
    (hidle : s.saved = none) (hbegins : s.engine.refusal ≠ some .transaction)
    (h : s.begun.run operation = (.error cause, s')) :
    s.run (StoreM.inTransaction operation called) = (.error cause, s'.rolledBack) := by
  have hbegin : s.run (StoreM.beginTransaction called) = (.ok (), s.begun) := by
    rw [run_beginTransaction, if_neg (by simp [hidle, hbegins])]
  rw [StoreM.inTransaction, run_bind_ok hbegin, run_tryCatch, run_bind_error h]
  rfl

/-! ## What a transaction changes -/

/-- What becomes of a store in a transaction that it began: it has another database, or, if the
engine has ended the transaction, it is what it was. -/
inductive IsWithin (s : Store) : Store → Prop where
  | changed (db : Database) : IsWithin s { s.begun with database := db }
  | ended : IsWithin s s

theorem rolledBack_change (hidle : s.saved = none) (db : Database) :
    rolledBack { s.begun with database := db } =
      if s.engine.undoes then s else { s with database := db } := by
  rcases s with ⟨database, engine, batch, mode, now, saved⟩
  subst hidle
  cases hundoes : engine.undoes <;> simp [rolledBack, begun, hundoes]

theorem rolledBack_of_idle (hidle : s.saved = none) : s.rolledBack = s := by
  rcases s with ⟨database, engine, batch, mode, now, saved⟩
  subst hidle
  simp [rolledBack]

/-- Rolling back leads back to where the transaction began. -/
theorem IsWithin.rolledBack_eq (h : s.IsWithin s') (hidle : s.saved = none)
    (hundoes : s.engine.undoes = true) : s'.rolledBack = s := by
  cases h with
  | changed db => rw [rolledBack_change hidle, if_pos hundoes]
  | ended => exact rolledBack_of_idle hidle

theorem committed_change (hidle : s.saved = none) (db : Database) :
    committed { s.begun with database := db } = { s with database := db.settled } := by
  rcases s with ⟨database, engine, batch, mode, now, saved⟩
  subst hidle
  rfl

variable {order : Tables → WriteOrder} {u : Update α}

theorem run_makeChange_eq (s : Store) (order : Tables → WriteOrder) (u : Update α)
    (called : StoreError → StoreError) :
    s.run (StoreM.makeChange order u called) =
      match s.engine.refusal with
      | some cause => (.error (called cause), s)
      | none => s.run (StoreM.changeWithin (called .query) order u) := by
  cases hrefusal : s.engine.refusal with
  | some cause =>
    have hrefused : s.run (StoreM.requireWritable called) = (.error (called cause), s) := by
      rw [run_requireWritable, hrefusal]
    rw [StoreM.makeChange, run_bind_error hrefused]
  | none =>
    have hwritable : s.run (StoreM.requireWritable called) = (.ok (), s) := by
      rw [run_requireWritable, hrefusal]
    rw [StoreM.makeChange, run_bind_ok hwritable]

/-- A change for which there are pages is made; any other is given up. -/
theorem run_changeWithin_cases (s : Store) (cause : StoreError) :
    (∃ pages, s.run (StoreM.changeWithin cause order u) =
      ((u.apply s.database).1,
        { s with database := { (u.apply s.database).2 with pages := pages } })) ∨
    s.run (StoreM.changeWithin cause order u) = (.error cause, s.exhausted) := by
  show (∃ pages, StoreM.changeWithin cause order u s = _) ∨
    StoreM.changeWithin cause order u s = (.error cause, s.exhausted)
  unfold StoreM.changeWithin
  -- The change is made in any case. What it made is given up if no pages follow it.
  rcases u.apply s.database with ⟨outcome, changed⟩
  dsimp only
  split
  next db hfollowed =>
    obtain ⟨pages, rfl⟩ := Database.of_followed?_eq_some hfollowed
    exact .inl ⟨_, rfl⟩
  next => exact .inr rfl

/-- A change is refused, or made if there are pages for it, or given up. -/
theorem run_makeChange_cases (s : Store) (order : Tables → WriteOrder) (u : Update α)
    (called : StoreError → StoreError) :
    (∃ cause, s.run (StoreM.makeChange order u called) = (.error cause, s)) ∨
      (∃ pages, s.run (StoreM.makeChange order u called) =
        ((u.apply s.database).1,
          { s with database := { (u.apply s.database).2 with pages := pages } })) ∨
      s.run (StoreM.makeChange order u called) = (.error (called .query), s.exhausted) := by
  rw [run_makeChange_eq]
  cases s.engine.refusal with
  | some cause => exact .inl ⟨called cause, rfl⟩
  | none => exact .inr (run_changeWithin_cases s (called .query))

/-- What a transaction does before it ends. -/
theorem isWithin_makeChange (hidle : s.saved = none) (hundoes : s.engine.undoes = true)
    {outcome : Except StoreError α}
    (h : s.begun.run (StoreM.makeChange order u called) = (outcome, s')) : s.IsWithin s' := by
  rcases run_makeChange_cases s.begun order u called with ⟨cause, hrun⟩ | ⟨pages, hrun⟩ | hrun <;>
    obtain ⟨-, rfl⟩ := Prod.mk.inj (h.symm.trans hrun)
  · exact .changed s.database
  · exact .changed _
  · -- There were no pages: the engine itself has gone back to where the transaction began.
    have hended : s.begun.exhausted = s := by
      rw [exhausted, if_pos (show s.begun.engine.undoes = true from hundoes)]
      exact (IsWithin.changed s.database).rolledBack_eq hidle hundoes
    rw [hended]
    exact .ended

theorem of_run_makeChange_ok {a : α}
    (h : s.run (StoreM.makeChange order u called) = (.ok a, s')) :
    ∃ changed pages, u.apply s.database = (.ok a, changed) ∧
      s' = { s with database := { changed with pages := pages } } := by
  rcases run_makeChange_cases s order u called with ⟨_, hrun⟩ | ⟨pages, hrun⟩ | hrun
  · cases h.symm.trans hrun
  · obtain ⟨houtcome, hleft⟩ := Prod.mk.inj (h.symm.trans hrun)
    exact ⟨_, pages, Prod.ext houtcome.symm rfl, hleft⟩
  · cases h.symm.trans hrun

/-- What a change that fails in a transaction leaves of the database. -/
theorem database_rolledBack_of_makeChange (hidle : s.saved = none) {outcome : Except StoreError α}
    (h : s.begun.run (StoreM.makeChange order u called) = (outcome, s')) :
    s'.rolledBack.database = s.database ∨
      (∃ pages, s'.rolledBack.database = { (u.apply s.database).2 with pages := pages }) ∨
      s'.rolledBack.database = .empty := by
  -- An engine that can undo leads back whatever was done, so the three outcomes show only in one
  -- that cannot.
  cases hundoes : s.engine.undoes with
  | true =>
    rw [(isWithin_makeChange hidle hundoes h).rolledBack_eq hidle hundoes]
    exact .inl rfl
  | false =>
    rcases run_makeChange_cases s.begun order u called with ⟨_, hrun⟩ | ⟨pages, hrun⟩ | hrun <;>
      obtain ⟨-, rfl⟩ := Prod.mk.inj (h.symm.trans hrun)
    · exact .inl (by simp [rolledBack, begun, hundoes])
    · rw [rolledBack_change hidle, hundoes]
      exact .inr (.inl ⟨pages, rfl⟩)
    · exact .inr (.inr (by simp [rolledBack, exhausted, begun, hundoes]))

/-- What a transaction comes to: it cannot begin, its change is made and stays, or its change fails
and is undone, if the engine can. -/
inductive Transacts (s : Store) (order : Tables → WriteOrder) (u : Update α)
    (called : StoreError → StoreError) : Except StoreError α × Store → Prop where
  | refused : Transacts s order u called (.error (called .transaction), s)
  | committed {a : α} {changed : Database} (hidle : s.saved = none)
      (h : u.apply s.database = (.ok a, changed)) (pages : Option Pages) :
      Transacts s order u called (.ok a, { s with database := { changed with pages := pages } })
  | rolledBack {cause : StoreError} {within : Store} (hidle : s.saved = none)
      (h : s.begun.run (StoreM.makeChange order u called) = (.error cause, within)) :
      Transacts s order u called (.error cause, within.rolledBack)

theorem transacts_transact (s : Store) (order : Tables → WriteOrder) (u : Update α)
    (called : StoreError → StoreError) :
    s.Transacts order u called (s.run (StoreM.transact order u called)) := by
  rw [StoreM.transact_eq]
  by_cases hrefused : s.saved.isSome ∨ s.engine.refusal = some .transaction
  · rw [run_inTransaction_of_refused hrefused]
    exact .refused
  obtain ⟨hidle, hbegins⟩ := not_or.1 hrefused
  replace hidle : s.saved = none := by simpa using hidle
  rcases hchange : s.begun.run (StoreM.makeChange order u called) with ⟨cause | a, within⟩
  · rw [run_inTransaction_of_error hidle hbegins hchange]
    exact .rolledBack hidle hchange
  · obtain ⟨changed, pages, happly, rfl⟩ := of_run_makeChange_ok hchange
    rw [run_inTransaction_of_ok hidle hbegins hchange rfl, committed_change hidle]
    exact .committed hidle happly _

theorem Transacts.of_run {outcome : Except StoreError α}
    (h : s.run (StoreM.transact order u called) = (outcome, s')) :
    s.Transacts order u called (outcome, s') :=
  h ▸ transacts_transact s order u called

/-- **A transaction that fails leaves the store as it was**; one that succeeds leaves it with the
changed database, apart from its pages. -/
theorem run_transact_cases (hundoes : s.engine.undoes = true) :
    (∃ cause, s.run (StoreM.transact order u called) = (.error cause, s)) ∨
    ∃ a changed pages, u.apply s.database = (.ok a, changed) ∧
      s.run (StoreM.transact order u called) =
        (.ok a, { s with database := { changed with pages := pages } }) := by
  rcases hrun : s.run (StoreM.transact order u called) with ⟨outcome, s'⟩
  cases Transacts.of_run hrun with
  | refused => exact .inl ⟨_, rfl⟩
  | committed hidle happly pages => exact .inr ⟨_, _, pages, happly, rfl⟩
  | rolledBack hidle hchange =>
    rw [(isWithin_makeChange hidle hundoes hchange).rolledBack_eq hidle hundoes]
    exact .inl ⟨_, rfl⟩

/-- **A transaction that succeeds leaves the changed database**, apart from its pages, whatever the
engine can do. -/
theorem of_run_transact_ok {a : α} (h : s.run (StoreM.transact order u called) = (.ok a, s')) :
    ∃ changed pages, u.apply s.database = (.ok a, changed) ∧
      s' = { s with database := { changed with pages := pages } } := by
  cases Transacts.of_run h with
  | committed hidle happly pages => exact ⟨_, pages, happly, rfl⟩

theorem saved_of_run_transact_ok {a : α}
    (h : s.run (StoreM.transact order u called) = (.ok a, s')) : s.saved = none := by
  cases Transacts.of_run h with
  | committed hidle happly pages => exact hidle

/-- **What a transaction leaves**, whatever comes of it: the database as it was, or as the change
left it, apart from its pages, or nothing, if there were no pages and it could not be undone. -/
theorem run_transact_leaves {outcome : Except StoreError α}
    (h : s.run (StoreM.transact order u called) = (outcome, s')) :
    (s'.saved = s.saved ∨ s'.saved = none) ∧
      (s'.database = s.database ∨
        (∃ pages, s'.database = { (u.apply s.database).2 with pages := pages }) ∨
        s'.database = .empty) := by
  cases Transacts.of_run h with
  | refused => exact ⟨.inl rfl, .inl rfl⟩
  | committed hidle happly pages =>
    rw [happly]
    exact ⟨.inl rfl, .inr (.inl ⟨pages, rfl⟩)⟩
  | rolledBack hidle hchange =>
    exact ⟨.inr rfl, database_rolledBack_of_makeChange hidle hchange⟩

end Store

end FactGraph
