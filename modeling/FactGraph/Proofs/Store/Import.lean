import FactGraph.Proofs.Metadata.Description
import FactGraph.Proofs.Row.Occurrence
import FactGraph.Proofs.Store.Order

/-!
# Imports

An import reads the rows of a file and inserts what they say, where rows that are rejected and
statements that are stored are skipped. Here the rows have no ids, and the digest tells apart what
it is given in the run.

**No accepted row is lost**: each has a statement of its own, whose id is that of no other row, and
after an import its edge is stored. **The order of the rows does not matter**, and **importing them
again, in whatever order, changes nothing**. This holds in any store, also if tables are missing or
changes cannot be undone (`Store.importRows_perm`). Only where there is a limit to the pages of a
database, an import can find room for the rows in one order and not in another
(`Store.importRows_within_limit`); then it holds of the imports that find room.
-/

namespace FactGraph

/-- Inserts what the rows say. Those that are rejected and those that are stored are skipped. -/
def StoreM.importRows (rows : List FlatRow) : StoreM ImportStats :=
  .insert .idempotent (explode false rows).statements

/-! ## Statements of rows -/

section Statements

variable {rows : List FlatRow} {x : Statement}

theorem checkStatements_explode (hids : ∀ row ∈ rows, row.HasNoId) :
    checkStatements (explode false rows).statements = .ok () := by
  refine checkStatements_eq_ok_iff.2 fun x hx => ?_
  obtain ⟨row, hrow, haccepted, hgives⟩ := exists_gives_of_mem_statements hx
  obtain ⟨v, hdecode, hs⟩ := hgives.literal
  obtain ⟨hnode, hlabel, -⟩ := FlatRow.isAccepted_iff.1 haccepted
  have hid := hgives.id
  rw [FlatRow.IdOf, show row.id.filter (!·.isEmpty) = none from hids row hrow] at hid
  obtain ⟨w, k, -, hid⟩ := hid
  rw [hs]
  refine Statement.check_of_not_isBlank ?_ hnode hlabel (by cases v <;> rfl)
  show Text.isBlankText x.edge.id = false
  rw [hid]
  exact List.all_eq_false.2 ⟨'-', hyphen_mem_edgeId .., by decide⟩

theorem storable_explode : ∀ x ∈ (explode false rows).statements, Update.Storable x := by
  intro x hx
  obtain ⟨row, -, -, hgives⟩ := exists_gives_of_mem_statements hx
  obtain ⟨v, hdecode, hs⟩ := hgives.literal
  rw [hs]
  exact Update.storable_of_hasNaN (Literal.hasNaN_of_decode hdecode)

theorem apart_explode (hids : ∀ row ∈ rows, row.HasNoId)
    (hfinite : ∀ row ∈ rows, row.HasFiniteValue) (hdigest : DigestSeparates rows) :
    Statement.Apart (explode false rows).statements :=
  fun encoding => nodup_kept_ids_explode encoding hids hfinite hdigest

end Statements

namespace Store

/-- The store without its pages. -/
def unpaged (s : Store) : Store := { s with database := { s.database with pages := none } }

variable {s s' : Store} {rows others : List FlatRow} {stats : ImportStats}

/-! ## Imports as insertions -/

/-- An import is one transaction, unless there is nothing to insert. -/
theorem run_importRows (s : Store) (hids : ∀ row ∈ rows, row.HasNoId) :
    s.run (StoreM.importRows rows) =
      if (explode false rows).statements.isEmpty then (.ok .none, s)
      else s.run (StoreM.transact (fun _ => ⟨[], (explode false rows).statements.map (·.edge.id)⟩)
        (Update.insert s.batch .idempotent (explode false rows).statements)) := by
  unfold StoreM.importRows
  by_cases hempty : (explode false rows).statements.isEmpty
  · rw [if_pos hempty, StoreM.insert, if_pos hempty, run_pure]
  · rw [if_neg hempty]
    exact run_insert_of_check (checkStatements_explode hids)
      (by simpa [List.isEmpty_iff] using hempty)

/-- An import that succeeds leaves what the insertion makes of the database, apart from its
pages. -/
theorem of_run_importRows_ok (hids : ∀ row ∈ rows, row.HasNoId)
    (h : s.run (StoreM.importRows rows) = (.ok stats, s')) :
    ∃ changed pages, (Update.insert s.batch .idempotent (explode false rows).statements).apply
        s.database = (.ok stats, changed) ∧
      s' = { s with database := { changed with pages := pages } } := by
  rw [run_importRows s hids] at h
  split at h
  next hempty =>
    obtain ⟨houtcome, rfl⟩ := Prod.mk.inj h
    rw [List.isEmpty_iff.1 hempty, Update.apply_insert_nil, ← houtcome]
    exact ⟨s.database, s.database.pages, rfl, rfl⟩
  next => exact of_run_transact_ok h

/-- **The rows of an import come in any order** where nothing limits the growth of the database. -/
theorem run_importRows_of_perm (hunlimited : s.database.pages = none) (h : rows.Perm others)
    (hids : ∀ row ∈ rows, row.HasNoId) (hfinite : ∀ row ∈ rows, row.HasFiniteValue)
    (hdigest : DigestSeparates rows) :
    s.run (StoreM.importRows others) = s.run (StoreM.importRows rows) := by
  have hrearranged := rearranged_statements_explode hids hfinite h
  have hsame := Update.insert_of_rearranged s.batch (apart_explode hids hfinite hdigest)
    storable_explode hrearranged
  have hempty : (explode false others).statements.isEmpty =
      (explode false rows).statements.isEmpty := by
    rw [Bool.eq_iff_iff, List.isEmpty_iff_length_eq_zero, List.isEmpty_iff_length_eq_zero,
      hrearranged.length_eq]
  rw [run_importRows s hids, run_importRows s fun row hrow => hids row (h.mem_iff.2 hrow), hempty,
    run_transact_unlimited hunlimited, run_transact_unlimited hunlimited, hsame]

/-- A change is not refused: no transaction is open, and the database can be written. -/
def IsWritable (s : Store) : Prop := s.saved = none ∧ s.engine.refusal = none

theorem run_transact_of_isWritable {α : Type} (hunlimited : s.database.pages = none)
    (hwritable : s.IsWritable) (order : Tables → WriteOrder) (u : Update α) :
    s.run (StoreM.transact order u) =
      match u.apply s.database with
      | (.ok a, changed) => (.ok a, { s with database := changed.settled })
      | (.error cause, changed) => (.error cause,
          if s.engine.undoes then s else { s with database := changed.settled }) := by
  rw [run_transact_unlimited hunlimited, if_neg (by simp [hwritable.1, hwritable.2]), hwritable.2]
  rcases u.apply s.database with ⟨_ | _, _⟩ <;> rfl

/-- What an import does where nothing limits the growth of the database: it fails and leaves the
store as it was, or the edges of its statements are stored afterwards. -/
theorem run_importRows_cases (hunlimited : s.database.pages = none)
    (hids : ∀ row ∈ rows, row.HasNoId) (hapart : Statement.Apart (explode false rows).statements) :
    (∃ cause, s.run (StoreM.importRows rows) = (.error cause, s)) ∨
    ∃ outcome t', s.run (StoreM.importRows rows) = (outcome, s.withTables t') ∧
      ((explode false rows).statements = [] ∨ s.IsWritable ∧ s.database.has .edges = true) ∧
      ∀ x ∈ (explode false rows).statements, t'.containsEdge x.edge.id = true := by
  rw [run_importRows s hids]
  by_cases hempty : (explode false rows).statements = []
  · rw [hempty]
    exact .inr ⟨_, s.database.tables, rfl, .inl rfl, fun x hx => nomatch hx⟩
  rw [if_neg (by simpa [List.isEmpty_iff] using hempty)]
  -- A store that cannot be written refuses before anything is done. Otherwise what the insertion
  -- leaves decides, and whether the engine can undo it.
  by_cases hwritable : s.IsWritable
  · rw [run_transact_of_isWritable hunlimited hwritable]
    cases hedges : s.database.has .edges with
    | false =>
      have hrun := Update.apply_insert_of_not_has s.batch hedges hempty
      left
      rw [hrun]
      dsimp only
      rw [Database.settled_of_unlimited hunlimited, ite_self]
      exact ⟨_, rfl⟩
    | true =>
      obtain ⟨outcome, t', hrun, -, hstored, -⟩ :=
        Update.exists_apply_insert s.database s.database.tables s.batch hapart (.inr hedges)
      replace hrun : (Update.insert s.batch .idempotent (explode false rows).statements).apply
          s.database = (outcome, s.database.withTables t') := hrun
      have hsettled : (s.database.withTables t').settled = s.database.withTables t' :=
        Database.settled_of_unlimited hunlimited
      rw [hrun]
      cases outcome with
      | ok stats =>
        dsimp only
        rw [hsettled]
        exact .inr ⟨_, t', rfl, .inr ⟨hwritable, rfl⟩, hstored⟩
      | error cause =>
        dsimp only
        cases s.engine.undoes with
        | true => exact .inl ⟨cause, rfl⟩
        | false =>
          rw [hsettled]
          exact .inr ⟨_, t', rfl, .inr ⟨hwritable, rfl⟩, hstored⟩
  · left
    rw [run_transact_unlimited hunlimited]
    split
    · exact ⟨_, rfl⟩
    next hrefused =>
      cases hrefusal : s.engine.refusal with
      | some cause => exact ⟨cause, rfl⟩
      | none =>
        have hidle : s.saved = none := by simpa using (not_or.1 hrefused).1
        exact absurd ⟨hidle, hrefusal⟩ hwritable

theorem run_importRows_of_contains (hunlimited : s.database.pages = none)
    (hids : ∀ row ∈ rows, row.HasNoId) (hapart : Statement.Apart (explode false rows).statements)
    (hcan : (explode false rows).statements = [] ∨ s.IsWritable ∧ s.database.has .edges = true)
    (hstored : ∀ x ∈ (explode false rows).statements,
      s.database.tables.containsEdge x.edge.id = true) :
    s.run (StoreM.importRows rows) = (.ok ⟨0, (explode false rows).statements.length, 0⟩, s) := by
  rw [run_importRows s hids]
  rcases hcan with hempty | ⟨hwritable, hedges⟩
  · rw [hempty]
    rfl
  split
  next hempty =>
    rw [List.isEmpty_iff.1 hempty]
    rfl
  have hrun : (Update.insert s.batch .idempotent (explode false rows).statements).apply s.database =
      (.ok ⟨0, (explode false rows).statements.length, 0⟩, s.database) :=
    Update.apply_insert_again s.database s.database.tables s.batch hapart (.inr hedges) hstored
  rw [run_transact_of_isWritable hunlimited hwritable, hrun]
  dsimp only
  rw [Database.settled_of_unlimited hunlimited]

/-! ## Imports of the same rows -/

/-- **Rows that are imported again, in any order, change nothing** where nothing limits the growth
of the database. -/
theorem run_importRows_again (hunlimited : s.database.pages = none) (h : rows.Perm others)
    (hids : ∀ row ∈ rows, row.HasNoId) (hfinite : ∀ row ∈ rows, row.HasFiniteValue)
    (hdigest : DigestSeparates rows) {outcome : Except StoreError ImportStats}
    (hrun : s.run (StoreM.importRows rows) = (outcome, s')) :
    s'.run (StoreM.importRows others) =
        (.ok ⟨0, (explode false rows).statements.length, 0⟩, s') ∨
      (∃ cause, outcome = .error cause) ∧ s'.run (StoreM.importRows others) = (outcome, s') := by
  have hapart := apart_explode hids hfinite hdigest
  rcases run_importRows_cases hunlimited hids hapart with
    ⟨cause, hfailed⟩ | ⟨_, t', hdone, hcan, hstored⟩
  · obtain ⟨rfl, rfl⟩ := Prod.mk.inj (hrun.symm.trans hfailed)
    exact .inr ⟨⟨cause, rfl⟩,
      (run_importRows_of_perm hunlimited h hids hfinite hdigest).trans hfailed⟩
  · obtain ⟨-, rfl⟩ := Prod.mk.inj (hrun.symm.trans hdone)
    left
    have hunlimited' : (s.withTables t').database.pages = none := hunlimited
    rw [run_importRows_of_perm hunlimited' h hids hfinite hdigest]
    exact run_importRows_of_contains hunlimited' hids hapart hcan hstored

/-- After an import that succeeds the edges of its statements are stored, and each of them is
counted. -/
theorem of_run_importRows_apart (hids : ∀ row ∈ rows, row.HasNoId)
    (hapart : Statement.Apart (explode false rows).statements)
    (hrun : s.run (StoreM.importRows rows) = (.ok stats, s')) :
    ∃ t' pages, (Update.insert s.batch .idempotent (explode false rows).statements).apply
        s.database = (.ok stats, s.database.withTables t') ∧
      s' = { s with database := { s.database.withTables t' with pages := pages } } ∧
      ((explode false rows).statements = [] ∨ s.database.has .edges = true) ∧
      t'.edges = (s.database.tables.withEdges
        ((explode false rows).statements.map Statement.edge)).edges ∧
      (∀ x ∈ (explode false rows).statements, t'.containsEdge x.edge.id = true) ∧
      stats.inserted + stats.skipped = (explode false rows).statements.length := by
  obtain ⟨changed, pages, happly, rfl⟩ := of_run_importRows_ok hids hrun
  have hedges : (explode false rows).statements = [] ∨ s.database.has .edges = true := by
    by_contra hneither
    obtain ⟨hne, hnone⟩ := not_or.1 hneither
    rw [Update.apply_insert_of_not_has s.batch (Bool.eq_false_iff.2 hnone) hne] at happly
    cases happly
  obtain ⟨outcome, t', hinsert, hkept, hstored, hcount⟩ :=
    Update.exists_apply_insert s.database s.database.tables s.batch hapart hedges
  obtain ⟨rfl, rfl⟩ := Prod.mk.inj (happly.symm.trans hinsert)
  exact ⟨t', pages, happly, rfl, hedges, hkept, hstored, hcount stats rfl⟩

/-- Imports that find room have the same outcome in any order of the rows. -/
theorem run_importRows_of_ok (h : rows.Perm others) (hids : ∀ row ∈ rows, row.HasNoId)
    (hfinite : ∀ row ∈ rows, row.HasFiniteValue) (hdigest : DigestSeparates rows)
    {stats' : ImportStats} {s'' : Store} (hrun : s.run (StoreM.importRows rows) = (.ok stats, s'))
    (hother : s.run (StoreM.importRows others) = (.ok stats', s'')) :
    stats' = stats ∧ s''.unpaged = s'.unpaged := by
  obtain ⟨changed, pages, happly, rfl⟩ := of_run_importRows_ok hids hrun
  obtain ⟨changed', pages', happly', rfl⟩ :=
    of_run_importRows_ok (fun row hrow => hids row (h.mem_iff.2 hrow)) hother
  rw [← Update.insert_of_rearranged s.batch (apart_explode hids hfinite hdigest) storable_explode
    (rearranged_statements_explode hids hfinite h), happly] at happly'
  obtain ⟨hstats, rfl⟩ := Prod.mk.inj happly'
  exact ⟨(Except.ok.inj hstats).symm, rfl⟩

/-- After an import, an import of the same rows that finds room changes nothing but pages. -/
theorem run_importRows_again_of_ok (h : rows.Perm others) (hids : ∀ row ∈ rows, row.HasNoId)
    (hfinite : ∀ row ∈ rows, row.HasFiniteValue) (hdigest : DigestSeparates rows)
    {stats' : ImportStats} {s'' : Store} (hrun : s.run (StoreM.importRows rows) = (.ok stats, s'))
    (hagain : s'.run (StoreM.importRows others) = (.ok stats', s'')) :
    stats' = ⟨0, (explode false rows).statements.length, 0⟩ ∧ s''.unpaged = s'.unpaged := by
  have hapart := apart_explode hids hfinite hdigest
  obtain ⟨t', pages, -, rfl, hedges, -, hstored, -⟩ := of_run_importRows_apart hids hapart hrun
  obtain ⟨changed, pages', happly, rfl⟩ :=
    of_run_importRows_ok (fun row hrow => hids row (h.mem_iff.2 hrow)) hagain
  have hinsert := Update.apply_insert_again { s.database with pages := pages } t' s.batch hapart
    hedges hstored
  rw [← Update.insert_of_rearranged _ hapart storable_explode
    (rearranged_statements_explode hids hfinite h)] at happly
  obtain ⟨hstats, rfl⟩ := Prod.mk.inj (happly.symm.trans hinsert)
  exact ⟨Except.ok.inj hstats, rfl⟩

/-- An import that fails leaves the store as it was, if changes can be undone. -/
theorem run_importRows_of_error (hids : ∀ row ∈ rows, row.HasNoId)
    (hundoes : s.engine.undoes = true) {cause : StoreError}
    (hrun : s.run (StoreM.importRows rows) = (.error cause, s')) : s' = s := by
  rw [run_importRows s hids] at hrun
  split at hrun
  · cases hrun
  · rcases run_transact_cases hundoes with ⟨other, hfailed⟩ | ⟨a, _, _, -, hdone⟩
    · exact (Prod.mk.inj (hrun.symm.trans hfailed)).2
    · cases hrun.symm.trans hdone

theorem engine_run_importRows (hids : ∀ row ∈ rows, row.HasNoId)
    (hundoes : s.engine.undoes = true) {outcome : Except StoreError ImportStats}
    (hrun : s.run (StoreM.importRows rows) = (outcome, s')) : s'.engine = s.engine := by
  cases outcome with
  | ok stats =>
    obtain ⟨changed, pages, -, rfl⟩ := of_run_importRows_ok hids hrun
    rfl
  | error cause => rw [run_importRows_of_error hids hundoes hrun]

/-- **No accepted row is lost, the order of the rows does not matter, and importing them again
changes nothing.** Where there is a limit to the pages, this holds of the imports that find room. -/
theorem importRows_perm (s : Store) {rows others : List FlatRow} (h : rows.Perm others)
    (hids : ∀ row ∈ rows, row.HasNoId) (hfinite : ∀ row ∈ rows, row.HasFiniteValue)
    (hdigest : DigestSeparates rows) :
    let statements := (explode false rows).statements
    let first := s.run (StoreM.importRows rows)
    let other := s.run (StoreM.importRows others)
    let again := first.2.run (StoreM.importRows others)
    (List.Forall₂ FlatRow.Gives (rows.filter FlatRow.isAccepted) statements ∧
      Statement.Apart statements ∧
      ∀ stats, first.1 = .ok stats →
        stats.inserted + stats.skipped = statements.length ∧
        ∀ x ∈ statements, s.database.tables.containsEdge x.edge.id = false →
          s.database.tables.keptEdge x.edge ∈ first.2.database.tables.edges.rows) ∧
    (s.database.pages = none → other = first ∧
      (again = (.ok ⟨0, statements.length, 0⟩, first.2) ∨
        (∃ cause, first.1 = .error cause) ∧ again = first)) ∧
    (∀ stats, first.1 = .ok stats →
      (∀ stats', other.1 = .ok stats' → stats' = stats ∧ other.2.unpaged = first.2.unpaged) ∧
      (∀ stats', again.1 = .ok stats' →
        stats' = ⟨0, statements.length, 0⟩ ∧ again.2.unpaged = first.2.unpaged)) ∧
    (s.engine.undoes = true →
      (∀ cause, first.1 = .error cause → first.2 = s) ∧
      ∀ cause, again.1 = .error cause → again.2 = first.2) := by
  intro statements first other again
  have hapart := apart_explode hids hfinite hdigest
  have hids' : ∀ row ∈ others, row.HasNoId := fun row hrow => hids row (h.mem_iff.2 hrow)
  refine ⟨⟨statements_explode false rows, hapart, ?_⟩, ?_, ?_, ?_⟩
  · intro stats hok
    have hrun : s.run (StoreM.importRows rows) = (.ok stats, first.2) := Prod.ext hok rfl
    obtain ⟨t', pages, -, hleft, -, hedges, -, hcount⟩ :=
      of_run_importRows_apart hids hapart hrun
    refine ⟨hcount, fun x hx hnew => ?_⟩
    rw [hleft]
    show s.database.tables.keptEdge x.edge ∈ t'.edges.rows
    rw [hedges]
    exact Tables.mem_withEdges_of_apart hapart hx hnew
  · intro hunlimited
    exact ⟨run_importRows_of_perm hunlimited h hids hfinite hdigest,
      run_importRows_again hunlimited h hids hfinite hdigest rfl⟩
  · intro stats hok
    have hrun : s.run (StoreM.importRows rows) = (.ok stats, first.2) := Prod.ext hok rfl
    exact ⟨fun stats' hother =>
        run_importRows_of_ok h hids hfinite hdigest hrun (Prod.ext hother rfl),
      fun stats' hagain =>
        run_importRows_again_of_ok h hids hfinite hdigest hrun (Prod.ext hagain rfl)⟩
  · intro hundoes
    refine ⟨fun cause herror => run_importRows_of_error hids hundoes (Prod.ext herror rfl), ?_⟩
    intro cause herror
    have hengine : first.2.engine = s.engine := engine_run_importRows hids hundoes rfl
    have hundoes' : first.2.engine.undoes = true := by rwa [hengine]
    exact run_importRows_of_error hids' hundoes' (Prod.ext herror rfl)

set_option maxRecDepth 4000 in
/-- Two spellings of a value, a rejected row and a symbol, in one order and in another. -/
theorem importRows_perm_spellings :
    let rows : List FlatRow := [⟨none, "Q1", "P1", "+5"⟩, ⟨none, "", "P1", "5"⟩,
      ⟨some "", "Q1", "P1", "5"⟩, ⟨none, "Q1", "P1", "Q2"⟩]
    let s := fresh false false .standard .idempotent "now"
    let first := s.run (StoreM.importRows rows)
    (rows.Perm rows.reverse ∧ (∀ row ∈ rows, row.HasNoId) ∧ (∀ row ∈ rows, row.HasFiniteValue) ∧
      DigestSeparates rows) ∧
    first.1 = .ok ⟨3, 0, 3⟩ ∧ s.run (StoreM.importRows rows.reverse) = first ∧
    first.2.run (StoreM.importRows rows.reverse) = (.ok ⟨0, 3, 0⟩, first.2) := by
  intro rows s first
  have hperm : rows.Perm rows.reverse := rows.reverse_perm.symm
  have hids : ∀ row ∈ rows, row.HasNoId := by decide
  have hfinite : ∀ row ∈ rows, row.HasFiniteValue := by decide +kernel
  have hdigest : DigestSeparates rows := digestSeparates_of_nodup (by decide +kernel)
  have hlength : (explode false rows).statements.length = 3 := by decide +kernel
  have hfirst : first.1 = .ok ⟨3, 0, 3⟩ := by decide +kernel
  obtain ⟨-, hunlimited, -⟩ := importRows_perm s hperm hids hfinite hdigest
  obtain ⟨hother, hagain⟩ := hunlimited rfl
  rw [hlength] at hagain
  refine ⟨⟨hperm, hids, hfinite, hdigest⟩, hfirst, hother, hagain.resolve_right ?_⟩
  rintro ⟨⟨cause, herror⟩, -⟩
  cases hfirst.symm.trans herror

end Store

/-! ## Limits -/

section Symbols

variable {row : FlatRow} {rows : List FlatRow} {seen : List Triple}

/-- The row has no id and says a symbol. -/
structure FlatRow.SaysSymbol (row : FlatRow) : Prop where
  id : row.HasNoId
  node1 : Text.isBlankText row.node1 = false
  label : Text.isBlankText row.label = false
  node2 : Literal.decode row.node2 = .ok (.symbol row.node2)

/-- What a row says that says a symbol, with the id. -/
def FlatRow.symbolAs (row : FlatRow) (id : String) : Statement :=
  ⟨⟨id, row.node1, row.label, row.node2, .symbol⟩, .symbol row.node2⟩

/-- What a row says that says a symbol and comes for the first time. -/
def FlatRow.symbolStatement (row : FlatRow) : Statement :=
  row.symbolAs (edgeId row.node1 row.label row.node2 0)

theorem FlatRow.SaysSymbol.hasFiniteValue (h : row.SaysSymbol) : row.HasFiniteValue := by
  intro v hv
  rw [← Except.ok.inj (h.node2.symm.trans hv)]
  rfl

theorem FlatRow.SaysSymbol.triple? (h : row.SaysSymbol) :
    row.triple? = some (row.node1, row.label, row.node2) := by
  have haccepted : row.isAccepted = true := isAccepted_iff.2 ⟨h.node1, h.label, _, h.node2⟩
  rw [FlatRow.triple?, if_pos haccepted, h.node2]
  exact congrArg (fun text => some (row.node1, row.label, text)) (Literal.encode_symbol _)

theorem FlatRow.SaysSymbol.explodeRow (h : row.SaysSymbol)
    (hfirst : ∀ t ∈ seen, t.1 ≠ row.node1) :
    explodeRow seen row =
      .ok (row.symbolStatement, (row.node1, row.label, row.node2) :: seen) := by
  have hcount : seen.count (row.node1, row.label, row.node2) = 0 :=
    List.count_eq_zero.2 fun hmem => hfirst _ hmem rfl
  have hid : row.id.filter (!·.isEmpty) = none := h.id
  simp only [FactGraph.explodeRow, h.node1, h.label, h.node2, hid, Literal.encode_symbol, hcount,
    Bool.false_eq_true, if_false, Statement.ofLiteral, symbolStatement, symbolAs]
  rfl

theorem statements_explodeFrom_of_saysSymbol (line : Nat) (hrows : ∀ row ∈ rows, row.SaysSymbol)
    (hnodes : (rows.map FlatRow.node1).Nodup)
    (hseen : ∀ t ∈ seen, t.1 ∉ rows.map FlatRow.node1) :
    (explodeFrom false line seen rows).statements = rows.map FlatRow.symbolStatement := by
  -- On the rows. No node of the rows to come has been seen, so each triple is the first of its
  -- kind.
  induction rows generalizing line seen with
  | nil => rfl
  | cons row rest ih =>
    obtain ⟨hrow, hrest⟩ := List.forall_mem_cons.1 hrows
    obtain ⟨hnode, hnodes⟩ := List.nodup_cons.1 hnodes
    have hfirst : ∀ t ∈ seen, t.1 ≠ row.node1 := fun t ht heq =>
      hseen t ht (heq ▸ List.mem_cons_self)
    have hlater : ∀ t ∈ (row.node1, row.label, row.node2) :: seen,
        t.1 ∉ rest.map FlatRow.node1 :=
      List.forall_mem_cons.2 ⟨hnode, fun t ht hmem => hseen t ht (List.mem_cons_of_mem _ hmem)⟩
    rw [explodeFrom, hrow.explodeRow hfirst, List.map_cons, ← ih (line + 1) hrest hnodes hlater]

theorem numbered_of_saysSymbol (hrows : ∀ row ∈ rows, row.SaysSymbol)
    (hnodes : (rows.map FlatRow.node1).Nodup) :
    numbered rows = rows.map fun row => ((row.node1, row.label, row.node2), 0) := by
  have htriples : rows.filterMap FlatRow.triple? =
      rows.map fun row => (row.node1, row.label, row.node2) := by
    rw [← List.filterMap_eq_map]
    exact List.filterMap_congr fun row hrow => (hrows row hrow).triple?
  have hnodup : (rows.map fun row => (row.node1, row.label, row.node2)).Nodup :=
    .of_map Prod.fst (by rwa [List.map_map])
  rw [numbered, htriples, numberedFrom_of_nodup hnodup fun _ _ => List.not_mem_nil, List.map_map]
  rfl

theorem digestSeparates_of_saysSymbol (hrows : ∀ row ∈ rows, row.SaysSymbol)
    (hnodes : (rows.map FlatRow.node1).Nodup)
    (hstems : (rows.map fun row =>
      Digest.stem (idBytes row.node1 row.label row.node2 0)).Nodup) : DigestSeparates rows := by
  refine digestSeparates_of_nodup ?_
  rw [numbered_of_saysSymbol hrows hnodes, List.map_map]
  exact hstems

theorem StoreM.importRows_of_saysSymbol (hrows : ∀ row ∈ rows, row.SaysSymbol)
    (hnodes : (rows.map FlatRow.node1).Nodup) :
    importRows rows = .insert .idempotent (rows.map FlatRow.symbolStatement) := by
  rw [importRows, explode, statements_explodeFrom_of_saysSymbol 2 hrows hnodes
    fun _ ht => absurd ht List.not_mem_nil]

end Symbols

/-- A symbol of `n + 1` letters. -/
def longSymbol (n : Nat) : String := String.ofList (List.replicate (n + 1) 'x')

theorem Literal.decode_longSymbol (n : Nat) :
    decode (longSymbol n) = .ok (.symbol (longSymbol n)) := by
  have hhead : (longSymbol n).toList.head? = some 'x' := by
    rw [longSymbol, String.toList_ofList]
    rfl
  exact decode_symbol hhead (by decide)

theorem bytes_longSymbol (n : Nat) : Text.bytes (longSymbol n) = List.replicate (n + 1) 120 := by
  rw [longSymbol, Text.bytes_ofList, List.flatMap_replicate]
  exact List.flatten_replicate_singleton

/-- A row without id that says a symbol of `n + 1` letters. -/
def symbolRow (node1 label : String) (n : Nat) : FlatRow := ⟨none, node1, label, longSymbol n⟩

theorem saysSymbol_symbolRow {node1 label : String} (hnode1 : Text.isBlankText node1 = false)
    (hlabel : Text.isBlankText label = false) (n : Nat) : (symbolRow node1 label n).SaysSymbol :=
  ⟨rfl, hnode1, hlabel, Literal.decode_longSymbol n⟩

theorem stem_short : Digest.stem (idBytes "A" "P1" (longSymbol 0) 0) =
    "a06e62c7d655d9a6".toList := by decide +kernel

theorem stem_other : Digest.stem (idBytes "B" "P2" (longSymbol 0) 0) =
    "48e6213a410e9ce6".toList := by decide +kernel

set_option maxRecDepth 4000 in
theorem stem_long : Digest.stem (idBytes "C" "P3" (longSymbol 425) 0) =
    "159c63450feb2945".toList := by
  have hbytes : idBytes "C" "P3" (longSymbol 425) 0 =
      [67, 9, 80, 51, 9] ++ (List.replicate 426 120 ++ [9, 48]) := by
    show Text.bytes ("C" ++ "\t" ++ "P3" ++ "\t" ++ longSymbol 425 ++ "\t" ++ toString 0) = _
    simp only [Text.bytes_append, bytes_longSymbol, List.append_assoc]
    rfl
  rw [hbytes]
  decide +kernel

namespace Store

/-- **With a limit to its pages, a database has room for rows in one order and not in another.**
Edges lie in the order in which they came, and a long one between two short ones keeps them from
sharing a page. -/
theorem importRows_within_limit :
    let config : StoreConfig := { StoreConfig.standard with
      withoutMigrations := true, settings := [("max_page_count", "28"), ("page_size", "512")] }
    let rows := [symbolRow "A" "P1" 0, symbolRow "B" "P2" 0, symbolRow "C" "P3" 425]
    let others := [symbolRow "A" "P1" 0, symbolRow "C" "P3" 425, symbolRow "B" "P2" 0]
    rows.Perm others ∧ (∀ row ∈ rows, row.HasNoId) ∧ (∀ row ∈ rows, row.HasFiniteValue) ∧
      DigestSeparates rows ∧
      ∃ s, (openDatabase config "now" .empty).1 = .ok s ∧ s.database.tables.edges.rows = [] ∧
        (s.run (StoreM.importRows rows)).1 = .ok ⟨3, 0, 3⟩ ∧
        (s.run (StoreM.importRows others)).1 = .error .query := by
  intro config rows others
  have hblank : ∀ text ∈ ["A", "B", "C", "P1", "P2", "P3"], Text.isBlankText text = false := by
    decide +kernel
  have hsymbols : ∀ row ∈ rows, row.SaysSymbol :=
    List.forall_mem_cons.2 ⟨saysSymbol_symbolRow (hblank _ (by decide)) (hblank _ (by decide)) 0,
      List.forall_mem_cons.2 ⟨saysSymbol_symbolRow (hblank _ (by decide)) (hblank _ (by decide)) 0,
        List.forall_mem_singleton.2
          (saysSymbol_symbolRow (hblank _ (by decide)) (hblank _ (by decide)) 425)⟩⟩
  have hperm : rows.Perm others := (List.Perm.swap _ _ []).cons _
  have hnodes : (rows.map FlatRow.node1).Nodup := by decide
  have hstems : (rows.map fun row =>
      Digest.stem (idBytes row.node1 row.label row.node2 0)).Nodup := by
    simp only [rows, List.map_cons, List.map_nil, symbolRow, stem_short, stem_other, stem_long]
    decide
  have hshort : (symbolRow "A" "P1" 0).symbolStatement =
      (symbolRow "A" "P1" 0).symbolAs "A-P1-a06e62c7d655d9a6" := by
    simp only [FlatRow.symbolStatement, symbolRow, edgeId, stem_short]
    rfl
  have hother : (symbolRow "B" "P2" 0).symbolStatement =
      (symbolRow "B" "P2" 0).symbolAs "B-P2-48e6213a410e9ce6" := by
    simp only [FlatRow.symbolStatement, symbolRow, edgeId, stem_other]
    rfl
  have hlong : (symbolRow "C" "P3" 425).symbolStatement =
      (symbolRow "C" "P3" 425).symbolAs "C-P3-159c63450feb2945" := by
    simp only [FlatRow.symbolStatement, symbolRow, edgeId, stem_long]
    rfl
  refine ⟨hperm, fun row hrow => (hsymbols row hrow).id,
    fun row hrow => (hsymbols row hrow).hasFiniteValue,
    digestSeparates_of_saysSymbol hsymbols hnodes hstems, ?_⟩
  rw [StoreM.importRows_of_saysSymbol hsymbols hnodes,
    StoreM.importRows_of_saysSymbol (fun row hrow => hsymbols row (hperm.mem_iff.2 hrow))
      ((hperm.map _).nodup_iff.1 hnodes)]
  simp only [rows, others, List.map_cons, List.map_nil, hshort, hother, hlong]
  obtain ⟨s, hopen, hrun⟩ := exists_of_toOption_any (x := (openDatabase config "now" .empty).1)
    (p := fun s => s.database.tables.edges.rows = [] ∧
      (s.run (.insert .idempotent [(symbolRow "A" "P1" 0).symbolAs "A-P1-a06e62c7d655d9a6",
        (symbolRow "B" "P2" 0).symbolAs "B-P2-48e6213a410e9ce6",
        (symbolRow "C" "P3" 425).symbolAs "C-P3-159c63450feb2945"])).1 = .ok ⟨3, 0, 3⟩ ∧
      (s.run (.insert .idempotent [(symbolRow "A" "P1" 0).symbolAs "A-P1-a06e62c7d655d9a6",
        (symbolRow "C" "P3" 425).symbolAs "C-P3-159c63450feb2945",
        (symbolRow "B" "P2" 0).symbolAs "B-P2-48e6213a410e9ce6"])).1 = .error .query)
    (by decide +kernel)
  exact ⟨s, hopen, of_decide_eq_true hrun⟩

end Store

end FactGraph
