import FactGraph.Proofs.Row.Restoration
import FactGraph.Proofs.Store.Retention

/-!
# Statements that are read back

A statement that has been inserted under a new id is retained, in any reachable store and whatever
comes with it in the same insertion, as long as the database writes its texts as they are
(`Store.Reachable.retains_insert`). So **it is read back until its edge is removed**
(`Store.Reachable.reads_back`): with the same edge, and with a value that equals its own.

The value of a statement that was parsed is read back always. Any other has to be without a number
that is none, and its unit has to be plain: units of both sorts are in one column, and which of them
a text is can only be told by its form. A node that is not written as one is read back as an
expression (`Store.not_reads_back`).
-/

namespace FactGraph

open Binary64
open Statement (Apart)

variable {x : Statement} {statements : List Statement}

/-! ## Values without the signs of zeros -/

theorem Quantity.sameOption_map_unsignedZero {x : Option Binary64} (h : x.any isNaN = false) :
    sameOption (x.map unsignedZero) x = true := by
  cases x with
  | none => rfl
  | some x => exact numEq_iff.2 ⟨(isNaN_unsignedZero x).trans h, unsignedZero_unsignedZero x⟩

/-- A value without a number that is none equals itself, and does not tell the signs of zeros. -/
theorem Value.same_unsignedZeros {v : Value} (h : v.hasNaN = false) :
    v.unsignedZeros.same v = true := by
  -- A double equals what is left of it without its sign, unless it is no number.
  have hequal {x : Binary64} (hx : x.isNaN = false) : x.unsignedZero.numEq x = true :=
    numEq_iff.2 ⟨(isNaN_unsignedZero x).trans hx, unsignedZero_unsignedZero x⟩
  cases v with
  | quantity q =>
    obtain ⟨number, low, high, siUnits, unitsNode⟩ := q
    simp only [hasNaN, Bool.or_eq_false_iff] at h
    obtain ⟨⟨hnumber, hlow⟩, hhigh⟩ := h
    have hlow := Quantity.sameOption_map_unsignedZero hlow
    have hhigh := Quantity.sameOption_map_unsignedZero hhigh
    cases number with
    | int a => simp [unsignedZeros, same, Quantity.unsignedZeros, Quantity.same, hlow, hhigh]
    | float x =>
      have hx : x.numEq x = true := numEq_iff.2 ⟨hnumber, rfl⟩
      simp [unsignedZeros, same, Quantity.unsignedZeros, Quantity.same, hx, hlow, hhigh]
  | coordinate c =>
    simp only [hasNaN, Bool.or_eq_false_iff] at h
    obtain ⟨⟨hlatitude, hlongitude⟩, hprecision⟩ := h
    simp [unsignedZeros, same, Coordinate.unsignedZeros, Literal.same, hequal hlatitude,
      hequal hlongitude, Quantity.sameOption_map_unsignedZero hprecision]
  | _ => simp [unsignedZeros, same]

/-! ## Before the value is there -/

/-- The tables write the texts of the statement as they are. -/
structure Tables.KeepsTexts (t : Tables) (x : Statement) : Prop where
  edge : t.keptEdge x.edge = x.edge
  value : ∀ stored, StoredValue.ofValue? x.value = some stored → stored.kept t.encoding = stored

theorem Tables.keepsTexts_of_utf8 {t : Tables} (h : t.encoding = .utf8) (x : Statement) :
    t.KeepsTexts x where
  edge := keptEdge_of_utf8 h x.edge
  value := fun stored _ => by rw [h, StoredValue.kept_utf8]

theorem Tables.KeepsTexts.id {t : Tables} (h : t.KeepsTexts x) : t.kept x.edge.id = x.edge.id :=
  congrArg Edge.id h.edge

namespace Database

variable {db : Database}

/-- The edge of the statement is stored, and under its id no value but its own. -/
structure Awaits (db : Database) (x : Statement) : Prop where
  edges : db.has .edges = true
  stored : x.edge ∈ db.tables.edges.rows
  texts : db.tables.KeepsTexts x
  tag : db.tables.unknownTag? x.edge = none
  kind : x.edge.kind = x.value.kind
  own : ∀ kind, ∀ row ∈ (db.tables.values kind).rows, row.edgeId = x.edge.id →
    x.row? = some ⟨kind, row⟩

/-- When its edge has come to the database with those of other statements, a new statement waits for
its value. -/
theorem awaits_withEdges (hedges : db.has .edges = true) (hapart : Apart statements)
    (hx : x ∈ statements) (howned : db.tables.Owned)
    (hnew : db.tables.containsEdge x.edge.id = false) (htexts : db.tables.KeepsTexts x)
    (hkind : x.edge.kind = x.value.kind) :
    (db.withTables (db.tables.withEdges (statements.map Statement.edge))).Awaits x := by
  obtain ⟨hencoding, htags, hvalues⟩ :=
    db.tables.withEdges_frame (statements.map Statement.edge)
  refine ⟨hedges, ?_, ⟨?_, ?_⟩, ?_, hkind, ?_⟩
  · have hmem := Tables.mem_withEdges_of_apart hapart hx hnew
    rwa [htexts.edge] at hmem
  · simpa [withTables, Tables.keptEdge] using htexts.edge
  · simpa [withTables, hencoding] using htexts.value
  · show (Tables.withEdges _ _).unknownTags.lookup _ = none
    rw [htags, howned.tagged]
    rfl
  · intro kind row hrow hid
    change row ∈ ((Tables.withEdges _ _).values kind).rows at hrow
    rw [hvalues] at hrow
    have hold := howned.owned kind row hrow
    rw [hid, ← htexts.id] at hold
    exact absurd hold (Bool.eq_false_iff.1 hnew)

theorem Awaits.addValue (h : db.Awaits x) {y : Statement}
    (hy : y = x ∨ db.tables.kept y.edge.id ≠ x.edge.id) {stored : StoredValue y.value.kind}
    (hstored : StoredValue.ofValue? y.value = some stored) :
    Awaits { db with tables := db.tables.addValue ⟨y.edge.id, stored⟩ } x := by
  have hencoding : (db.tables.addValue ⟨y.edge.id, stored⟩).encoding = db.tables.encoding :=
    Tables.setValues_encoding ..
  refine ⟨h.edges, ?_, ⟨?_, ?_⟩, ?_, h.kind, ?_⟩
  · rw [Tables.addValue, Tables.setValues_edges]
    exact h.stored
  · rw [Tables.keptEdge, Tables.kept, Tables.kept, Tables.kept, Tables.kept, hencoding]
    exact h.texts.edge
  · rw [hencoding]
    exact h.texts.value
  · show (db.tables.addValue _).unknownTags.lookup x.edge.id = none
    rw [Tables.addValue, Tables.setValues_unknownTags]
    exact h.tag
  · intro kind row hrow hid
    dsimp only at hrow
    -- The table of the kind has one more row, which is that of the statement or under another id.
    -- The other tables are as before.
    by_cases hkind : y.value.kind = kind
    · subst hkind
      rw [Tables.addValue, Tables.values_setValues] at hrow
      rcases Table.mem_insert.1 hrow with hrow | ⟨rfl, -⟩
      · exact h.own _ row hrow hid
      · rcases hy with rfl | hne
        · rw [Statement.row?, hstored, Option.map_some, h.texts.id, h.texts.value stored hstored]
        · exact absurd hid hne
    · rw [Tables.addValue, Tables.values_setValues_of_ne _ hkind] at hrow
      exact h.own kind row hrow hid

end Database

/-! ## Insertion -/

namespace Update

variable {α β : Type} {db changed : Database} {mode : InsertMode} {config : BatchConfig}

/-- **What one of the items makes**, after all of them have succeeded: what comes before it leaves
what it needs, and what comes after it leaves what it has made. -/
theorem of_apply_mapM_ok_of_mem {P Q : Database → Prop} {f : α → Update β} {items : List α}
    {a : α} (ha : a ∈ items) (hbefore : ∀ b ∈ items, (f b).Preserves P)
    (hafter : ∀ b ∈ items, (f b).Preserves Q)
    (hmakes : ∀ db b changed, P db → (f a).apply db = (.ok b, changed) → Q changed)
    (hdb : P db) {bs : List β} (h : (items.mapM f).apply db = (.ok bs, changed)) : Q changed := by
  -- On the list: up to the item `P` is kept, the item makes `Q` of it, and from there on `Q` is
  -- kept.
  induction items generalizing db bs with
  | nil => cases ha
  | cons first rest ih =>
    obtain ⟨hfirst, hrest⟩ := List.forall_mem_cons.1 hbefore
    rw [List.mapM_cons] at h
    obtain ⟨b, middle, hb, h⟩ := of_apply_bind_ok h
    obtain ⟨bs', last, hbs, h⟩ := of_apply_bind_ok h
    obtain rfl : last = changed := (Prod.mk.inj h).2
    rcases List.mem_cons.1 ha with rfl | ha
    · have hkept := preserves_mapM (List.forall_mem_cons.1 hafter).2 middle
        (hmakes db b middle hdb hb)
      rwa [hbs] at hkept
    · have hkept := hfirst db hdb
      rw [hb] at hkept
      exact ih ha hrest (List.forall_mem_cons.1 hafter).2 hkept hbs

theorem apply_addEdges_of_ok {chunk : List Statement} {seen : List String}
    {result : List Bool × List String}
    (h : ((addEdges mode chunk).run seen).apply db = (.ok result, changed)) :
    ((addEdges .idempotent chunk).run seen).apply db = (.ok result, changed) := by
  rw [run_addEdges] at h ⊢
  obtain ⟨written, middle, hwritten, h⟩ := of_apply_bind_ok h
  rw [apply_bind_ok hwritten]
  dsimp only at h ⊢
  split at h
  · cases h
  · exact h

theorem apply_mapM_addEdges_of_ok {chunks : List (List Statement)} {seen : List String}
    {result : List (List Bool) × List String}
    (h : ((chunks.mapM (addEdges mode)).run seen).apply db = (.ok result, changed)) :
    ((chunks.mapM (addEdges .idempotent)).run seen).apply db = (.ok result, changed) := by
  induction chunks generalizing seen db changed result with
  | nil => exact h
  | cons chunk chunks ih =>
    rw [List.mapM_cons, StateT.run_bind] at h ⊢
    obtain ⟨⟨flags, last⟩, middle, hfirst, h⟩ := of_apply_bind_ok h
    rw [apply_bind_ok (apply_addEdges_of_ok hfirst)]
    rw [StateT.run_bind] at h ⊢
    obtain ⟨⟨others, last'⟩, left, hrest, h⟩ := of_apply_bind_ok h
    rw [apply_bind_ok (ih hrest)]
    exact h

/-- **A strict insertion that succeeds is one that skips what is stored.** -/
theorem apply_insert_of_ok {stats : ImportStats}
    (h : (insert config mode statements).apply db = (.ok stats, changed)) :
    (insert config .idempotent statements).apply db = (.ok stats, changed) := by
  rw [insert, run'_execute] at h ⊢
  obtain ⟨flags, middle, hedges, h⟩ := of_apply_bind_ok h
  obtain ⟨result, hrun, rfl⟩ := of_apply_map_ok hedges
  rw [apply_bind_ok (apply_map_ok _ (apply_mapM_addEdges_of_ok hrun))]
  exact h

/-- The statements have ids of their own, so that their values do not come between. -/
theorem awaits_addValue_of_apart (hapart : Apart statements) (hx : x ∈ statements) :
    ∀ y ∈ statements, ∀ (db : Database) (stored : StoredValue y.value.kind),
      StoredValue.ofValue? y.value = some stored → db.Awaits x →
        Database.Awaits { db with tables := db.tables.addValue ⟨y.edge.id, stored⟩ } x := by
  intro y hy db stored hstored h
  refine h.addValue ?_ hstored
  by_cases heq : y = x
  · exact .inl heq
  · right
    rw [← h.texts.id]
    exact hapart.kept_ne db.tables hy hx heq

theorem retains_of_apply_addValue (h : db.Awaits x) {b : Bool}
    (hrun : (addValue x.edge.id x.value).apply db = (.ok b, changed)) : changed.Retains x := by
  have hstorable := storable_of_apply_addValue hrun
  have hhas : db.has (.values x.value.kind) = true := by
    obtain ⟨_, _, hrequire, -⟩ := of_apply_bind_ok hrun
    by_contra hnone
    rw [apply_require_of_missing (Bool.eq_false_of_not_eq_true hnone)] at hrequire
    cases hrequire
  obtain ⟨stored, hstored⟩ := Option.isSome_iff_exists.1 hstorable
  have hrow : x.row? = some ⟨x.value.kind, x.edge.id, stored⟩ := by
    rw [Statement.row?, hstored, Option.map_some]
  have happly := apply_addValue_of_has (u := db.tables) hhas hstorable
  obtain rfl := (Prod.mk.inj (happly.symm.trans hrun)).2
  have hwith : db.tables.withValue x = db.tables.addValue ⟨x.edge.id, stored⟩ := by
    rw [Tables.withValue, hrow]
  have hawaits := h.addValue (.inl rfl) hstored
  rw [hwith]
  refine ⟨h.edges, hhas, ⟨hawaits.stored, ?_⟩, hawaits.tag, hawaits.texts.id, h.kind⟩
  obtain ⟨row, hmem, hid⟩ : ∃ row ∈ ((db.tables.addValue ⟨x.edge.id, stored⟩).values
      x.value.kind).rows, row.edgeId = x.edge.id := by
    rw [Tables.addValue, Tables.values_setValues]
    refine Table.contains_iff.1 (Table.contains_insert.2 (.inl ?_))
    exact h.texts.id.symm
  exact ⟨_, row, hawaits.own _ row hmem hid, hmem⟩

theorem retains_of_apply_addValues (hapart : Apart statements) (hx : x ∈ statements)
    (h : db.Awaits x) {count : Nat}
    (hrun : (addValues config x.value.kind statements).apply db = (.ok count, changed)) :
    changed.Retains x := by
  obtain ⟨flags, hadded⟩ := of_apply_addValues_ok hrun
  have hbetween := awaits_addValue_of_apart hapart hx
  exact of_apply_mapM_ok_of_mem (mem_group hx)
    (fun y hy => preserves_addValue (hbetween y (List.mem_of_mem_filter hy)))
    (fun y _ => preserves_addValue fun _ stored _ h => h.addValue ⟨y.edge.id, stored⟩)
    (fun _ _ _ h => retains_of_apply_addValue h) h hadded

/-- **An insertion that succeeds retains what is new in it.** -/
theorem retains_of_apply_insert (hapart : Apart statements) (hx : x ∈ statements)
    (howned : db.tables.Owned) (hnew : db.tables.containsEdge x.edge.id = false)
    (htexts : db.tables.KeepsTexts x) (hkind : x.edge.kind = x.value.kind) {stats : ImportStats}
    (hrun : (insert config mode statements).apply db = (.ok stats, changed)) :
    changed.Retains x := by
  replace hrun := apply_insert_of_ok hrun
  have hedges : db.has .edges = true := by
    by_contra hnone
    rw [apply_insert_of_not_has config (Bool.eq_false_iff.2 hnone) (List.ne_nil_of_mem hx)] at hrun
    cases hrun
  -- The edge comes first, and waits for its value while the values of the kinds before its own are
  -- added.
  have hawaits := Database.awaits_withEdges hedges hapart hx howned hnew htexts hkind
  have htaken : x ∈ statements.filter db.tables.takes := by
    refine List.mem_filter.2 ⟨hx, ?_⟩
    rw [Tables.takes, hnew, htexts.id]
    simp
  have happly := apply_insert_apart (t := db.tables) config hedges hapart
  obtain ⟨counts, hadded, -⟩ := of_apply_map_ok (happly.symm.trans hrun)
  have htakenApart : Apart (statements.filter db.tables.takes) :=
    hapart.sublist List.filter_sublist
  have hkinds : x.value.kind ∈ ValueKind.all := by cases x.value.kind <;> decide
  have hbetween := awaits_addValue_of_apart htakenApart htaken
  exact of_apply_mapM_ok_of_mem hkinds
    (fun kind _ => preserves_addValues hbetween config kind)
    (fun kind _ => preserves_addValues (fun y _ _ stored _ h => h.addValue ⟨y.edge.id, stored⟩)
      config kind)
    (fun _ _ _ h => retains_of_apply_addValues htakenApart htaken h) hawaits hadded

end Update

/-! ## Stores -/

/-- The statement is read under its id: its edge, and a value that equals its own. -/
def Database.ReadsBack (db : Database) (x : Statement) : Prop :=
  ∃ y, db.statement x.edge.id = .ok y ∧ y.edge = x.edge ∧ y.value.same x.value = true

theorem Database.Retains.readsBack {db : Database} (h : db.Retains x)
    (hnumbers : x.value.hasNaN = false) (hunit : x.value.HasPlainUnit) : db.ReadsBack x :=
  ⟨x.unsignedZeros, h.statement_eq hnumbers hunit, rfl, Value.same_unsignedZeros hnumbers⟩

theorem Statement.apart_singleton (x : Statement) : Apart [x] := fun _ => List.nodup_singleton _

namespace Store

variable {s s' later : Store} {mode : InsertMode} {stats : ImportStats}

/-- **An insertion that succeeds retains what is new in it**, whatever the store has come
through. -/
theorem Reachable.retains_insert (hs : s.Reachable) (hapart : Apart statements)
    (hx : x ∈ statements) (hnew : s.database.tables.containsEdge x.edge.id = false)
    (htexts : s.database.tables.KeepsTexts x)
    (hrun : s.run (StoreM.insert mode statements) = (.ok stats, s')) :
    s'.Satisfies (·.Retains x) := by
  have hne : statements ≠ [] := List.ne_nil_of_mem hx
  have hchecked : checkStatements statements = .ok () := by
    have hempty : ¬statements.isEmpty = true := by simpa [List.isEmpty_iff] using hne
    rw [StoreM.insert, if_neg hempty] at hrun
    obtain ⟨_, hcheck, -⟩ := of_run_liftExcept_ok hrun
    exact hcheck
  rw [run_insert_of_check hchecked hne] at hrun
  have hidle := saved_of_run_transact_ok hrun
  obtain ⟨changed, pages, happly, rfl⟩ := of_run_transact_ok hrun
  have hkind := Statement.kind_eq_of_check (checkStatements_eq_ok_iff.1 hchecked x hx)
  have hretains := Update.retains_of_apply_insert hapart hx hs.owned hnew htexts hkind happly
  refine ⟨(Database.opens_retains x).withPages changed pages hretains, fun db hdb => ?_⟩
  exact absurd (hidle.symm.trans hdb) (by simp)

/-- **What is inserted under a new id is read back until its edge is removed**, if it has no number
that is none and a plain unit, or if it was parsed. Then its value has the literal that was read. -/
theorem Reachable.reads_back (hs : s.Reachable)
    (hnew : s.database.tables.containsEdge x.edge.id = false)
    (htexts : s.database.tables.KeepsTexts x)
    (hrun : s.run (StoreM.insert mode [x]) = (.ok stats, s')) (hfollows : Follows x.edge s' later) :
    (x.value.hasNaN = false → x.value.HasPlainUnit → later.database.ReadsBack x) ∧
    ∀ id node1 label raw, Statement.parse id node1 label raw = .ok x →
      ∃ v y, Literal.decode raw = .ok v ∧ later.database.statement id = .ok y ∧
        y.edge = x.edge ∧ y.value.same x.value = true ∧ y.value.toLiteral.same v = true := by
  have hretains := hs.retains_insert x.apart_singleton (List.mem_singleton_self x) hnew htexts hrun
  have hread := (hfollows.retains hretains).database
  refine ⟨hread.readsBack, fun id node1 label raw hparse => ?_⟩
  obtain ⟨v, hdecode, rfl⟩ := Statement.exists_ofLiteral_of_parse hparse
  obtain ⟨y, hy, hedge, hsame⟩ :=
    hread.readsBack (Literal.hasNaN_of_decode hdecode) (Literal.hasPlainUnit_of_decode hdecode)
  refine ⟨v, y, hdecode, hy, hedge, hsame, ?_⟩
  have hliteral : (Value.ofLiteral v).toLiteral = v :=
    (Literal.formed_of_decode hdecode).1.toLiteral_ofLiteral
  rw [← hliteral, Value.same_toLiteral]
  exact hsame

theorem reachable_fresh : (fresh false false .standard .idempotent "now").Reachable :=
  ⟨.empty, _, "now", _, [], .empty, openDatabase_empty false false .standard .idempotent "now", rfl⟩

/-- A quantity is read in the next session, after the removal of something else. The end of its
tolerance has lost its sign, but equals what was written. -/
theorem Reachable.reads_back_reopened :
    ∃ x v s' opened y, Statement.parse "e1" "Q1" "P10" "5.0[-0.0,1e3]kg" = .ok x ∧
      Literal.decode "5.0[-0.0,1e3]kg" = .ok v ∧
      (fresh false false .standard .idempotent "now").run (StoreM.insert .strict [x]) =
        (.ok ⟨1, 0, 1⟩, s') ∧
      (openDatabase ⟨false, none, false, [], .standard, .idempotent⟩ "later"
        (s'.run (SessionStep.write (.deleteIds ["e2"])).operation).2.rolledBack.database).1 =
          .ok opened ∧
      opened.database.statement "e1" = .ok y ∧ y.edge = x.edge ∧
      y.value.toLiteral.same v = true := by
  let x : Statement := .ofLiteral "e1" "Q1" "P10"
    (.quantity ⟨.float (.ofInt 5), some (.ranked true 0 (Nat.zero_le _)), some (.ofInt 1000),
      some "kg", none⟩)
  let s := fresh false false .standard .idempotent "now"
  let s' := (s.run (StoreM.insert .strict [x])).2
  let left := (s'.run (SessionStep.write (.deleteIds ["e2"])).operation).2.rolledBack.database
  let config : StoreConfig := ⟨false, none, false, [], .standard, .idempotent⟩
  have hparse : Statement.parse "e1" "Q1" "P10" "5.0[-0.0,1e3]kg" = .ok x := by decide +kernel
  have hrun : s.run (StoreM.insert .strict [x]) = (.ok ⟨1, 0, 1⟩, s') :=
    Prod.ext (by decide +kernel) rfl
  have hspares : s'.Spares (.write (.deleteIds ["e2"])) x.edge :=
    .inr ⟨by decide +kernel, by decide +kernel⟩
  rcases hopen : (openDatabase config "later" left).1 with cause | opened
  · have hisOk : (openDatabase config "later" left).1.isOk = true := by decide +kernel
    rw [hopen] at hisOk
    cases hisOk
  · obtain ⟨-, hparsed⟩ := reachable_fresh.reads_back (by decide +kernel)
      (Tables.keepsTexts_of_utf8 rfl x) hrun (.reopened (.step .start _ hspares) [] hopen)
    obtain ⟨v, y, hdecode, hread, hedge, -, hsame⟩ := hparsed _ _ _ _ hparse
    exact ⟨x, v, s', opened, y, hparse, hdecode, hrun, hopen, hread, hedge, hsame⟩

/-- **A node that is not written as one is read back as an expression**, although it has no number
that is none and no other unit. -/
theorem not_reads_back :
    ∃ (s : Store) (x : Statement) (s' : Store), s.Reachable ∧
      s.database.tables.containsEdge x.edge.id = false ∧
      s.database.tables.KeepsTexts x ∧
      x.value = .quantity ⟨.int 5, none, none, none, some "abc"⟩ ∧
      s.run (StoreM.insert .strict [x]) = (.ok ⟨1, 0, 1⟩, s') ∧
      s'.database.statement x.edge.id =
        .ok ⟨x.edge, .quantity ⟨.int 5, none, none, some "abc", none⟩⟩ ∧
      ¬s'.database.ReadsBack x := by
  let x : Statement := ⟨⟨"e1", "Q1", "P10", "5abc", .quantity⟩,
    .quantity ⟨.int 5, none, none, none, some "abc"⟩⟩
  let s := fresh false false .standard .idempotent "now"
  have hread : (s.run (StoreM.insert .strict [x])).2.database.statement "e1" =
      .ok ⟨x.edge, .quantity ⟨.int 5, none, none, some "abc", none⟩⟩ := by decide +kernel
  refine ⟨s, x, _, reachable_fresh, by decide +kernel, Tables.keepsTexts_of_utf8 rfl x, rfl,
    Prod.ext (by decide +kernel) rfl, hread, ?_⟩
  rintro ⟨y, hy, -, hsame⟩
  obtain rfl := Except.ok.inj (hread.symm.trans hy)
  exact absurd hsame (by decide +kernel)

end Store

end FactGraph
