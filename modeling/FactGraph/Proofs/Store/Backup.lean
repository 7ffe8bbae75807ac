import FactGraph.Proofs.Row.Columns
import FactGraph.Proofs.Row.Explosion
import FactGraph.Proofs.Store.Stored

/-!
# Files that restore a store

A store that was filled from flat files is written to a flat file and read into an empty store. The
invariant of the first store is that each edge is that of a stored statement from a file
(`Statement.IsImported`, `Store.Intact.consistsOf_after`). Such a statement fits in a file, and if
its numbers are finite it is read back with the same edge and the same columns
(`Statement.IsImported.of_gives`). Sound tables are determined by their statements, so the second
store gets the same tables, and from them the same answers (`Store.restores_of_finite`).
-/

namespace FactGraph

/-- The statement comes from a flat file and is in order. -/
structure Statement.IsImported (x : Statement) : Prop extends x.Filed where
  check : x.check = .ok ()

/-- The call inserts what was read from a flat file, or removes edges. -/
def WriteCall.IsFileCall : WriteCall → Prop
  | insert _ statements => ∃ bytes rows failFast, TabFile.readFlat bytes = .ok rows ∧
      statements = (explode failFast rows).statements
  | deleteIds _ | deleteObservations _ _ => True
  | replace .. | putDataset _ | putVariable _ | putProperty _ => False

/-! ## The store that is written -/

namespace Store

variable {s : Store}

theorem filed_of_mem_explode {bytes : List UInt8} {rows : List FlatRow} {failFast : Bool}
    (hread : TabFile.readFlat bytes = .ok rows) {x : Statement}
    (hx : x ∈ (explode failFast rows).statements) : x.Filed := by
  obtain ⟨row, hrow, -, hgives⟩ := exists_gives_of_mem_statements hx
  exact hgives.filed (TabFile.fits_of_readFlat hread hrow)

/-- **Each call on files keeps the invariant.** -/
theorem Intact.consistsOf_afterCall (h : s.Intact)
    (hs : s.database.tables.ConsistsOf Statement.IsImported) {call : WriteCall}
    (hcall : call.IsFileCall) :
    (s.afterCall call).database.tables.ConsistsOf Statement.IsImported := by
  cases call with
  | insert mode statements =>
    obtain ⟨bytes, rows, failFast, hread, hstatements⟩ := hcall
    rw [Store.afterCall]
    rcases h.insert_cases mode statements with hsame | ⟨t', hadds, hcheck, hstorable, hrun⟩
    · rwa [hsame]
    · rw [hrun]
      refine hs.adds hadds hstorable fun x hx => ?_
      have hx := (s.database.tables.newsAfter_sublist [] statements).subset hx
      exact ⟨filed_of_mem_explode hread (hstatements ▸ hx), hcheck x hx⟩
  | deleteIds ids =>
    by_cases hne : ids = []
    · subst hne
      exact hs
    · rw [Store.afterCall, run_deleteIds h.toReady hne]
      exact hs.removeEdges _
  | deleteObservations dataset properties =>
    by_cases hne : properties = []
    · subst hne
      exact hs
    · obtain ⟨n, hrun⟩ := run_deleteObservations h.toReady dataset hne
      rw [Store.afterCall, hrun]
      exact hs.removeEdges _
  | replace node predicates statements => exact hcall.elim
  | putDataset d => exact hcall.elim
  | putVariable v => exact hcall.elim
  | putProperty q => exact hcall.elim

/-- **A store that is written from files has statements from files.** -/
theorem Intact.consistsOf_after (h : s.Intact)
    (hs : s.database.tables.ConsistsOf Statement.IsImported) {calls : List WriteCall}
    (hcalls : ∀ call ∈ calls, call.IsFileCall) :
    (s.after calls).database.tables.ConsistsOf Statement.IsImported := by
  induction calls generalizing s with
  | nil => exact hs
  | cons call calls ih =>
    exact ih (h.afterCall call) (h.consistsOf_afterCall hs (hcalls call (List.mem_cons_self ..)))
      fun other hother => hcalls other (List.mem_cons_of_mem call hother)

end Store

/-! ## The file -/

namespace Literal

theorem isFinite_unsignedZeros (v : Literal) : v.unsignedZeros.isFinite = v.isFinite := by
  cases v with
  | quantity q =>
    obtain ⟨number, low, high, siUnits, unitsNode⟩ := q
    cases low <;> cases high <;>
      simp [unsignedZeros, isFinite, Quantity.isFinite, Quantity.unsignedZeros,
        Binary64.isFinite_unsignedZero]
  | _ => rfl

end Literal

namespace Statement

variable {x y a : Statement} {v : Literal}

theorem not_isBlank_of_check (h : x.check = .ok ()) :
    Text.isBlankText x.edge.id = false ∧ Text.isBlankText x.edge.node1 = false ∧
      Text.isBlankText x.edge.label = false := by
  unfold check at h
  split at h
  · cases h
  split at h
  · cases h
  split at h
  · cases h
  · simp_all

/-- Whether a statement is in order depends on its edge and the kind of its value. -/
theorem check_congr (hedge : x.edge = y.edge) (hkind : x.value.kind = y.value.kind) :
    x.check = y.check := by
  rw [check, check, hedge, hkind]

theorem IsImported.attach_eq {db : Database} (h : x.IsImported) (hdb : db.Intact)
    (hx : db.tables.Stores x) : db.attach x.edge = .ok ⟨x.edge, x.value.unsignedZeros⟩ := by
  obtain ⟨text, v, -, hdecode, hvalue⟩ := h.literal
  obtain ⟨stored, w, hstored, hw, hattach⟩ := hdb.attach_eq hx
  have hread := StoredValue.toValue_ofValue? (v := x.value)
    (by rw [hvalue]; exact Literal.hasNaN_of_decode hdecode)
    (by rw [hvalue]; exact Literal.hasPlainUnit_of_decode hdecode) hstored
  rw [hattach, ← Except.ok.inj (hw.symm.trans hread)]

/-- If what is read from the tables is finite, the statement is that of a well-formed literal. -/
theorem IsImported.exists_isOf (h : x.IsImported)
    (hfinite : x.value.unsignedZeros.toLiteral.isFinite = true) : ∃ v, x.IsOf v := by
  refine h.toFiled.exists_isOf ?_
  obtain ⟨text, v, -, -, hvalue⟩ := h.literal
  have hv : x.value = .ofLiteral v := by rw [hvalue]; rfl
  rw [hv, Value.unsignedZeros_ofLiteral, isFinite_toLiteral, Literal.isFinite_unsignedZeros]
    at hfinite
  rwa [hv, isFinite_toLiteral]

/-- **The row of a statement fits in a file and is accepted.** -/
theorem IsImported.fits (h : x.IsImported) (hv : x.IsOf v) :
    x.toFlat.Fits ∧ x.toFlat.isAccepted = true := by
  obtain ⟨hid, hnode1, hlabel⟩ := not_isBlank_of_check h.check
  obtain ⟨w, hdecode, -, -⟩ := Literal.exists_decode_encode hv.wellFormed
  refine ⟨⟨?_, ?_⟩, ?_⟩
  · intro text htext
    simp only [TabFile.flatFields, toFlat, Option.getD_some, List.mem_cons, List.not_mem_nil,
      or_false] at htext
    rcases htext with rfl | rfl | rfl | rfl
    · exact h.id
    · exact h.node1
    · exact h.label
    · exact hv.isInline_node2
  · intro hempty
    rw [Option.some.inj hempty] at hid
    exact absurd hid (by decide)
  · have hread : Literal.decode x.toFlat.node2 = .ok w := by
      rw [← hdecode, ← hv.node2]
      rfl
    exact FlatRow.isAccepted_iff.2 ⟨hnode1, hlabel, w, hread⟩

/-- **The row of a statement gives a statement with the same edge and the same columns.** -/
theorem IsImported.of_gives (h : x.IsImported) (hv : x.IsOf v) (hgives : x.toFlat.Gives y) :
    y.edge = x.edge ∧ y.row? = x.row? ∧ y.check = .ok () := by
  obtain ⟨w, hdecode, hzeros, hencode⟩ := Literal.exists_decode_encode hv.wellFormed
  obtain ⟨w', hdecode', hy⟩ := hgives.literal
  obtain rfl : w' = w := by
    rw [toFlat, hv.node2, hdecode] at hdecode'
    exact (Except.ok.inj hdecode').symm
  have hid : y.edge.id = x.edge.id := by
    have hgiven : x.toFlat.id.filter (!·.isEmpty) = some x.edge.id := by
      have hne : x.edge.id ≠ "" := fun hempty => (h.fits hv).1.id (congrArg some hempty)
      simp [toFlat, Option.filter, hne]
    have hidOf := hgives.id
    rw [FlatRow.IdOf, hgiven] at hidOf
    exact hidOf
  -- The literal that is read may differ in the signs of zeros, but neither kind nor columns show
  -- them.
  have hkind : w'.kind = v.kind := by
    rw [← Literal.kind_unsignedZeros w', hzeros, Literal.kind_unsignedZeros]
  have hedge : y.edge = x.edge := by
    rw [hy, hid, hv.eq]
    simp only [ofLiteral, toFlat, hencode, hkind]
  have hvalue : y.value = .ofLiteral w' := by rw [hy]; rfl
  refine ⟨hedge, row?_eq_of_unsignedZeros_eq hedge ?_, ?_⟩
  · rw [hvalue, hv.value, Value.unsignedZeros_ofLiteral, Value.unsignedZeros_ofLiteral, hzeros]
  · rw [← h.check]
    refine check_congr hedge ?_
    rw [hvalue, hv.value, Value.kind_ofLiteral, Value.kind_ofLiteral, hkind]

end Statement

/-! ## The statements that are read from the file -/

namespace Tables

variable {t : Tables} {a y : Statement} {all : List Statement}

/-- The statement has the edge of a stored one that comes from a file and whose numbers are
finite. -/
def HasOrigin (t : Tables) (a : Statement) : Prop :=
  ∃ x v, a.edge = x.edge ∧ x.IsImported ∧ t.Stores x ∧ x.IsOf v

theorem toFlat_congr {x : Statement} (h : a.edge = x.edge) : a.toFlat = x.toFlat := by
  rw [Statement.toFlat, Statement.toFlat, h]

theorem HasOrigin.fits (h : t.HasOrigin a) : a.toFlat.Fits ∧ a.toFlat.isAccepted = true := by
  obtain ⟨x, v, hedge, hx, -, hv⟩ := h
  exact toFlat_congr hedge ▸ hx.fits hv

theorem HasOrigin.of_gives (h : t.HasOrigin a) (hy : a.toFlat.Gives y) :
    y.edge = a.edge ∧ t.Stores y ∧ y.check = .ok () := by
  obtain ⟨x, v, hedge, hx, hstores, hv⟩ := h
  obtain ⟨hyEdge, hyRow, hyCheck⟩ := hx.of_gives hv (toFlat_congr hedge ▸ hy)
  exact ⟨hyEdge.trans hedge.symm, ⟨hyEdge ▸ hstores.edge, hyRow ▸ hstores.value⟩, hyCheck⟩

/-- **Each row of the file gives a statement that is stored**, in the order of the rows. -/
theorem forall₂_explode (h : ∀ a ∈ all, t.HasOrigin a) (failFast : Bool) :
    List.Forall₂ (fun a y => y.edge = a.edge ∧ t.Stores y ∧ y.check = .ok ()) all
      (explode failFast (all.map Statement.toFlat)).statements := by
  have hgives := statements_explode failFast (all.map Statement.toFlat)
  rw [accepted_eq_self, List.forall₂_map_left_iff, List.forall₂_iff_zip] at hgives
  · exact List.forall₂_iff_zip.2
      ⟨hgives.1, fun hmem => (h _ (List.of_mem_zip hmem).1).of_gives (hgives.2 hmem)⟩
  · intro row hrow
    obtain ⟨a, ha, rfl⟩ := List.mem_map.1 hrow
    exact (h a ha).fits.2

end Tables

/-! ## The store that is restored -/

namespace Store

variable {s blank : Store} {all statements : List Statement}

/-- Whatever is read from the store comes from a stored statement of a file. -/
theorem Intact.hasOrigin (h : s.Intact)
    (hs : s.database.tables.ConsistsOf Statement.IsImported)
    (hall : s.database.allStatements = .ok all)
    (hfinite : ∀ a ∈ all, a.value.toLiteral.isFinite = true) :
    ∀ a ∈ all, s.database.tables.HasOrigin a := by
  intro a ha
  have hattach := h.database.forall₂_attach hall
  obtain ⟨i, hi, rfl⟩ := List.mem_iff_getElem.1 ha
  have hrow : i < s.database.tables.edges.rows.length := hattach.length_eq ▸ hi
  have hread := hattach.get hrow hi
  obtain ⟨x, hedge, hx, hstores⟩ := hs _ (List.getElem_mem hrow)
  rw [List.get_eq_getElem, ← hedge, hx.attach_eq h.database hstores] at hread
  have hvalue : all[i] = ⟨x.edge, x.value.unsignedZeros⟩ := (Except.ok.inj hread).symm
  obtain ⟨v, hv⟩ := hx.exists_isOf (by simpa [hvalue] using hfinite _ ha)
  exact ⟨x, v, by rw [hvalue], hx, hstores, hv⟩

/-- **The statements of sound tables give the tables**, if they are inserted into an empty store in
the order of their ids. -/
theorem Intact.run_insert_stored (hblank : blank.Intact) (hempty : blank.database.tables = .empty)
    {t : Tables} (hsound : t.Sound) (hencoding : t.encoding = .utf8)
    (hedges : statements.map Statement.edge = t.edges.rows)
    (hstores : ∀ y ∈ statements, t.Stores y) (hcheck : ∀ y ∈ statements, y.check = .ok ())
    (mode : InsertMode) :
    blank.run (StoreM.insert mode statements) =
      (.ok ⟨statements.length, 0, statements.length⟩, blank.withTables t) := by
  -- The ids are the keys of a table, so no statement takes the id of another.
  have hnews : blank.database.tables.news statements = statements := by
    refine Tables.newsAfter_eq_self (fun y _ => by rw [hempty]; rfl) ?_
    have hids : Statement.ids statements = t.edges.rows.map Edge.id := by
      rw [← hedges, List.map_map]
      rfl
    rw [List.nil_append, hids]
    exact Table.nodup_keys _
  have hstorable : ∀ y ∈ statements, Update.Storable y := by
    intro y hy
    obtain ⟨kind, row, hrow, -⟩ := (hstores y hy).value
    obtain ⟨stored, hstored, -⟩ := Option.map_eq_some_iff.1 hrow
    rw [Update.Storable, hstored, Option.isSome_some]
  obtain ⟨t', hadds, hrun⟩ := hblank.run_insert_all_new mode hcheck hstorable hnews
  rw [hempty] at hadds
  have htables : t' = t := by
    refine hadds.eq_of_stores hsound hencoding hstores fun e he => ?_
    rw [← hedges] at he
    exact List.mem_map.1 he
  rw [hrun, htables]

/-- **The file of an intact store of finite statements restores it.** -/
theorem Intact.restores (h : s.Intact) (hs : s.database.tables.ConsistsOf Statement.IsImported)
    (hblank : blank.Intact) (hempty : blank.database.tables = .empty)
    (hall : s.database.allStatements = .ok all)
    (hfinite : ∀ a ∈ all, a.value.toLiteral.isFinite = true) (mode : InsertMode)
    (failFast : Bool) :
    let report := explode failFast (all.map Statement.toFlat)
    TabFile.readFlat (Text.bytes (TabFile.writeFlat (all.map Statement.toFlat))) =
      .ok (all.map Statement.toFlat) ∧ report.errors = [] ∧
    ∃ restored, blank.run (StoreM.insert mode report.statements) =
        (.ok ⟨all.length, 0, all.length⟩, restored) ∧
      restored.database.tables = s.database.tables ∧ restored.database.allStatements = .ok all := by
  intro report
  have horigin := h.hasOrigin hs hall hfinite
  have hrows : ∀ row ∈ all.map Statement.toFlat, row.Fits ∧ row.isAccepted = true := by
    intro row hrow
    obtain ⟨a, ha, rfl⟩ := List.mem_map.1 hrow
    exact (horigin a ha).fits
  obtain ⟨hlength, hpairs⟩ := List.forall₂_iff_zip.1 (Tables.forall₂_explode horigin failFast)
  have hstatements : ∀ y ∈ report.statements,
      s.database.tables.Stores y ∧ y.check = .ok () := by
    intro y hy
    obtain ⟨row, hrow, -, hgives⟩ := exists_gives_of_mem_statements hy
    obtain ⟨a, ha, rfl⟩ := List.mem_map.1 hrow
    exact ((horigin a ha).of_gives hgives).2
  have hedges : report.statements.map Statement.edge = s.database.tables.edges.rows := by
    obtain ⟨all', hall', hmap⟩ := h.database.exists_allStatements
    obtain rfl : all' = all := Except.ok.inj (hall'.symm.trans hall)
    rw [← hmap, eq_comm, ← List.forall₂_eq_eq_eq, List.forall₂_map_left_iff,
      List.forall₂_map_right_iff, List.forall₂_iff_zip]
    exact ⟨hlength, fun hmem => (hpairs hmem).1.symm⟩
  have hrun := hblank.run_insert_stored hempty h.sound h.encoding hedges
    (fun y hy => (hstatements y hy).1) (fun y hy => (hstatements y hy).2) mode
  have hrestored : (blank.withTables s.database.tables).Intact := by
    have hkeeps := StoreM.covers_keeps.insert mode report.statements blank hblank
    rwa [hrun] at hkeeps
  refine ⟨TabFile.readFlat_of_fits _ fun row hrow => (hrows row hrow).1,
    errors_explodeFrom fun row hrow => (hrows row hrow).2,
    blank.withTables s.database.tables, ?_, rfl, ?_⟩
  · rw [hlength]
    exact hrun
  · rw [← hall]
    exact hrestored.database.allStatements_congr h.database rfl

end Store

/-! ## Stores that were opened empty -/

/-- The engine keeps texts as they are, can write and undo changes, and sets no limit. -/
structure Engine.IsOrdinary (e : Engine) : Prop where
  encoding : e.encoding = .utf8
  pageLimit : e.pageLimit = none
  refusal : e.refusal = none
  reportsChanges : e.reportsChanges = false
  isStarved : e.isStarved = false
  undoes : e.undoes = true

namespace Store

/-- With an ordinary engine, opening an empty database gives an intact store without statements. -/
theorem exists_opened {config : StoreConfig} {engine : Engine}
    (hengine : config.engine = .ok engine) (h : engine.IsOrdinary) (now : String) :
    ∃ opened, (openDatabase config now .empty).1 = .ok opened ∧ opened.Intact ∧
      opened.database.tables = .empty := by
  refine ⟨_, openDatabase_of_engine hengine h.encoding h.pageLimit h.refusal h.reportsChanges
    h.isStarved now, ⟨⟨?_, ?_, ?_, h.refusal, h.undoes, rfl⟩, ?_, ?_⟩, ?_⟩
  · cases config.withoutMigrations <;> exact Database.complete_base
  · cases config.withoutMigrations <;> rfl
  · cases config.withoutMigrations <;> rfl
  · cases config.withoutMigrations <;> exact Tables.sound_empty
  · cases config.withoutMigrations <;> exact Tables.readable_empty
  · cases config.withoutMigrations <;> rfl

/-- **A file restores the store that it was written from.** However a store that was opened empty is
filled from flat files and emptied again, its statements can be read; if their numbers are finite,
written to a flat file and read they give no error, and inserted into any other store that was
opened empty they are all taken and give the same tables and the same statements. -/
theorem restores_of_finite (config target : StoreConfig) (engine targetEngine : Engine)
    (hengine : config.engine = .ok engine) (htargetEngine : target.engine = .ok targetEngine)
    (hordinary : engine.IsOrdinary) (htargetOrdinary : targetEngine.IsOrdinary)
    (now later : String) (calls : List WriteCall) (hcalls : ∀ call ∈ calls, call.IsFileCall)
    (mode : InsertMode) (failFast : Bool) :
    ∃ opened blank all, (openDatabase config now .empty).1 = .ok opened ∧
      (openDatabase target later .empty).1 = .ok blank ∧
      let s := opened.after calls
      s.database.allStatements = .ok all ∧
      ((∀ x ∈ all, x.value.toLiteral.isFinite = true) →
        ∃ rows restored,
          TabFile.readFlat (Text.bytes (TabFile.writeFlat (all.map Statement.toFlat))) = .ok rows ∧
          (explode failFast rows).errors = [] ∧
          blank.run (StoreM.insert mode (explode failFast rows).statements) =
            (.ok ⟨all.length, 0, all.length⟩, restored) ∧
          restored.database.tables = s.database.tables ∧
          restored.database.allStatements = .ok all) := by
  obtain ⟨opened, hopened, hintact, hopenedEmpty⟩ := exists_opened hengine hordinary now
  obtain ⟨blank, hblank, hblankIntact, hblankEmpty⟩ :=
    exists_opened htargetEngine htargetOrdinary later
  have hafter := hintact.after calls
  have hconsists := hintact.consistsOf_after
    (by rw [hopenedEmpty]; exact Tables.consistsOf_empty _) hcalls
  obtain ⟨all, hall, -⟩ := hafter.database.exists_allStatements
  refine ⟨opened, blank, all, hopened, hblank, hall, fun hfinite => ?_⟩
  obtain ⟨hread, herrors, restored, hrun, htables, hrestored⟩ :=
    hafter.restores hconsists hblankIntact hblankEmpty hall hfinite mode failFast
  exact ⟨_, restored, hread, herrors, hrun, htables, hrestored⟩

/-- A store with a tolerance that was read from a negative zero, and from which a text was removed
again, is restored by a strict insertion into a store in a file. -/
theorem restores_of_finite_zero :
    let rows : List FlatRow := [⟨some "x", "n", "p", "+5[-0,1]m"⟩, ⟨some "y", "n", "p", "\"t\""⟩]
    let calls := [.insert .idempotent (explode true rows).statements, .deleteIds ["y"]]
    let x : Statement := ⟨⟨"x", "n", "p", "5[0,1]m", .quantity⟩,
      .quantity ⟨.int 5, some .zero, some (.ofInt 1), some "m", none⟩⟩
    let s := (fresh false false .standard .idempotent "now").after calls
    s.database.allStatements = .ok [x] ∧
      ∃ read restored, TabFile.readFlat (Text.bytes (TabFile.writeFlat [x.toFlat])) = .ok read ∧
        (explode true read).errors = [] ∧
        (fresh true true .standard .strict "later").run
          (StoreM.insert .strict (explode true read).statements) = (.ok ⟨1, 0, 1⟩, restored) ∧
        restored.database.tables = s.database.tables ∧
        restored.database.allStatements = .ok [x] := by
  intro rows calls x s
  have hs : s = (fresh false false .standard .idempotent "now").after calls := rfl
  have hread : TabFile.readFlat (Text.bytes (TabFile.writeFlat rows)) = .ok rows := by
    refine TabFile.readFlat_of_fits rows ?_
    simp only [rows, List.forall_mem_cons, List.not_mem_nil, false_implies, implies_true, and_true]
    exact ⟨⟨by decide, by decide⟩, by decide, by decide⟩
  have hcalls : ∀ call ∈ calls, call.IsFileCall := by
    simp only [calls, List.forall_mem_cons, List.not_mem_nil, false_implies, implies_true, and_true]
    exact ⟨⟨_, rows, true, hread, rfl⟩, trivial⟩
  have hall : s.database.allStatements = .ok [x] := by decide +kernel
  have hopen := openDatabase_empty false false .standard .idempotent "now"
  have hopenBlank := openDatabase_empty true true .standard .strict "later"
  obtain ⟨opened, blank, all, hopened, hblank, hall', hrestores⟩ :=
    restores_of_finite ⟨false, none, false, [], .standard, .idempotent⟩
      ⟨true, none, true, [], .standard, .strict⟩ _ _ rfl rfl ⟨rfl, rfl, rfl, rfl, rfl, rfl⟩
      ⟨rfl, rfl, rfl, rfl, rfl, rfl⟩ "now" "later" calls hcalls .strict true
  obtain rfl := Except.ok.inj (hopen.symm.trans hopened)
  obtain rfl := Except.ok.inj (hopenBlank.symm.trans hblank)
  obtain rfl := Except.ok.inj (hall.symm.trans hall')
  have hfinite : ∀ a ∈ [x], a.value.toLiteral.isFinite = true := by
    simp only [List.forall_mem_cons, List.not_mem_nil, false_implies, implies_true, and_true]
    show Literal.isFinite (.quantity ⟨.int 5, some .zero, some (.ofInt 1), some "m", none⟩) = true
    decide +kernel
  obtain ⟨read, restored, hread, herrors, hrun, htables, hrestored⟩ := hrestores hfinite
  refine ⟨hall, read, restored, hread, herrors, hrun, ?_, hrestored⟩
  rw [hs]
  exact htables

end Store

end FactGraph
