import FactGraph.Proofs.Store.Order
import FactGraph.Proofs.Store.Removal

/-!
# Values have edges

In a reachable store each value is that of a stored edge (`Store.Reachable.owned`), whatever the
encoding and the engine. So where the id of an edge is not stored, no value waits under it.

A removal takes values with their edges. An insertion adds values under the ids that the database
has answered before, which are ids of stored edges as they are written
(`Update.exists_apply_mapM_addEdges`). The reverse does not hold in every store: without a journal,
an insertion that fails leaves edges without their values.
-/

namespace FactGraph

namespace Tables

variable {t : Tables} {p : Edge → Bool}

/-- Each value is that of a stored edge, and each tag names a kind. -/
structure Owned (t : Tables) : Prop where
  tagged : t.unknownTags = []
  owned : ∀ kind, ∀ row ∈ (t.values kind).rows, t.edges.contains row.edgeId = true

theorem owned_empty : empty.Owned where
  tagged := rfl
  owned := fun kind row hrow => by simp [rows_empty] at hrow

theorem Owned.removeEdges (h : t.Owned) (p : Edge → Bool) : (t.removeEdges p).Owned where
  tagged := by
    show t.unknownTags.filter _ = []
    rw [h.tagged, List.filter_nil]
  owned := by
    intro kind row hrow
    rw [values_removeEdges, Table.rows_filter, List.mem_filter, decide_eq_true_eq] at hrow
    obtain ⟨e, he, hid⟩ := Table.contains_iff.1 (h.owned kind row hrow.1)
    have hstays : p e = false := by
      rw [← Bool.not_eq_true, ← mem_removedIds he, hid]
      exact hrow.2
    exact Table.contains_iff.2 ⟨e, mem_edges_removeEdges.2 ⟨he, hstays⟩, hid⟩

theorem Owned.withEdges (h : t.Owned) (edges : List Edge) : (t.withEdges edges).Owned := by
  obtain ⟨-, htags, hvalues⟩ := t.withEdges_frame edges
  refine ⟨htags.trans h.tagged, fun kind row hrow => contains_withEdges.2 (.inr ?_)⟩
  rw [hvalues] at hrow
  exact h.owned kind row hrow

theorem Owned.addValue (h : t.Owned) {kind : ValueKind} (row : ValueRow kind)
    (hedge : t.containsEdge row.edgeId = true) : (t.addValue row).Owned where
  tagged := (setValues_unknownTags ..).trans h.tagged
  owned := by
    intro other x hx
    rw [Tables.addValue, setValues_edges]
    by_cases hkind : kind = other
    · subst hkind
      rw [Tables.addValue, values_setValues] at hx
      rcases Table.mem_insert.1 hx with hx | ⟨rfl, -⟩
      · exact h.owned kind x hx
      · exact hedge
    · rw [Tables.addValue, values_setValues_of_ne t hkind] at hx
      exact h.owned other x hx

end Tables

/-! ## Edges of an insertion -/

namespace Update

variable {db : Database} {mode : InsertMode} {config : BatchConfig} {statements : List Statement}

/-- Edges are written where there is a table for them, and the ids that are answered are theirs. -/
theorem apply_writeEdges_cases (db : Database) (edges : List Edge) :
    (∃ cause, (writeEdges edges).apply db = (.error cause, db)) ∨
    ∃ written, (writeEdges edges).apply db =
        (.ok written, db.withTables (db.tables.withEdges edges)) ∧
      ∀ id ∈ written, id ∈ edges.map (db.tables.kept ·.id) := by
  cases hedges : db.has .edges with
  | true =>
    obtain ⟨written, hrun, hwritten⟩ := apply_writeEdges (u := db.tables) hedges edges
    exact .inr ⟨written, hrun, fun id hid => ((hwritten id).1 hid).1⟩
  | false =>
    unfold writeEdges
    by_cases hempty : edges.isEmpty
    · rw [List.isEmpty_iff.1 hempty]
      exact .inr ⟨[], rfl, fun id hid => nomatch hid⟩
    · rw [if_neg hempty, apply_bind_error (apply_require_of_missing hedges)]
      exact .inl ⟨_, rfl⟩

theorem length_firstSeen (seen ids : List String) : (firstSeen seen ids).length = ids.length := by
  induction ids generalizing seen with
  | nil => rfl
  | cons id ids ih => rw [firstSeen, List.length_cons, ih, List.length_cons]

theorem mem_written_of_flagged {written : List String} {chunk : List Statement} (seen : List String)
    {x : Statement}
    (h : (x, true) ∈ chunk.zip (((Statement.ids chunk).zip
      (firstSeen seen (Statement.ids chunk))).map fun (id, first) => first && id ∈ written)) :
    x.edge.id ∈ written := by
  induction chunk generalizing seen with
  | nil => exact nomatch h
  | cons s rest ih =>
    simp only [Statement.ids, List.map_cons, firstSeen, List.zip_cons_cons, List.mem_cons] at h
    rcases h with h | h
    · obtain ⟨rfl, hflag⟩ := Prod.mk.inj h
      simp only [Bool.true_eq, Bool.and_eq_true, decide_eq_true_eq] at hflag
      exact hflag.2
    · exact ih _ h

/-- Statements with as many flags, of which those whose flag is set have ids of these edges, as they
are written. -/
structure Flags (t : Tables) (edges : List Edge) (statements : List Statement)
    (flags : List Bool) : Prop where
  length : flags.length = statements.length
  answered : ∀ x, (x, true) ∈ statements.zip flags → x.edge.id ∈ edges.map (t.kept ·.id)

theorem Flags.append {t : Tables} {edges later : List Edge} {front back : List Statement}
    {flags others : List Bool} (h : Flags t edges front flags)
    (hlater : Flags (t.withEdges edges) later back others) :
    Flags t (edges ++ later) (front ++ back) (flags ++ others) where
  length := by rw [List.length_append, List.length_append, h.length, hlater.length]
  answered := by
    intro x hx
    rw [List.zip_append h.length.symm, List.mem_append] at hx
    rw [List.map_append, List.mem_append]
    refine hx.imp (h.answered x) fun hx => ?_
    simpa using hlater.answered x hx

theorem exists_apply_addEdges (mode : InsertMode) (chunk : List Statement) (seen : List String)
    (db : Database) :
    ∃ edges, (((addEdges mode chunk).run seen).apply db).2 =
        db.withTables (db.tables.withEdges edges) ∧
      ∀ flags last, (((addEdges mode chunk).run seen).apply db).1 = .ok (flags, last) →
        Flags db.tables edges chunk flags := by
  rw [run_addEdges]
  rcases apply_writeEdges_cases db ((firsts seen chunk).map Statement.edge) with
    ⟨cause, hrun⟩ | ⟨written, hrun, hwritten⟩
  · rw [apply_bind_error hrun]
    exact ⟨[], rfl, fun flags last hok => nomatch hok⟩
  · rw [apply_bind_ok hrun]
    refine ⟨(firsts seen chunk).map Statement.edge, ?_, fun flags last hok => ?_⟩
    · dsimp only
      split <;> rfl
    · dsimp only at hok
      split at hok
      · cases hok
      · cases hok
        exact ⟨by simp [Statement.ids, length_firstSeen], fun x hx =>
          hwritten _ (mem_written_of_flagged seen hx)⟩

/-- **The edges of an insertion**: whatever becomes of it, edges are added; and if it goes on, those
of the statements that it takes are stored under their ids. -/
theorem exists_apply_mapM_addEdges (mode : InsertMode) (chunks : List (List Statement))
    (seen : List String) (db : Database) :
    ∃ edges, (((chunks.mapM (addEdges mode)).run seen).apply db).2 =
        db.withTables (db.tables.withEdges edges) ∧
      ∀ flags last, (((chunks.mapM (addEdges mode)).run seen).apply db).1 = .ok (flags, last) →
        Flags db.tables edges chunks.flatten flags.flatten := by
  -- On the chunks, for every database: a later chunk adds to what the earlier ones have left,
  -- whether the run ends there or not.
  induction chunks generalizing seen db with
  | nil =>
    refine ⟨[], rfl, fun flags last hok => ?_⟩
    cases hok
    exact ⟨rfl, fun x hx => nomatch hx⟩
  | cons chunk chunks ih =>
    obtain ⟨edges, hleft, hflags⟩ := exists_apply_addEdges mode chunk seen db
    rw [List.mapM_cons, StateT.run_bind]
    rcases hrun : ((addEdges mode chunk).run seen).apply db with ⟨cause | ⟨flags, last⟩, middle⟩ <;>
      rw [hrun] at hleft hflags
    · rw [apply_bind_error hrun]
      exact ⟨edges, hleft, fun flags last hok => nomatch hok⟩
    · obtain rfl : middle = db.withTables (db.tables.withEdges edges) := hleft
      obtain ⟨later, hleft, hothers⟩ := ih last (db.withTables (db.tables.withEdges edges))
      rw [apply_bind_ok hrun, StateT.run_bind]
      rcases hruns : ((chunks.mapM (addEdges mode)).run last).apply
        (db.withTables (db.tables.withEdges edges)) with ⟨cause | ⟨others, last'⟩, left⟩ <;>
        rw [hruns] at hleft hothers
      · rw [apply_bind_error hruns]
        refine ⟨edges ++ later, ?_, fun flags last hok => nomatch hok⟩
        rw [Tables.withEdges_append]
        exact hleft
      · rw [apply_bind_ok hruns]
        refine ⟨edges ++ later, ?_, ?_⟩
        · rw [Tables.withEdges_append]
          exact hleft
        · rintro _ _ ⟨⟩
          exact (hflags flags last rfl).append (hothers others last' rfl)

/-! ## Changes -/

/-- The property is not that of the database but of its tables, so tables that come to it do not
matter. -/
theorem owned_of_extends (db db' : Database) (h : db.tables.Owned) (hextends : db'.Extends db) :
    db'.tables.Owned := by
  rwa [hextends.tables]

theorem owned_addValues (config : BatchConfig) (kind : ValueKind) (statements : List Statement) :
    (addValues config kind statements).Preserves fun db => db.tables.Owned ∧
      ∀ x ∈ statements, db.tables.containsEdge x.edge.id = true := by
  refine preserves_addValues (fun s hs db stored _ h => ?_) config kind
  refine ⟨h.1.addValue _ (h.2 s hs), fun x hx => ?_⟩
  rw [← h.2 x hx, Tables.containsEdge, Tables.containsEdge, Tables.kept, Tables.kept,
    Tables.addValue, Tables.setValues_edges, Tables.setValues_encoding]

theorem Flags.containsEdge {t : Tables} {edges : List Edge} {flags : List Bool}
    (h : Flags t edges statements flags) {x : Statement}
    (hx : x ∈ ((statements.zip flags).filter (·.2)).map (·.1)) :
    (t.withEdges edges).containsEdge x.edge.id = true := by
  obtain ⟨⟨x, flag⟩, hmem, rfl⟩ := List.mem_map.1 hx
  obtain ⟨hmem, rfl⟩ := List.mem_filter.1 hmem
  have hid := h.answered x hmem
  obtain ⟨e, -, hkept⟩ := List.mem_map.1 hid
  have hsame : t.kept x.edge.id = x.edge.id := by
    rw [← hkept]
    exact t.encoding.kept_kept e.id
  rw [Tables.containsEdge, Tables.kept_withEdges, hsame, Tables.contains_withEdges]
  exact .inl hid

/-- **An insertion adds no value without an edge**, even if it fails and is not undone. -/
theorem owned_insert (config : BatchConfig) (mode : InsertMode) (statements : List Statement) :
    (insert config mode statements).Preserves fun db => db.tables.Owned := by
  intro db h
  obtain ⟨edges, hleft, hflags⟩ :=
    exists_apply_mapM_addEdges mode ((config.perStatement edgeWidth).chunks statements) [] db
  rw [insert, run'_execute]
  rcases hrun : ((((config.perStatement edgeWidth).chunks statements).mapM
    (addEdges mode)).run []).apply db with ⟨cause | ⟨flags, last⟩, middle⟩ <;>
    rw [hrun] at hleft hflags
  · rw [apply_bind_error (apply_map_error _ hrun)]
    obtain rfl : middle = _ := hleft
    exact h.withEdges edges
  · rw [apply_bind_ok (apply_map_ok _ hrun)]
    obtain rfl : middle = _ := hleft
    -- Whose flag is set, its edge is stored, so its value has an edge when it comes.
    have hall := hflags flags last rfl
    rw [BatchConfig.flatten_chunks] at hall
    exact (preserves_bind (preserves_mapM fun kind _ => owned_addValues config kind _)
      (fun _ => preserves_pure _) _ ⟨h.withEdges edges, fun x hx => hall.containsEdge hx⟩).1

end Update

/-! ## Reachable stores -/

theorem Database.invariant_owned : Invariant fun db => db.tables.Owned where
  empty := Tables.owned_empty
  reopened := by
    intro db encoding h
    unfold Database.reopened
    dsimp only
    split
    · exact ⟨h.tagged, h.owned⟩
    · exact h
  withPages := fun _ _ h => h
  ensureBase := Update.preserves_ensureBase Update.owned_of_extends
  makeSteps := Update.preserves_makeSteps Update.owned_of_extends
  insert := Update.owned_insert
  listing := fun _ _ h => h
  removeEdges := fun _ p h => h.removeEdges p

/-- **In a reachable store, every value is that of a stored edge.** -/
theorem Store.Reachable.owned {s : Store} (h : s.Reachable) : s.database.tables.Owned :=
  (Database.invariant_owned.of_reachable h).database

end FactGraph
