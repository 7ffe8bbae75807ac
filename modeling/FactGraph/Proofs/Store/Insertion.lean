import Mathlib.Data.Bool.Count
import Mathlib.Data.List.ReduceOption
import FactGraph.Proofs.Store.Addition
import FactGraph.Proofs.Store.Update

/-!
# What an insertion does

An insertion writes edges in chunks, remembers across chunks which ids it has seen, compares with
what the database answers, and then writes the values kind by kind, in chunks of another size. Here
its runs are computed. The invariant from chunk to chunk is that the ids seen are those of the
earlier statements, and that the stored ids are those of the start and of the earlier statements;
with it each chunk finds out which of its statements are new.

Main results: without a conflict and with values that can be stored an insertion succeeds and leaves
`Tables.withNews` (`Update.apply_insert`); a conflict ends it (`Update.apply_insert_conflict`); and
it succeeds in no other case (`Update.of_apply_insert_ok`).
-/

namespace FactGraph

/-- The database with other tables. -/
def Database.withTables (db : Database) (t : Tables) : Database := { db with tables := t }

/-- All tables exist and can be used. -/
def Database.Complete (db : Database) : Prop := ∀ table, db.has table = true

namespace Tables

variable {t : Tables} {mode : InsertMode} {earlier : List Statement}

/-- The id that ends an insertion: in strict mode, that of the first statement that is not new. -/
def conflict? (t : Tables) (mode : InsertMode) (earlier : List Statement) :
    List Statement → Option String
  | [] => none
  | s :: rest =>
    if mode = .strict ∧ ¬t.IsNew earlier s then some s.edge.id
    else t.conflict? mode (earlier ++ [s]) rest

theorem conflict?_append (front back : List Statement) :
    t.conflict? mode earlier (front ++ back) =
      (t.conflict? mode earlier front).or (t.conflict? mode (earlier ++ front) back) := by
  induction front generalizing earlier with
  | nil => simp [conflict?]
  | cons s rest ih =>
    rw [List.cons_append, conflict?, conflict?]
    split
    · rfl
    · rw [ih, List.append_assoc, List.singleton_append]

theorem conflict?_idempotent (statements : List Statement) :
    t.conflict? .idempotent earlier statements = none := by
  induction statements generalizing earlier with
  | nil => rfl
  | cons s rest ih => simp [conflict?, ih]

theorem newsAfter_cons_eq {s : Statement} {rest : List Statement}
    (h : t.newsAfter earlier (s :: rest) = s :: rest) :
    t.IsNew earlier s ∧ t.newsAfter (earlier ++ [s]) rest = rest := by
  by_cases hnew : t.IsNew earlier s
  · rw [newsAfter, if_pos hnew] at h
    exact ⟨hnew, (List.cons.inj h).2⟩
  · rw [newsAfter, if_neg hnew] at h
    have hlength := (t.newsAfter_sublist (earlier ++ [s]) rest).length_le
    rw [h, List.length_cons] at hlength
    omega

theorem conflict?_of_all_new {statements : List Statement}
    (h : t.newsAfter earlier statements = statements) :
    t.conflict? mode earlier statements = none := by
  induction statements generalizing earlier with
  | nil => rfl
  | cons s rest ih =>
    obtain ⟨hnew, hrest⟩ := newsAfter_cons_eq h
    simp [conflict?, hnew, ih hrest]

theorem exists_conflict {statements : List Statement}
    (h : t.newsAfter earlier statements ≠ statements) :
    ∃ front s back, statements = front ++ s :: back ∧ t.newsAfter earlier front = front ∧
      ¬t.IsNew (earlier ++ front) s ∧
      t.conflict? .strict earlier statements = some s.edge.id := by
  induction statements generalizing earlier with
  | nil => exact absurd rfl h
  | cons s rest ih =>
    by_cases hnew : t.IsNew earlier s
    · rw [newsAfter, if_pos hnew] at h
      obtain ⟨front, x, back, hrest, hfront, hold, hid⟩ := ih fun hall => h (by rw [hall])
      refine ⟨s :: front, x, back, by rw [hrest, List.cons_append], ?_, ?_, ?_⟩
      · rw [newsAfter, if_pos hnew, hfront]
      · rwa [List.append_cons]
      · rw [conflict?, if_neg (by simp [hnew]), hid]
    · refine ⟨[], s, rest, rfl, rfl, by rwa [List.append_nil], ?_⟩
      rw [conflict?, if_pos ⟨rfl, hnew⟩]

end Tables

namespace Update

variable {db : Database} {t u : Tables} {mode : InsertMode} {config : BatchConfig}
  {earlier statements chunk : List Statement} {seen : List String}

/-! ## Edges of one statement -/

theorem apply_addEdge_of_contains {e : Edge} (hstored : u.containsEdge e.id = true) :
    (addEdge e).apply (db.withTables u) = (.ok none, db.withTables u) := by
  rw [addEdge, apply_bind_ok (apply_get _)]
  simp [Database.withTables, hstored]

theorem apply_addEdge_of_new {e : Edge} (hnew : u.containsEdge e.id = false) :
    (addEdge e).apply (db.withTables u) =
      (.ok (some (u.kept e.id)), db.withTables (u.addEdge e)) := by
  rw [addEdge, apply_bind_ok (apply_get _)]
  simp only [Database.withTables, hnew]
  rfl

/-- Edges are added one after the other, and the answer tells the ids that were not stored, as they
have been written. -/
theorem apply_mapM_addEdge (edges : List Edge) :
    ∃ answer, (edges.mapM addEdge).apply (db.withTables u) =
        (.ok answer, db.withTables (u.withEdges edges)) ∧
      ∀ id, id ∈ answer.reduceOption ↔
        id ∈ edges.map (u.kept ·.id) ∧ u.edges.contains id = false := by
  induction edges generalizing u with
  | nil => exact ⟨[], rfl, by simp [List.reduceOption_nil]⟩
  | cons e edges ih =>
    cases hstored : u.containsEdge e.id with
    | true =>
      obtain ⟨answer, hrun, hanswer⟩ := ih (u := u)
      refine ⟨none :: answer, ?_, fun id => ?_⟩
      · rw [List.mapM_cons, apply_bind_ok (apply_addEdge_of_contains hstored), apply_bind_ok hrun,
          Tables.withEdges_cons, Tables.addEdge_of_contains hstored, apply_pure]
      · rw [List.reduceOption_cons_of_none, hanswer, List.map_cons, List.mem_cons]
        constructor
        · exact fun ⟨hid, hnew⟩ => ⟨.inr hid, hnew⟩
        · rintro ⟨rfl | hid, hnew⟩
          · exact nomatch hnew.symm.trans hstored
          · exact ⟨hid, hnew⟩
    | false =>
      obtain ⟨answer, hrun, hanswer⟩ := ih (u := u.addEdge e)
      refine ⟨some (u.kept e.id) :: answer, ?_, fun id => ?_⟩
      · rw [List.mapM_cons, apply_bind_ok (apply_addEdge_of_new hstored), apply_bind_ok hrun,
          Tables.withEdges_cons, apply_pure]
      · have hnew : u.edges.contains (u.kept e.id) = false := hstored
        rw [List.reduceOption_cons_of_some, List.mem_cons, hanswer, List.map_cons, List.mem_cons,
          ← Bool.not_eq_true, ← Bool.not_eq_true, Tables.contains_addEdge]
        by_cases hid : id = u.kept e.id
        · simp [hid, hnew]
        · simp [hid]

theorem apply_writeEdges (hedges : db.has .edges = true) (edges : List Edge) :
    ∃ written, (writeEdges edges).apply (db.withTables u) =
        (.ok written, db.withTables (u.withEdges edges)) ∧
      ∀ id, id ∈ written ↔ id ∈ edges.map (u.kept ·.id) ∧ u.edges.contains id = false := by
  unfold writeEdges
  by_cases hempty : edges.isEmpty
  · rw [List.isEmpty_iff.1 hempty]
    exact ⟨[], rfl, by simp⟩
  · obtain ⟨answer, hrun, hanswer⟩ := apply_mapM_addEdge edges
    refine ⟨answer.reduceOption, ?_, hanswer⟩
    have hread : (read (·.require .edges)).apply (db.withTables u) =
        (.ok (), db.withTables u) := apply_require hedges
    rw [if_neg hempty, apply_bind_ok hread, apply_bind_ok hrun]
    rfl

/-! ## Edges of one chunk -/

/-- The statements of a chunk whose ids come for the first time. -/
def firsts (seen : List String) (chunk : List Statement) : List Statement :=
  ((chunk.zip (firstSeen seen (Statement.ids chunk))).filter (·.2)).map (·.1)

theorem firsts_cons (s : Statement) (rest : List Statement) :
    firsts seen (s :: rest) =
      if s.edge.id ∈ seen then firsts (s.edge.id :: seen) rest
      else s :: firsts (s.edge.id :: seen) rest := by
  by_cases h : s.edge.id ∈ seen <;> simp [firsts, Statement.ids, firstSeen, h]

theorem not_mem_of_mem_firsts {s : Statement} (hs : s ∈ firsts seen chunk) : s.edge.id ∉ seen := by
  induction chunk generalizing seen with
  | nil => cases hs
  | cons first rest ih =>
    rw [firsts_cons] at hs
    split at hs
    next => exact fun hseen => ih hs (List.mem_cons_of_mem _ hseen)
    next hfirst =>
      rcases List.mem_cons.1 hs with rfl | hs
      · exact hfirst
      · exact fun hseen => ih hs (List.mem_cons_of_mem _ hseen)

/-- Edges whose ids were seen are stored, so leaving them out changes nothing. -/
theorem withEdges_firsts (h : u.encoding = .utf8)
    (hseen : ∀ id ∈ seen, u.containsEdge id = true) :
    u.withEdges ((firsts seen chunk).map Statement.edge) =
      u.withEdges (chunk.map Statement.edge) := by
  -- On the chunk, while the ids that have been seen are stored in `u`.
  induction chunk generalizing u seen with
  | nil => rfl
  | cons s rest ih =>
    have hstep : ∀ id ∈ s.edge.id :: seen, (u.addEdge s.edge).containsEdge id = true := by
      intro id hid
      rw [Tables.containsEdge_addEdge h]
      exact (List.mem_cons.1 hid).imp_right (hseen id)
    rw [firsts_cons, List.map_cons, Tables.withEdges_cons, ← ih (u := u.addEdge s.edge) h hstep]
    split
    next hid => rw [Tables.addEdge_of_contains (hseen _ hid)]
    next => rfl

/-- **The seen ids and the answer of the database tell which statements are new.** -/
theorem flags_eq_newFlags {written : List String}
    (hseen : ∀ id, id ∈ seen ↔ id ∈ Statement.ids earlier)
    (hwritten : ∀ s ∈ firsts seen chunk, s.edge.id ∈ written ↔ t.containsEdge s.edge.id = false) :
    ((Statement.ids chunk).zip (firstSeen seen (Statement.ids chunk))).map
      (fun (id, first) => first && decide (id ∈ written)) = t.newFlags earlier chunk := by
  -- On the chunk. The ids that have been seen are those of the statements before it, so a flag is
  -- set exactly where an id comes first and was not stored.
  induction chunk generalizing seen earlier with
  | nil => rfl
  | cons s rest ih =>
    have hseenStep : ∀ id, id ∈ s.edge.id :: seen ↔ id ∈ Statement.ids (earlier ++ [s]) := by
      intro id
      simp [Statement.ids, hseen, or_comm]
    rw [firsts_cons] at hwritten
    by_cases hs : s.edge.id ∈ seen
    · rw [if_pos hs] at hwritten
      have hold : ¬t.IsNew earlier s := fun hnew => hnew.2 ((hseen _).1 hs)
      have hrest := ih hseenStep hwritten
      simp only [Statement.ids, List.map_cons, firstSeen, List.zip_cons_cons, Tables.newFlags, hs,
        hold, decide_false, not_true_eq_false, Bool.false_and] at hrest ⊢
      rw [hrest]
    · rw [if_neg hs] at hwritten
      have hnew : s.edge.id ∈ written ↔ t.IsNew earlier s := by
        rw [hwritten s (List.mem_cons_self ..), Tables.IsNew, ← hseen]
        simp [hs]
      have hrest := ih hseenStep fun x hx => hwritten x (List.mem_cons_of_mem s hx)
      simp only [Statement.ids, List.map_cons, firstSeen, List.zip_cons_cons, Tables.newFlags, hs,
        not_false_eq_true, decide_true, Bool.true_and, hnew] at hrest ⊢
      rw [hrest]

/-- The statement that ends a chunk is the first without a flag. -/
theorem conflict?_eq_find? (mode : InsertMode) :
    t.conflict? mode earlier chunk =
      if mode = .strict then
        ((chunk.zip (t.newFlags earlier chunk)).find? (!·.2)).map (·.1.edge.id)
      else none := by
  induction chunk generalizing earlier with
  | nil => simp [Tables.conflict?]
  | cons s rest ih =>
    rw [Tables.conflict?, ih]
    by_cases hnew : t.IsNew earlier s <;> by_cases hmode : mode = .strict <;>
      simp [Tables.newFlags, hnew, hmode]

/-- What ties the insertion to the earlier statements, between two chunks: `t` are the tables at the
start, `u` those that have come of them. -/
structure Between (t : Tables) (earlier : List Statement) (seen : List String) (u : Tables) :
    Prop where
  encoding : u.encoding = .utf8
  seen : ∀ id, id ∈ seen ↔ id ∈ Statement.ids earlier
  stored : ∀ id, u.containsEdge id = true ↔
    id ∈ Statement.ids earlier ∨ t.containsEdge id = true

theorem Between.start (h : t.encoding = .utf8) : Between t [] [] t :=
  ⟨h, fun id => by simp [Statement.ids], fun id => by simp [Statement.ids]⟩

theorem Between.step (h : Between t earlier seen u) (chunk : List Statement) :
    Between t (earlier ++ chunk) (Statement.ids chunk ++ seen)
      (u.withEdges (chunk.map Statement.edge)) where
  encoding := (u.withEdges_frame _).1.trans h.encoding
  seen := by
    intro id
    simp [Statement.ids, h.seen, or_comm]
  stored := by
    intro id
    rw [Tables.containsEdge_withEdges h.encoding, h.stored]
    simp [Statement.ids, or_assoc, or_left_comm]

theorem run_addEdges (mode : InsertMode) (chunk : List Statement) (seen : List String) :
    (addEdges mode chunk).run seen =
      writeEdges ((firsts seen chunk).map Statement.edge) >>= fun written =>
        let fresh := ((Statement.ids chunk).zip (firstSeen seen (Statement.ids chunk))).map
          fun (id, first) => first && decide (id ∈ written)
        match mode, (chunk.zip fresh).find? (!·.2) with
        | .strict, some (s, _) => throw (.importConflict s.edge.id)
        | _, _ => return (fresh, Statement.ids chunk ++ seen) := by
  unfold addEdges firsts
  simp only [Statement.ids, StateT.run_bind, StateT.run_get, StateT.run_modify,
    StateT.run_monadLift, pure_bind, bind_assoc, List.map_map]
  congr 1
  funext written
  cases mode with
  | idempotent => rfl
  | strict =>
    generalize List.find? _ _ = old
    cases old <;> rfl

/-- **A chunk adds its edges and finds its new statements**, and ends the insertion if there is a
conflict. -/
theorem apply_addEdges (hedges : db.has .edges = true) (h : Between t earlier seen u)
    (mode : InsertMode) (chunk : List Statement) :
    ((addEdges mode chunk).run seen).apply (db.withTables u) =
      (match t.conflict? mode earlier chunk with
        | some id => .error (.importConflict id)
        | none => .ok (t.newFlags earlier chunk, Statement.ids chunk ++ seen),
        db.withTables (u.withEdges (chunk.map Statement.edge))) := by
  have hseen : ∀ id ∈ seen, u.containsEdge id = true := fun id hid =>
    (h.stored id).2 (.inl ((h.seen id).1 hid))
  obtain ⟨written, hrun, hmem⟩ := apply_writeEdges (u := u) hedges
    ((firsts seen chunk).map Statement.edge)
  -- The answer tells what was new to the database `u` that the chunks before have changed. For an
  -- id that comes first in this chunk that is the same as being new to `t`.
  have hwritten : ∀ s ∈ firsts seen chunk,
      s.edge.id ∈ written ↔ t.containsEdge s.edge.id = false := by
    intro s hs
    have hearlier : s.edge.id ∉ Statement.ids earlier := by
      rw [← h.seen]
      exact not_mem_of_mem_firsts hs
    have hid : s.edge.id ∈ ((firsts seen chunk).map Statement.edge).map (u.kept ·.id) :=
      List.mem_map.2 ⟨s.edge, List.mem_map_of_mem hs, Tables.kept_of_utf8 h.encoding _⟩
    rw [hmem, and_iff_right hid, ← Tables.containsEdge_of_utf8 h.encoding, ← Bool.not_eq_true,
      h.stored]
    simp [hearlier]
  rw [withEdges_firsts h.encoding hseen] at hrun
  have hflags := flags_eq_newFlags h.seen hwritten
  rw [run_addEdges, apply_bind_ok hrun]
  simp only [flags_eq_newFlags h.seen hwritten]
  rw [conflict?_eq_find?]
  cases mode with
  | idempotent => rfl
  | strict =>
    rw [if_pos rfl]
    generalize List.find? _ _ = old
    cases old <;> rfl

/-! ## All edges -/

/-- **Over all chunks, the edges are added and the new statements found**, unless there is a
conflict. -/
theorem apply_mapM_addEdges (hedges : db.has .edges = true) (chunks : List (List Statement))
    (h : Between t earlier seen u) (hnone : t.conflict? mode earlier chunks.flatten = none) :
    ∃ flags last, ((chunks.mapM (addEdges mode)).run seen).apply (db.withTables u) =
        (.ok (flags, last), db.withTables (u.withEdges (chunks.flatten.map Statement.edge))) ∧
      flags.flatten = t.newFlags earlier chunks.flatten := by
  -- On the chunks; `Between` carries what the chunks before have seen and stored.
  induction chunks generalizing earlier seen u with
  | nil => exact ⟨[], seen, rfl, rfl⟩
  | cons chunk chunks ih =>
    rw [List.flatten_cons, Tables.conflict?_append, Option.or_eq_none_iff] at hnone
    obtain ⟨hchunk, hrest⟩ := hnone
    have hrun := apply_addEdges hedges h mode chunk
    rw [hchunk] at hrun
    obtain ⟨flags, last, hruns, hflags⟩ := ih (h.step chunk) hrest
    refine ⟨t.newFlags earlier chunk :: flags, last, ?_, ?_⟩
    · rw [List.mapM_cons, StateT.run_bind, apply_bind_ok hrun, StateT.run_bind,
        apply_bind_ok hruns, List.flatten_cons, List.map_append, Tables.withEdges_append]
      rfl
    · rw [List.flatten_cons, hflags, List.flatten_cons, Tables.newFlags_append]

theorem apply_mapM_addEdges_conflict (hedges : db.has .edges = true)
    (chunks : List (List Statement)) (h : Between t earlier seen u) {id : String}
    (hconflict : t.conflict? mode earlier chunks.flatten = some id) :
    ∃ changed, ((chunks.mapM (addEdges mode)).run seen).apply (db.withTables u) =
      (.error (.importConflict id), changed) := by
  induction chunks generalizing earlier seen u with
  | nil => cases hconflict
  | cons chunk chunks ih =>
    have hrun := apply_addEdges hedges h mode chunk
    rw [List.mapM_cons, StateT.run_bind]
    rw [List.flatten_cons, Tables.conflict?_append] at hconflict
    cases hchunk : t.conflict? mode earlier chunk with
    | some first =>
      rw [hchunk] at hrun hconflict
      cases hconflict
      exact ⟨_, apply_bind_error hrun⟩
    | none =>
      rw [hchunk, Option.none_or] at hconflict
      rw [hchunk] at hrun
      obtain ⟨changed, hruns⟩ := ih (h.step chunk) hconflict
      rw [apply_bind_ok hrun, StateT.run_bind]
      exact ⟨changed, apply_bind_error hruns⟩

theorem run'_execute {α : Type} (config : BatchConfig)
    (operation : List α → StateT (List String) Update (List Bool)) (items : List α)
    (seen : List String) :
    (config.execute operation items).run' seen =
      (·.1.flatten) <$> ((config.chunks items).mapM operation).run seen := by
  simp [BatchConfig.execute]

theorem apply_edges (hedges : db.has .edges = true) (h : t.encoding = .utf8)
    (config : BatchConfig) (hnone : t.conflict? mode [] statements = none) :
    ((config.execute (addEdges mode) statements).run' []).apply (db.withTables t) =
      (.ok (t.newFlags [] statements),
        db.withTables (t.withEdges (statements.map Statement.edge))) := by
  rw [← config.flatten_chunks statements] at hnone
  obtain ⟨flags, last, hrun, hflags⟩ := apply_mapM_addEdges hedges _ (.start h) hnone
  rw [config.flatten_chunks] at hrun hflags
  rw [run'_execute, ← hflags]
  exact apply_map_ok _ hrun

theorem apply_edges_conflict (hedges : db.has .edges = true) (h : t.encoding = .utf8)
    (config : BatchConfig) {id : String} (hconflict : t.conflict? mode [] statements = some id) :
    ∃ changed, ((config.execute (addEdges mode) statements).run' []).apply (db.withTables t) =
      (.error (.importConflict id), changed) := by
  rw [← config.flatten_chunks statements] at hconflict
  obtain ⟨changed, hrun⟩ := apply_mapM_addEdges_conflict hedges _ (.start h) hconflict
  rw [run'_execute]
  exact ⟨changed, apply_map_error _ hrun⟩

/-! ## Values -/

/-- The value of the statement can be stored. -/
def Storable (s : Statement) : Prop := (StoredValue.ofValue? s.value).isSome = true

theorem apply_addValue_of_has {s : Statement} (hhas : db.has (.values s.value.kind) = true)
    (hstorable : Storable s) :
    (addValue s.edge.id s.value).apply (db.withTables u) =
      (.ok (!u.containsValue s.value.kind s.edge.id), db.withTables (u.withValue s)) := by
  have hread : (read (·.require (.values s.value.kind))).apply (db.withTables u) =
      (.ok (), db.withTables u) := apply_require hhas
  obtain ⟨stored, hstored⟩ := Option.isSome_iff_exists.1 hstorable
  rw [addValue, apply_bind_ok hread, Tables.withValue, Statement.row?, hstored]
  rfl

theorem apply_addValue {s : Statement} (hcomplete : db.Complete) (h : u.encoding = .utf8)
    (hstorable : Storable s) (hnew : (u.values s.value.kind).contains s.edge.id = false) :
    (addValue s.edge.id s.value).apply (db.withTables u) =
      (.ok true, db.withTables (u.withValue s)) := by
  have hcontains : u.containsValue s.value.kind s.edge.id = false := by
    rwa [Tables.containsValue, Tables.kept_of_utf8 h]
  rw [apply_addValue_of_has (hcomplete _) hstorable, hcontains]
  rfl

theorem storable_of_apply_addValue {s : Statement} {b : Bool} {before after : Database}
    (h : (addValue s.edge.id s.value).apply before = (.ok b, after)) : Storable s := by
  obtain ⟨_, middle, -, hrest⟩ := of_apply_bind_ok h
  unfold Storable
  split at hrest
  · cases hrest
  next stored hstored => rw [hstored, Option.isSome_some]

theorem apply_mapM_addValue (hcomplete : db.Complete) (h : u.encoding = .utf8)
    (hfits : u.Fits statements) (hstorable : ∀ s ∈ statements, Storable s) :
    (statements.mapM fun s => addValue s.edge.id s.value).apply (db.withTables u) =
      (.ok (List.replicate statements.length true),
        db.withTables (u.withValues statements)) := by
  induction statements generalizing u with
  | nil => rfl
  | cons s rest ih =>
    have hfirst := apply_addValue hcomplete h (hstorable s (List.mem_cons_self ..))
      (hfits.new s (List.mem_cons_self ..))
    have hrest := ih ((u.withValue_frame s).1.trans h) (hfits.tail h) fun x hx =>
      hstorable x (List.mem_cons_of_mem s hx)
    rw [List.mapM_cons, apply_bind_ok hfirst, apply_bind_ok hrest, apply_pure]
    rfl

/-- The values of a kind are added one after the other, whatever the chunks, and the new ones are
counted. -/
theorem addValues_eq (config : BatchConfig) (kind : ValueKind) (statements : List Statement) :
    addValues config kind statements =
      List.count true <$> (statements.filter (·.value.kind = kind)).mapM fun s =>
        addValue s.edge.id s.value := by
  unfold addValues
  by_cases hempty : (statements.filter (·.value.kind = kind)).isEmpty
  · rw [if_pos hempty, List.isEmpty_iff.1 hempty]
    simp
  · rw [if_neg hempty, BatchConfig.execute_mapM, map_eq_pure_bind]

theorem apply_addValues (hcomplete : db.Complete) (h : u.encoding = .utf8) (config : BatchConfig)
    (kind : ValueKind) (hfits : u.Fits (statements.filter (·.value.kind = kind)))
    (hstorable : ∀ s ∈ statements, Storable s) :
    (addValues config kind statements).apply (db.withTables u) =
      (.ok (statements.filter (·.value.kind = kind)).length,
        db.withTables (u.withValues (statements.filter (·.value.kind = kind)))) := by
  have hrun := apply_mapM_addValue hcomplete h hfits fun s hs =>
    hstorable s (List.mem_of_mem_filter hs)
  rw [addValues_eq, apply_map_ok _ hrun, List.count_replicate_self]

/-- **The values are added kind after kind.** -/
theorem apply_mapM_addValues (hcomplete : db.Complete) (h : u.encoding = .utf8)
    (config : BatchConfig) (kinds : List ValueKind)
    (hfits : u.Fits (kinds.flatMap fun kind => statements.filter (·.value.kind = kind)))
    (hstorable : ∀ s ∈ statements, Storable s) :
    (kinds.mapM fun kind => addValues config kind statements).apply (db.withTables u) =
      (.ok (kinds.map fun kind => (statements.filter (·.value.kind = kind)).length),
        db.withTables (u.withValues
          (kinds.flatMap fun kind => statements.filter (·.value.kind = kind)))) := by
  -- On the kinds. The values of a kind leave the tables of the others as they are, so the rest
  -- still fits.
  induction kinds generalizing u with
  | nil => rfl
  | cons kind kinds ih =>
    rw [List.flatMap_cons] at hfits
    obtain ⟨hfirst, hrest⟩ := hfits.append h
    have hrun := apply_addValues hcomplete h config kind hfirst hstorable
    have hruns := ih ((u.withValues_frame _).1.trans h) hrest
    rw [List.mapM_cons, apply_bind_ok hrun, apply_bind_ok hruns, apply_pure, List.flatMap_cons,
      Tables.withValues_append]
    rfl

theorem mem_group {s : Statement} (hs : s ∈ statements) :
    s ∈ statements.filter (·.value.kind = s.value.kind) :=
  List.mem_filter.2 ⟨hs, decide_eq_true rfl⟩

theorem of_apply_addValues_ok {kind : ValueKind} {count : Nat} {changed : Database}
    (h : (addValues config kind statements).apply db = (.ok count, changed)) :
    ∃ flags, ((statements.filter (·.value.kind = kind)).mapM
      fun s => addValue s.edge.id s.value).apply db = (.ok flags, changed) := by
  rw [addValues_eq] at h
  obtain ⟨flags, hadded, -⟩ := of_apply_map_ok h
  exact ⟨flags, hadded⟩

theorem storable_of_apply_addValues {kinds : List ValueKind} {counts : List Nat}
    {before after : Database}
    (h : (kinds.mapM fun kind => addValues config kind statements).apply before =
      (.ok counts, after)) {s : Statement} (hs : s ∈ statements) (hkind : s.value.kind ∈ kinds) :
    Storable s := by
  obtain ⟨count, before, after, hrun⟩ := of_apply_mapM_ok h _ hkind
  obtain ⟨flags, hrun⟩ := of_apply_addValues_ok hrun
  obtain ⟨b, before, after, hrun⟩ := of_apply_mapM_ok hrun s (mem_group hs)
  exact storable_of_apply_addValue hrun

/-! ## Insertion -/

/-- **An insertion adds the new statements.** -/
theorem apply_insert (hcomplete : db.Complete) (h : t.encoding = .utf8) (hsound : t.Sound)
    (config : BatchConfig) (hnone : t.conflict? mode [] statements = none)
    (hstorable : ∀ s ∈ t.news statements, Storable s) :
    (insert config mode statements).apply (db.withTables t) =
      (.ok ⟨(t.news statements).length, statements.length - (t.news statements).length,
        (t.news statements).length⟩, db.withTables (t.withNews statements)) := by
  have hedges := apply_edges (hcomplete .edges) h (config.perStatement edgeWidth) hnone
  have hvalues := apply_mapM_addValues hcomplete ((t.withEdges_frame _).1.trans h) config
    ValueKind.all (Tables.fits_news hsound h (statements.map Statement.edge)) hstorable
  rw [insert, apply_bind_ok hedges]
  simp only [Tables.filter_newFlags]
  rw [show t.newsAfter [] statements = t.news statements from rfl, apply_bind_ok hvalues,
    apply_pure, Tables.sum_length_byKind, Tables.count_newFlags]
  have hcount := List.count_true_add_count_false (t.newFlags [] statements)
  rw [Tables.length_newFlags, Tables.count_newFlags] at hcount
  have hskipped : (t.newFlags [] statements).count false =
      statements.length - (t.news statements).length := by
    rw [← hcount]
    exact (Nat.add_sub_cancel_left ..).symm
  rw [hskipped]
  rfl

/-- A conflict ends the insertion. -/
theorem apply_insert_conflict (hcomplete : db.Complete) (h : t.encoding = .utf8)
    (config : BatchConfig) {id : String} (hconflict : t.conflict? mode [] statements = some id) :
    ∃ changed, (insert config mode statements).apply (db.withTables t) =
      (.error (.importConflict id), changed) := by
  obtain ⟨changed, hedges⟩ :=
    apply_edges_conflict (hcomplete .edges) h (config.perStatement edgeWidth) hconflict
  exact ⟨changed, by rw [insert, apply_bind_error hedges]⟩

/-- An insertion that succeeds had no conflict, and stored the values of its new statements. -/
theorem of_apply_insert_ok (hcomplete : db.Complete) (h : t.encoding = .utf8)
    {stats : ImportStats} {changed : Database}
    (hrun : (insert config mode statements).apply (db.withTables t) = (.ok stats, changed)) :
    t.conflict? mode [] statements = none ∧ ∀ s ∈ t.news statements, Storable s := by
  cases hconflict : t.conflict? mode [] statements with
  | some id =>
    obtain ⟨_, herror⟩ := apply_insert_conflict hcomplete h config hconflict
    rw [herror] at hrun
    cases hrun
  | none =>
    refine ⟨rfl, ?_⟩
    intro s hs
    rw [insert, apply_bind_ok (apply_edges (hcomplete .edges) h _ hconflict)] at hrun
    simp only [Tables.filter_newFlags] at hrun
    obtain ⟨counts, after, hvalues, -⟩ := of_apply_bind_ok hrun
    have hkind : s.value.kind ∈ ValueKind.all := by cases s.value.kind <;> decide
    exact storable_of_apply_addValues hvalues hs hkind

end Update

end FactGraph
