import FactGraph.Proofs.Store.Reachable
import FactGraph.Proofs.Store.Value
import FactGraph.Proofs.Text.Encoding

/-!
# Insertion in any order

Statements are **apart** (`Statement.Apart`) if their ids differ however they are written. Then an
insertion that skips what is stored treats each of them for itself: it is taken if no edge of its id
is stored and its id is written as it is (`Tables.takes`), whatever comes before it and wherever the
chunks end (`Update.apply_insert_apart`). Rows with different keys can be put into a table in any
order, so **insertions of the same statements in another order are the same change**, for any
database and any encoding, also if tables are missing (`Update.insert_of_rearranged`). An insertion
of statements whose edges are stored changes nothing (`Update.apply_insert_again`).
-/

namespace FactGraph

/-! ## Tables -/

namespace Table

variable {α : Type} {key : α → String} {t : Table α key} {row x a b : α}

theorem mem_insert : x ∈ (t.insert row).rows ↔
    x ∈ t.rows ∨ x = row ∧ t.contains (key row) = false := by
  cases h : t.contains (key row) with
  | true => simp [insert_of_contains h]
  | false => simp [mem_insert_of_new h, or_comm]

/-- **Rows with different keys are inserted in any order.** -/
theorem insert_comm (t : Table α key) (h : key a ≠ key b) :
    (t.insert a).insert b = (t.insert b).insert a := by
  refine eq_of_mem_iff fun x => ?_
  have hb : (t.insert a).contains (key b) = t.contains (key b) := by
    rw [Bool.eq_iff_iff, contains_insert, or_iff_right h.symm]
  have ha : (t.insert b).contains (key a) = t.contains (key a) := by
    rw [Bool.eq_iff_iff, contains_insert, or_iff_right h]
  rw [mem_insert, mem_insert, mem_insert, mem_insert, hb, ha]
  exact or_right_comm

end Table

namespace Statement

/-- The ids of the statements differ, also after they have been written in any encoding. -/
def Apart (statements : List Statement) : Prop :=
  ∀ encoding : TextEncoding, (statements.map fun s => encoding.kept s.edge.id).Nodup

variable {statements others : List Statement} {s x y : Statement}

theorem Apart.sublist (h : Apart statements) (hsub : others.Sublist statements) : Apart others :=
  fun encoding => (h encoding).sublist (hsub.map _)

theorem Apart.unsignedZeros (h : Apart statements) : Apart (statements.map unsignedZeros) := by
  intro encoding
  rw [List.map_map]
  exact h encoding

theorem Apart.kept_ne (h : Apart statements) (t : Tables) (hx : x ∈ statements)
    (hy : y ∈ statements) (hne : x ≠ y) : t.kept x.edge.id ≠ t.kept y.edge.id :=
  fun heq => hne (List.inj_on_of_nodup_map (h t.encoding) hx hy heq)

theorem Apart.kept_ne_of_mem (h : Apart (s :: others)) (t : Tables) (hx : x ∈ others) :
    t.kept x.edge.id ≠ t.kept s.edge.id := by
  intro heq
  exact (List.nodup_cons.1 (h t.encoding)).1 (List.mem_map.2 ⟨x, hx, heq⟩)

theorem Apart.edges (h : Apart statements) (encoding : TextEncoding) :
    ((statements.map edge).map fun e => encoding.kept e.id).Nodup := by
  rw [List.map_map]
  exact h encoding

theorem Apart.nodup_ids (h : Apart statements) : (ids statements).Nodup := h .utf8

/-! ## Rearranged statements -/

variable {p : Statement → Bool}

theorem Rearranged.length_eq (h : Rearranged statements others) :
    statements.length = others.length := by
  simpa using List.Perm.length_eq h

theorem Rearranged.edges (h : Rearranged statements others) :
    (statements.map edge).Perm (others.map edge) := by
  simpa [Function.comp_def, Statement.unsignedZeros] using List.Perm.map edge h

theorem Rearranged.filter (hp : ∀ s, p s.unsignedZeros = p s) (h : Rearranged statements others) :
    Rearranged (statements.filter p) (others.filter p) := by
  have hfilter := List.Perm.filter p h
  have hsame : p ∘ Statement.unsignedZeros = p := funext hp
  rwa [List.filter_map, List.filter_map, hsame] at hfilter

theorem Rearranged.countP_eq (hp : ∀ s, p s.unsignedZeros = p s)
    (h : Rearranged statements others) : statements.countP p = others.countP p := by
  rw [List.countP_eq_length_filter, List.countP_eq_length_filter, (h.filter hp).length_eq]

theorem Rearranged.apart (h : Rearranged statements others) (hapart : Apart statements) :
    Apart others := by
  intro encoding
  have hids := (h.edges.map fun e => encoding.kept e.id).nodup_iff
  rw [List.map_map, List.map_map] at hids
  exact hids.1 (hapart encoding)

end Statement

namespace Tables

open Statement (Apart)

variable {t : Tables} {s x y : Statement} {statements others : List Statement}

/-- An insertion that skips what is stored takes the statement: no edge of its id is stored, and its
id is written as it is. -/
def takes (t : Tables) (s : Statement) : Bool :=
  !t.containsEdge s.edge.id && t.kept s.edge.id = s.edge.id

/-! ## Edges -/

theorem addEdge_comm (t : Tables) {d e : Edge} (h : t.kept d.id ≠ t.kept e.id) :
    (t.addEdge d).addEdge e = (t.addEdge e).addEdge d := by
  have hrows : (t.edges.insert (t.keptEdge d)).insert (t.keptEdge e) =
      (t.edges.insert (t.keptEdge e)).insert (t.keptEdge d) := Table.insert_comm t.edges h
  show { t with edges := (t.edges.insert (t.keptEdge d)).insert (t.keptEdge e) } =
    { t with edges := (t.edges.insert (t.keptEdge e)).insert (t.keptEdge d) }
  rw [hrows]

theorem withEdges_perm (t : Tables) {edges edges' : List Edge}
    (hapart : ∀ encoding : TextEncoding, (edges.map fun e => encoding.kept e.id).Nodup)
    (h : edges.Perm edges') : t.withEdges edges = t.withEdges edges' := by
  refine h.foldl_eq' ?_ t
  intro d hd e he u
  by_cases hde : d = e
  · rw [hde]
  · exact u.addEdge_comm fun heq => hde (List.inj_on_of_nodup_map (hapart u.encoding) hd he heq)

@[simp] theorem kept_withEdges (t : Tables) (edges : List Edge) (text : String) :
    (t.withEdges edges).kept text = t.kept text := by
  rw [kept, (t.withEdges_frame edges).1, kept]

theorem contains_withEdges {edges : List Edge} {k : String} :
    (t.withEdges edges).edges.contains k = true ↔
      k ∈ edges.map (t.kept ·.id) ∨ t.edges.contains k = true := by
  induction edges generalizing t with
  | nil => simp
  | cons e edges ih =>
    rw [withEdges_cons, ih, contains_addEdge, List.map_cons, List.mem_cons, or_left_comm, or_assoc]
    simp

theorem containsEdge_withEdges_of_mem (hs : s ∈ statements) :
    (t.withEdges (statements.map Statement.edge)).containsEdge s.edge.id = true := by
  rw [containsEdge, kept_withEdges, contains_withEdges]
  exact .inl (List.mem_map.2 ⟨s.edge, List.mem_map_of_mem hs, rfl⟩)

theorem withEdges_of_contains (h : ∀ s ∈ statements, t.containsEdge s.edge.id = true) :
    t.withEdges (statements.map Statement.edge) = t := by
  induction statements with
  | nil => rfl
  | cons s rest ih =>
    obtain ⟨hs, hrest⟩ := List.forall_mem_cons.1 h
    rw [List.map_cons, withEdges_cons, addEdge_of_contains hs, ih hrest]

/-- Whether a statement is taken does not depend on others that are apart from it. -/
theorem takes_withEdges (hx : ∀ s ∈ statements, t.kept x.edge.id ≠ t.kept s.edge.id) :
    (t.withEdges (statements.map Statement.edge)).takes x = t.takes x := by
  have hnone : t.kept x.edge.id ∉ (statements.map Statement.edge).map (t.kept ·.id) := by
    rw [List.map_map]
    intro hmem
    obtain ⟨s, hs, heq⟩ := List.mem_map.1 hmem
    exact hx s hs heq.symm
  have hcontains : (t.withEdges (statements.map Statement.edge)).containsEdge x.edge.id =
      t.containsEdge x.edge.id := by
    rw [Bool.eq_iff_iff, containsEdge, kept_withEdges, contains_withEdges, or_iff_right hnone,
      containsEdge]
  rw [takes, takes, hcontains, kept_withEdges]

theorem mem_withEdges_of_mem {e : Edge} {edges : List Edge} (he : e ∈ t.edges.rows) :
    e ∈ (t.withEdges edges).edges.rows := by
  induction edges generalizing t with
  | nil => exact he
  | cons d edges ih => exact ih (t := t.addEdge d) (Table.mem_insert.2 (.inl he))

/-- An edge whose id is not stored is added, if the statements are apart. -/
theorem mem_withEdges_of_apart (hapart : Apart statements) (hs : s ∈ statements)
    (hnew : t.containsEdge s.edge.id = false) :
    t.keptEdge s.edge ∈ (t.withEdges (statements.map Statement.edge)).edges.rows := by
  obtain ⟨front, back, rfl⟩ := List.append_of_mem hs
  rw [t.withEdges_perm hapart.edges (List.perm_middle.map Statement.edge)]
  exact mem_withEdges_of_mem (t := t.addEdge s.edge) (Table.mem_insert.2 (.inr ⟨rfl, hnew⟩))

/-! ## Values -/

theorem addValue_comm (t : Tables) {kind other : ValueKind} {row : ValueRow kind}
    {row' : ValueRow other} (h : t.kept row.edgeId ≠ t.kept row'.edgeId) :
    (t.addValue row).addValue row' = (t.addValue row').addValue row := by
  by_cases hkind : kind = other
  · subst hkind
    have hrows := Table.insert_comm (t.values kind)
      (a := ⟨t.kept row.edgeId, row.stored.kept t.encoding⟩)
      (b := ⟨t.kept row'.edgeId, row'.stored.kept t.encoding⟩) h
    cases kind <;> simp only [addValue, setValues, values, kept] at hrows ⊢ <;> rw [hrows]
  · cases kind <;> cases other <;> first | exact absurd rfl hkind | rfl

theorem withValue_comm (t : Tables) (h : t.kept x.edge.id ≠ t.kept y.edge.id) :
    (t.withValue x).withValue y = (t.withValue y).withValue x := by
  unfold withValue
  cases hx : x.row? with
  | none => rfl
  | some rowX =>
    cases hy : y.row? with
    | none => rfl
    | some rowY =>
      obtain ⟨kind, row⟩ := rowX
      obtain ⟨other, row'⟩ := rowY
      refine t.addValue_comm ?_
      rwa [(Statement.of_row?_eq_some hx).2, (Statement.of_row?_eq_some hy).2]

/-- Values are added in any order, and the signs of zeros do not matter. -/
theorem withValues_of_rearranged (t : Tables) (hapart : Apart statements)
    (h : Statement.Rearranged statements others) :
    t.withValues statements = t.withValues others := by
  have hzeros (xs : List Statement) (u : Tables) :
      (xs.map Statement.unsignedZeros).foldl withValue u = u.withValues xs := by
    have hstep (u : Tables) (s : Statement) : u.withValue s.unsignedZeros = u.withValue s := by
      rw [withValue, Statement.unsignedZeros, Statement.row?_unsignedZeros, withValue]
    rw [List.foldl_map]
    simp only [hstep]
    rfl
  rw [← hzeros statements, ← hzeros others]
  -- The lists need not be permutations of each other: only without the signs of zeros are they, and
  -- the signs are dropped by the columns anyway.
  refine List.Perm.foldl_eq' h ?_ t
  intro x hx y hy u
  by_cases hxy : x = y
  · rw [hxy]
  · exact u.withValue_comm (hapart.unsignedZeros.kept_ne u hx hy hxy)

theorem containsValue_withValue {kind : ValueKind} {id : String}
    (hne : t.kept id ≠ t.kept s.edge.id) :
    (t.withValue s).containsValue kind id = t.containsValue kind id := by
  have hkept : (t.withValue s).kept id = t.kept id := by
    rw [kept, (t.withValue_frame s).1, kept]
  rw [containsValue, hkept, containsValue, withValue]
  split
  next rowKind row hrow =>
    obtain ⟨rfl, hid⟩ := Statement.of_row?_eq_some hrow
    -- A row of another kind goes to another table, and one of this kind has another key.
    by_cases hkind : s.value.kind = kind
    · subst hkind
      rw [addValue, values_setValues, Bool.eq_iff_iff, Table.contains_insert, or_iff_right]
      rwa [hid]
    · rw [addValue, values_setValues_of_ne t hkind]
  next => rfl

end Tables

namespace Update

open Statement (Apart)

variable {db : Database} {t u : Tables} {config : BatchConfig} {kind : ValueKind}
  {statements others chunk : List Statement} {seen : List String}

theorem map_fst_filter_zip (p : Statement → Bool) (statements : List Statement) :
    ((statements.zip (statements.map p)).filter (·.2)).map (·.1) = statements.filter p := by
  have hzip : statements.zip (statements.map p) = statements.map fun s => (s, p s) := by
    simpa using List.zip_map' (f := id) (g := p) (l := statements)
  simp [hzip, List.filter_map, Function.comp_def]

theorem ext {α : Type} {u v : Update α} (h : ∀ db, u.apply db = v.apply db) : u = v := funext h

/-! ## Edges -/

theorem firstSeen_ids (hids : (Statement.ids chunk).Nodup)
    (hseen : ∀ id ∈ Statement.ids chunk, id ∉ seen) :
    firstSeen seen (Statement.ids chunk) = chunk.map fun _ => true := by
  induction chunk generalizing seen with
  | nil => rfl
  | cons s rest ih =>
    obtain ⟨hs, hids⟩ := List.nodup_cons.1 hids
    obtain ⟨hfirst, hrest⟩ := List.forall_mem_cons.1 hseen
    have hothers : ∀ id ∈ Statement.ids rest, id ∉ s.edge.id :: seen := by
      intro id hid hmem
      rcases List.mem_cons.1 hmem with rfl | hmem
      · exact hs hid
      · exact hrest id hid hmem
    show (decide (s.edge.id ∉ seen)) :: firstSeen (s.edge.id :: seen) (Statement.ids rest) = _
    rw [ih hids hothers, List.map_cons, decide_eq_true hfirst]

theorem mem_written_iff {written : List String} {s : Statement} (hs : s ∈ chunk)
    (hwritten : ∀ id, id ∈ written ↔
      id ∈ (chunk.map Statement.edge).map (u.kept ·.id) ∧ u.edges.contains id = false) :
    s.edge.id ∈ written ↔ u.takes s = true := by
  rw [hwritten, Tables.takes, Bool.and_eq_true, Bool.not_eq_true', decide_eq_true_iff]
  constructor
  · rintro ⟨hid, hnew⟩
    obtain ⟨e, -, heq⟩ := List.mem_map.1 hid
    have hsame : u.kept s.edge.id = s.edge.id := by
      rw [← heq]
      exact u.encoding.kept_kept e.id
    exact ⟨by rw [Tables.containsEdge, hsame]; exact hnew, hsame⟩
  · rintro ⟨hnew, hsame⟩
    refine ⟨List.mem_map.2 ⟨s.edge, List.mem_map_of_mem hs, hsame⟩, ?_⟩
    rwa [Tables.containsEdge, hsame] at hnew

/-- **A chunk takes its statements each for itself**, if their ids come for the first time. -/
theorem apply_addEdges_first (hedges : db.has .edges = true) (hids : (Statement.ids chunk).Nodup)
    (hseen : ∀ id ∈ Statement.ids chunk, id ∉ seen) :
    ((addEdges .idempotent chunk).run seen).apply (db.withTables u) =
      (.ok (chunk.map u.takes, Statement.ids chunk ++ seen),
        db.withTables (u.withEdges (chunk.map Statement.edge))) := by
  have hfirst := firstSeen_ids hids hseen
  have hfirsts : firsts seen chunk = chunk := by
    rw [firsts, hfirst, map_fst_filter_zip, List.filter_true]
  obtain ⟨written, hrun, hwritten⟩ := apply_writeEdges (u := u) hedges (chunk.map Statement.edge)
  have hflags : ((Statement.ids chunk).zip (firstSeen seen (Statement.ids chunk))).map
      (fun entry => entry.2 && decide (entry.1 ∈ written)) = chunk.map u.takes := by
    rw [hfirst, Statement.ids, List.zip_map', List.map_map]
    refine List.map_congr_left fun s hs => ?_
    show (true && decide (s.edge.id ∈ written)) = u.takes s
    rw [Bool.true_and, Bool.eq_iff_iff, decide_eq_true_iff]
    exact mem_written_iff hs hwritten
  rw [run_addEdges, hfirsts, apply_bind_ok hrun, ← hflags]
  rfl

/-- Over all chunks, each statement is taken for itself. -/
theorem apply_mapM_addEdges_apart (hedges : db.has .edges = true) (chunks : List (List Statement))
    (hapart : Apart chunks.flatten) (hseen : ∀ id ∈ Statement.ids chunks.flatten, id ∉ seen) :
    ∃ flags last, ((chunks.mapM (addEdges .idempotent)).run seen).apply (db.withTables u) =
        (.ok (flags, last), db.withTables (u.withEdges (chunks.flatten.map Statement.edge))) ∧
      flags.flatten = chunks.flatten.map u.takes := by
  induction chunks generalizing seen u with
  | nil => exact ⟨[], seen, rfl, rfl⟩
  | cons chunk chunks ih =>
    rw [List.flatten_cons] at hapart hseen
    have hids := hapart.nodup_ids
    rw [Statement.ids, List.map_append, List.nodup_append] at hids
    obtain ⟨hchunk, hrest, hdisjoint⟩ := hids
    rw [Statement.ids, List.map_append, List.forall_mem_append] at hseen
    have hlater : ∀ id ∈ Statement.ids chunks.flatten, id ∉ Statement.ids chunk ++ seen := by
      intro id hid hmem
      rcases List.mem_append.1 hmem with hmem | hmem
      · exact hdisjoint id hmem id hid rfl
      · exact hseen.2 id hid hmem
    obtain ⟨flags, last, hrun, hflags⟩ := ih (u := u.withEdges (chunk.map Statement.edge))
      (hapart.sublist (List.sublist_append_right ..)) hlater
    refine ⟨chunk.map u.takes :: flags, last, ?_, ?_⟩
    · rw [List.mapM_cons, StateT.run_bind,
        apply_bind_ok (apply_addEdges_first hedges hchunk hseen.1), StateT.run_bind,
        apply_bind_ok hrun, List.flatten_cons, List.map_append, Tables.withEdges_append]
      rfl
    · rw [List.flatten_cons, hflags, List.flatten_cons, List.map_append]
      refine congrArg _ (List.map_congr_left fun x hx => Tables.takes_withEdges fun s hs => ?_)
      have hpairs := List.pairwise_append.1 (List.pairwise_map.1 (hapart u.encoding))
      exact (hpairs.2.2 s hs x hx).symm

/-- **The edges of an insertion**, if the table of edges can be used. -/
theorem apply_edges_apart (config : BatchConfig) (hedges : db.has .edges = true)
    (hapart : Apart statements) :
    ((config.execute (addEdges .idempotent) statements).run' []).apply (db.withTables t) =
      (.ok (statements.map t.takes),
        db.withTables (t.withEdges (statements.map Statement.edge))) := by
  rw [← config.flatten_chunks statements] at hapart
  have hnone : ∀ id ∈ Statement.ids ((config.chunks statements).flatten), id ∉ ([] : List String) :=
    fun _ _ => List.not_mem_nil
  obtain ⟨flags, last, hrun, hflags⟩ :=
    apply_mapM_addEdges_apart (u := t) hedges _ hapart hnone
  rw [config.flatten_chunks] at hrun hflags
  rw [run'_execute, ← hflags]
  exact apply_map_ok _ hrun

theorem apply_mapM_addEdges_of_not_has (hedges : db.has .edges = false)
    {chunks : List (List Statement)} (hne : chunks.flatten ≠ []) :
    ((chunks.mapM (addEdges .idempotent)).run []).apply db = (.error .query, db) := by
  induction chunks with
  | nil => exact absurd rfl hne
  | cons chunk chunks ih =>
    rw [List.mapM_cons, StateT.run_bind]
    cases chunk with
    | nil =>
      have hrun : ((addEdges .idempotent []).run []).apply db = (.ok ([], []), db) := rfl
      rw [apply_bind_ok hrun, StateT.run_bind, apply_bind_error (ih hne)]
    | cons s rest =>
      have hwrite : (writeEdges ((firsts [] (s :: rest)).map Statement.edge)).apply db =
          (.error .query, db) := by
        rw [firsts_cons, if_neg List.not_mem_nil, List.map_cons, writeEdges,
          if_neg (by simp), apply_bind_error (apply_require_of_missing hedges)]
      rw [run_addEdges]
      exact apply_bind_error (apply_bind_error hwrite)

/-! ## Values -/

theorem storable_of_rearranged (h : Statement.Rearranged statements others)
    (hstorable : ∀ s ∈ statements, Storable s) : ∀ s ∈ others, Storable s := by
  have hrow (s : Statement) : Storable s ↔ s.row?.isSome = true := by
    rw [Storable, Statement.row?, Option.isSome_map]
  have hzeros (s : Statement) : Storable s.unsignedZeros ↔ Storable s := by
    rw [hrow, hrow, Statement.unsignedZeros, Statement.row?_unsignedZeros]
  intro s hs
  obtain ⟨x, hx, heq⟩ := List.mem_map.1 ((List.Perm.mem_iff h).2 (List.mem_map_of_mem hs))
  rw [← hzeros, ← heq, hzeros]
  exact hstorable x hx

/-- **The values of a kind are added each for itself**, if their table can be used. -/
theorem apply_mapM_addValue_apart (hhas : db.has (.values kind) = true)
    (hkind : ∀ s ∈ statements, s.value.kind = kind) (hapart : Apart statements)
    (hstorable : ∀ s ∈ statements, Storable s) :
    (statements.mapM fun s => addValue s.edge.id s.value).apply (db.withTables u) =
      (.ok (statements.map fun s => !u.containsValue kind s.edge.id),
        db.withTables (u.withValues statements)) := by
  induction statements generalizing u with
  | nil => rfl
  | cons s rest ih =>
    obtain ⟨rfl, hkinds⟩ := List.forall_mem_cons.1 hkind
    obtain ⟨hs, hrest⟩ := List.forall_mem_cons.1 hstorable
    have hlater := ih (u := u.withValue s) hkinds (hapart.sublist (List.sublist_cons_self ..)) hrest
    have hsame : rest.map (fun x => !(u.withValue s).containsValue s.value.kind x.edge.id) =
        rest.map fun x => !u.containsValue s.value.kind x.edge.id := by
      refine List.map_congr_left fun x hx => ?_
      rw [Tables.containsValue_withValue (hapart.kept_ne_of_mem u hx)]
    rw [hsame] at hlater
    rw [List.mapM_cons, apply_bind_ok (apply_addValue_of_has hhas hs), apply_bind_ok hlater]
    rfl

theorem apply_addValues_apart (config : BatchConfig) (hhas : db.has (.values kind) = true)
    (hapart : Apart statements) (hstorable : ∀ s ∈ statements, Storable s) :
    (addValues config kind statements).apply (db.withTables u) =
      (.ok ((statements.filter (·.value.kind = kind)).countP
          fun s => !u.containsValue kind s.edge.id),
        db.withTables (u.withValues (statements.filter (·.value.kind = kind)))) := by
  have hrun := apply_mapM_addValue_apart (u := u) hhas
    (fun s hs => of_decide_eq_true (List.mem_filter.1 hs).2)
    (hapart.sublist List.filter_sublist) fun s hs => hstorable s (List.mem_of_mem_filter hs)
  rw [addValues_eq, apply_map_ok _ hrun]
  simp [List.count, List.countP_map, Function.comp_def]

theorem apply_addValues_of_not_has (config : BatchConfig) (hhas : db.has (.values kind) = false) :
    (addValues config kind statements).apply db =
      (if (statements.filter (·.value.kind = kind)).isEmpty then .ok 0 else .error .query, db) := by
  rw [addValues_eq]
  cases hgroup : statements.filter (·.value.kind = kind) with
  | nil => rfl
  | cons s rest =>
    have hmem : s ∈ statements.filter (·.value.kind = kind) := hgroup ▸ List.mem_cons_self
    have hs : s.value.kind = kind := of_decide_eq_true (List.mem_filter.1 hmem).2
    have hread : (read (·.require (.values s.value.kind))).apply db = (.error .query, db) :=
      apply_require_of_missing (hs ▸ hhas)
    rw [List.mapM_cons]
    exact apply_map_error _ (apply_bind_error (apply_bind_error hread))

/-- **The values of statements are added in any order**, and the signs of zeros do not matter. -/
theorem addValues_of_rearranged (config : BatchConfig) (kind : ValueKind)
    (hapart : Apart statements) (hstorable : ∀ s ∈ statements, Storable s)
    (h : Statement.Rearranged statements others) :
    addValues config kind statements = addValues config kind others := by
  have hkind : ∀ s : Statement, decide (s.unsignedZeros.value.kind = kind) =
      decide (s.value.kind = kind) := fun s => by
    rw [Statement.unsignedZeros, Value.kind_unsignedZeros]
  have hgroup := h.filter (p := fun s => s.value.kind = kind) hkind
  refine ext fun db => ?_
  -- Without the table it only matters whether there is a value to add, and that is the same in any
  -- order.
  cases hhas : db.has (.values kind) with
  | true =>
    have hone := apply_addValues_apart (u := db.tables) config hhas hapart hstorable
    have hother := apply_addValues_apart (u := db.tables) config hhas (h.apart hapart)
      (storable_of_rearranged h hstorable)
    rw [hgroup.countP_eq fun _ => rfl,
      db.tables.withValues_of_rearranged (hapart.sublist List.filter_sublist) hgroup] at hone
    exact hone.trans hother.symm
  | false =>
    rw [apply_addValues_of_not_has config hhas, apply_addValues_of_not_has config hhas]
    have hempty : (statements.filter (·.value.kind = kind)).isEmpty =
        (others.filter (·.value.kind = kind)).isEmpty := by
      rw [Bool.eq_iff_iff, List.isEmpty_iff_length_eq_zero, List.isEmpty_iff_length_eq_zero,
        hgroup.length_eq]
    rw [hempty]

/-! ## Insertion -/

/-- What an insertion does after its edges: it adds the values of the statements that it took. -/
def insertValues (config : BatchConfig) (taken : List Statement) (skipped : Nat) :
    Update ImportStats :=
  (fun values => ⟨taken.length, skipped, values.sum⟩) <$>
    ValueKind.all.mapM fun kind => addValues config kind taken

/-- **An insertion of statements that are apart takes each of them for itself.** -/
theorem apply_insert_apart (config : BatchConfig) (hedges : db.has .edges = true)
    (hapart : Apart statements) :
    (insert config .idempotent statements).apply (db.withTables t) =
      (insertValues config (statements.filter t.takes)
        (statements.countP fun s => !t.takes s)).apply
          (db.withTables (t.withEdges (statements.map Statement.edge))) := by
  have htaken := map_fst_filter_zip t.takes statements
  have hinserted : (statements.map t.takes).count true = (statements.filter t.takes).length := by
    simp [List.count, List.countP_map, Function.comp_def, ← List.countP_eq_length_filter]
  have hskipped : (statements.map t.takes).count false = statements.countP fun s => !t.takes s := by
    simp [List.count, List.countP_map, Function.comp_def]
  rw [insert, apply_bind_ok (apply_edges_apart _ hedges hapart)]
  simp only [htaken, hinserted, hskipped]
  rw [insertValues, map_eq_pure_bind]

theorem apply_insert_of_not_has (config : BatchConfig) (hedges : db.has .edges = false)
    (hne : statements ≠ []) :
    (insert config .idempotent statements).apply db = (.error .query, db) := by
  have hflatten : ((config.perStatement edgeWidth).chunks statements).flatten ≠ [] := by
    rwa [BatchConfig.flatten_chunks]
  have hrun := apply_map_error (·.1.flatten) (apply_mapM_addEdges_of_not_has hedges hflatten)
  rw [insert, run'_execute]
  exact apply_bind_error hrun

/-- **The order of the statements does not matter**, nor do the signs of zeros. -/
theorem insert_of_rearranged (config : BatchConfig) (hapart : Apart statements)
    (hstorable : ∀ s ∈ statements, Storable s) (h : Statement.Rearranged statements others) :
    insert config .idempotent statements = insert config .idempotent others := by
  refine ext fun db => ?_
  cases hedges : db.has .edges with
  | true =>
    have hone := apply_insert_apart (t := db.tables) config hedges hapart
    have hother := apply_insert_apart (t := db.tables) config hedges (h.apart hapart)
    have htaken := h.filter (p := db.tables.takes) fun _ => rfl
    have hvalues : (fun kind => addValues config kind (statements.filter db.tables.takes)) =
        fun kind => addValues config kind (others.filter db.tables.takes) :=
      funext fun kind => addValues_of_rearranged config kind
        (hapart.sublist List.filter_sublist) (fun s hs => hstorable s (List.mem_of_mem_filter hs))
        htaken
    rw [insertValues, hvalues, htaken.length_eq, h.countP_eq fun _ => rfl,
      db.tables.withEdges_perm hapart.edges h.edges] at hone
    exact hone.trans hother.symm
  | false =>
    cases statements with
    | nil => rw [List.eq_nil_of_length_eq_zero h.length_eq.symm]
    | cons s rest =>
      have hne : others ≠ [] := by
        rintro rfl
        exact nomatch h.length_eq
      rw [apply_insert_of_not_has config hedges (List.cons_ne_nil s rest),
        apply_insert_of_not_has config hedges hne]

/-- The values of an insertion leave the edges alone, also if they cannot be added. -/
theorem exists_apply_insertValues (db : Database) (u : Tables) (config : BatchConfig)
    (taken : List Statement) (skipped : Nat) :
    ∃ outcome t', (insertValues config taken skipped).apply (db.withTables u) =
      (outcome, db.withTables t') ∧ t'.encoding = u.encoding ∧ t'.edges = u.edges := by
  have hpreserves : (insertValues config taken skipped).Preserves fun changed =>
      ∃ t', changed = db.withTables t' ∧ t'.encoding = u.encoding ∧ t'.edges = u.edges := by
    refine preserves_map _ (preserves_mapM fun kind _ => preserves_addValues ?_ config kind)
    rintro s - _ stored - ⟨t', rfl, hencoding, hedges⟩
    exact ⟨t'.addValue ⟨s.edge.id, stored⟩, rfl, (Tables.setValues_encoding ..).trans hencoding,
      (Tables.setValues_edges ..).trans hedges⟩
  obtain ⟨t', hchanged, hkept⟩ := hpreserves _ ⟨u, rfl, rfl, rfl⟩
  exact ⟨_, t', Prod.ext rfl hchanged, hkept⟩

theorem apply_insert_nil (config : BatchConfig) (db : Database) :
    (insert config .idempotent []).apply db = (.ok ⟨0, 0, 0⟩, db) := by
  have hedges : (((config.perStatement edgeWidth).execute (addEdges .idempotent) []).run' []).apply
      db = (.ok [], db) := by
    rw [run'_execute, BatchConfig.chunks, if_pos (by simp)]
    rfl
  rw [insert, apply_bind_ok hedges]
  rfl

/-- **What an insertion leaves**: the edges of its statements are stored, even if their values could
not be added and the change is not undone; and each statement is counted once. -/
theorem exists_apply_insert (db : Database) (t : Tables) (config : BatchConfig)
    (hapart : Apart statements) (hedges : statements = [] ∨ db.has .edges = true) :
    ∃ outcome t', (insert config .idempotent statements).apply (db.withTables t) =
        (outcome, db.withTables t') ∧
      t'.edges = (t.withEdges (statements.map Statement.edge)).edges ∧
      (∀ s ∈ statements, t'.containsEdge s.edge.id = true) ∧
      ∀ stats, outcome = .ok stats → stats.inserted + stats.skipped = statements.length := by
  rcases hedges with rfl | hedges
  · refine ⟨_, t, apply_insert_nil config _, rfl, by simp, ?_⟩
    rintro stats ⟨⟩
    rfl
  obtain ⟨outcome, t', hrun, hencoding, hkept⟩ := exists_apply_insertValues db
    (t.withEdges (statements.map Statement.edge)) config (statements.filter t.takes)
    (statements.countP fun s => !t.takes s)
  refine ⟨outcome, t', (apply_insert_apart config hedges hapart).trans hrun, hkept, ?_, ?_⟩
  · intro s hs
    have hstored := Tables.containsEdge_withEdges_of_mem (t := t) hs
    rwa [Tables.containsEdge, Tables.kept, ← hencoding, ← hkept] at hstored
  · rintro stats rfl
    obtain ⟨values, -, rfl⟩ := of_apply_map_ok hrun
    have hcount := statements.length_eq_countP_add_countP t.takes
    simpa [List.countP_eq_length_filter] using hcount.symm

/-- **An insertion of statements whose edges are stored changes nothing.** -/
theorem apply_insert_again (db : Database) (t : Tables) (config : BatchConfig)
    (hapart : Apart statements) (hedges : statements = [] ∨ db.has .edges = true)
    (hstored : ∀ s ∈ statements, t.containsEdge s.edge.id = true) :
    (insert config .idempotent statements).apply (db.withTables t) =
      (.ok ⟨0, statements.length, 0⟩, db.withTables t) := by
  rcases hedges with rfl | hedges
  · exact apply_insert_nil config _
  have hskips : ∀ s ∈ statements, t.takes s = false := fun s hs => by
    rw [Tables.takes, hstored s hs]
    rfl
  have htaken : statements.filter t.takes = [] :=
    List.filter_eq_nil_iff.2 fun s hs => by simp [hskips s hs]
  have hskipped : (statements.countP fun s => !t.takes s) = statements.length :=
    List.countP_eq_length.2 fun s hs => by simp [hskips s hs]
  rw [apply_insert_apart config hedges hapart, htaken, hskipped,
    Tables.withEdges_of_contains hstored]
  rfl

end Update

end FactGraph
