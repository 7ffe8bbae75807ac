import Mathlib.Data.List.Nodup
import FactGraph.Proofs.Store.Soundness
import FactGraph.Store.Insertion

/-!
# Adding statements to tables

The plain meaning of an insertion, one statement after the other and without chunks. A statement
is **new** (`Tables.IsNew`) if no edge of its id is stored and no earlier statement of the list has
the id. `Tables.Adds t added t'` says that `t'` holds what `t` holds and the statements `added` as
well, and nothing else.

Main results: the edges of a list bring in those of its new statements (`mem_withEdges`), values
with distinct new ids bring in their rows (`mem_withValues`), and sound tables stay sound when
statements are added whose edges and values agree in kind (`Adds.sound`).
-/

namespace FactGraph

-- Sums are those of the core library, whatever else is in scope.
attribute [local instance (high)] Zero.ofOfNat0

theorem StoredValue.kept_utf8 {kind : ValueKind} (stored : StoredValue kind) :
    stored.kept .utf8 = stored := by
  have htext (text : Option String) : text.map TextEncoding.utf8.kept = text := by
    cases text <;> rfl
  have hcell (c : Cell) : c.kept .utf8 = c := by cases c <;> rfl
  cases stored <;> simp [kept, htext, hcell, TextEncoding.kept]

theorem StoredValue.exists_toValue {v : Value} {stored : StoredValue v.kind}
    (h : ofValue? v = some stored) : ∃ w, stored.toValue = .ok w := by
  cases v with
  | string text language => cases h; exact ⟨_, rfl⟩
  | pointInTime t => cases h; exact ⟨_, rfl⟩
  | symbol s => cases h; exact ⟨_, rfl⟩
  | quantity q =>
    obtain ⟨number, hnumber, hstored⟩ := Option.bind_eq_some_iff.1 h
    cases hstored
    have hcell : ∃ n, numberOf number = .ok n := by
      unfold numberCell? at hnumber
      split at hnumber
      · cases hnumber; exact ⟨_, rfl⟩
      · split at hnumber
        · cases hnumber
        · cases hnumber; exact ⟨_, rfl⟩
    obtain ⟨n, hn⟩ := hcell
    exact ⟨.quantity (quantityOf n q.unit (q.lowTolerance.bind columnValue?)
      (q.highTolerance.bind columnValue?)), by simp [toValue, hn, Except.map]⟩
  | coordinate c =>
    obtain ⟨latitude, -, hrest⟩ := Option.bind_eq_some_iff.1 h
    obtain ⟨longitude, -, hstored⟩ := Option.bind_eq_some_iff.1 hrest
    cases hstored
    exact ⟨_, rfl⟩

/-- The row of values that the statement needs, with its kind. -/
def Statement.row? (s : Statement) : Option (Σ kind, ValueRow kind) :=
  (StoredValue.ofValue? s.value).map fun stored => ⟨s.value.kind, s.edge.id, stored⟩

theorem Statement.of_row?_eq_some {s : Statement} {kind : ValueKind} {row : ValueRow kind}
    (h : s.row? = some ⟨kind, row⟩) : kind = s.value.kind ∧ row.edgeId = s.edge.id := by
  obtain ⟨stored, -, hrow⟩ := Option.map_eq_some_iff.1 h
  cases hrow
  exact ⟨rfl, rfl⟩

theorem Statement.exists_toValue {s : Statement} {kind : ValueKind} {row : ValueRow kind}
    (h : s.row? = some ⟨kind, row⟩) : ∃ v, row.stored.toValue = .ok v := by
  obtain ⟨stored, hstored, hrow⟩ := Option.map_eq_some_iff.1 h
  cases hrow
  exact StoredValue.exists_toValue hstored

namespace Statement

/-- The ids of statements, in their order. -/
def ids (statements : List Statement) : List String := statements.map (·.edge.id)

/-- The statement is the first of its id in the list. -/
def IsFirst (x : Statement) (statements : List Statement) : Prop :=
  ∃ before after, statements = before ++ x :: after ∧ x.edge.id ∉ ids before

variable {s x : Statement} {rest statements : List Statement}

theorem isFirst_cons :
    x.IsFirst (s :: rest) ↔ x = s ∨ x.edge.id ≠ s.edge.id ∧ x.IsFirst rest := by
  constructor
  · rintro ⟨_ | ⟨first, before⟩, after, hsplit, hnew⟩
    · exact .inl (List.cons.inj hsplit).1.symm
    · obtain ⟨rfl, hrest⟩ := List.cons.inj hsplit
      obtain ⟨hne, hbefore⟩ := not_or.1 (mt List.mem_cons.2 hnew)
      exact .inr ⟨hne, before, after, hrest, hbefore⟩
  · rintro (rfl | ⟨hne, before, after, rfl, hnew⟩)
    · exact ⟨[], rest, rfl, List.not_mem_nil⟩
    · exact ⟨s :: before, after, rfl, mt List.mem_cons.1 (not_or.2 ⟨hne, hnew⟩)⟩

theorem not_isFirst_nil : ¬x.IsFirst [] := by
  rintro ⟨before, after, hsplit, -⟩
  simp at hsplit

theorem IsFirst.mem (h : x.IsFirst statements) : x ∈ statements := by
  obtain ⟨before, after, rfl, -⟩ := h
  exact List.mem_append_right _ List.mem_cons_self

theorem exists_isFirst (hx : x ∈ statements) :
    ∃ y : Statement, y.IsFirst statements ∧ y.edge.id = x.edge.id := by
  induction statements with
  | nil => exact nomatch hx
  | cons s rest ih =>
    by_cases hid : x.edge.id = s.edge.id
    · exact ⟨s, isFirst_cons.2 (.inl rfl), hid.symm⟩
    · obtain ⟨y, hy, hyId⟩ := ih ((List.mem_cons.1 hx).resolve_left fun heq => hid (heq ▸ rfl))
      exact ⟨y, isFirst_cons.2 (.inr ⟨hyId ▸ hid, hy⟩), hyId⟩

end Statement

namespace Tables

variable {t u : Tables} {earlier statements : List Statement} {s : Statement}

/-! ## New statements -/

/-- No edge of this id is stored, and no earlier statement has it. -/
def IsNew (t : Tables) (earlier : List Statement) (s : Statement) : Prop :=
  t.containsEdge s.edge.id = false ∧ s.edge.id ∉ Statement.ids earlier

instance (t : Tables) (earlier : List Statement) (s : Statement) :
    Decidable (t.IsNew earlier s) := by
  unfold IsNew
  infer_instance

/-- Which statements are new where they stand, after the earlier ones. -/
def newFlags (t : Tables) (earlier : List Statement) : List Statement → List Bool
  | [] => []
  | s :: rest => (t.IsNew earlier s : Bool) :: t.newFlags (earlier ++ [s]) rest

/-- The statements that are new where they stand, after the earlier ones. -/
def newsAfter (t : Tables) (earlier : List Statement) : List Statement → List Statement
  | [] => []
  | s :: rest =>
    if t.IsNew earlier s then s :: t.newsAfter (earlier ++ [s]) rest
    else t.newsAfter (earlier ++ [s]) rest

/-- The statements of a list that are new where they stand. -/
def news (t : Tables) (statements : List Statement) : List Statement := t.newsAfter [] statements

theorem length_newFlags (t : Tables) (earlier statements : List Statement) :
    (t.newFlags earlier statements).length = statements.length := by
  induction statements generalizing earlier with
  | nil => rfl
  | cons s rest ih => simp [newFlags, ih]

theorem newFlags_append (t : Tables) (earlier front back : List Statement) :
    t.newFlags earlier (front ++ back) =
      t.newFlags earlier front ++ t.newFlags (earlier ++ front) back := by
  induction front generalizing earlier with
  | nil => simp [newFlags]
  | cons s rest ih => simp [newFlags, ih]

theorem filter_newFlags (t : Tables) (earlier statements : List Statement) :
    ((statements.zip (t.newFlags earlier statements)).filter (·.2)).map (·.1) =
      t.newsAfter earlier statements := by
  induction statements generalizing earlier with
  | nil => rfl
  | cons s rest ih =>
    by_cases h : t.IsNew earlier s <;> simp [newFlags, newsAfter, h, ih]

theorem count_newFlags (t : Tables) (earlier statements : List Statement) :
    (t.newFlags earlier statements).count true = (t.newsAfter earlier statements).length := by
  induction statements generalizing earlier with
  | nil => rfl
  | cons s rest ih =>
    by_cases h : t.IsNew earlier s <;> simp [newFlags, newsAfter, h, ih]

theorem newsAfter_sublist (t : Tables) (earlier statements : List Statement) :
    (t.newsAfter earlier statements).Sublist statements := by
  induction statements generalizing earlier with
  | nil => exact .slnil
  | cons s rest ih =>
    unfold newsAfter
    split
    · exact (ih _).cons_cons s
    · exact (ih _).cons s

/-- **A statement is new where it stands** if no edge has its id, nor has an earlier statement or
one before it in the list. -/
theorem mem_newsAfter_iff :
    s ∈ t.newsAfter earlier statements ↔ t.IsNew earlier s ∧ s.IsFirst statements := by
  induction statements generalizing earlier with
  | nil => simp [newsAfter, Statement.not_isFirst_nil]
  | cons first rest ih =>
    have hlater : s ∈ t.newsAfter (earlier ++ [first]) rest ↔
        t.IsNew earlier s ∧ s.edge.id ≠ first.edge.id ∧ s.IsFirst rest := by
      rw [ih]
      simp [IsNew, Statement.ids, and_assoc]
    have hstep : s ∈ t.newsAfter earlier (first :: rest) ↔
        t.IsNew earlier s ∧ s = first ∨ s ∈ t.newsAfter (earlier ++ [first]) rest := by
      rw [newsAfter]
      by_cases hs : s = first
      · subst hs
        by_cases hnew : t.IsNew earlier s <;> simp [hnew]
      · split <;> simp [hs]
    rw [hstep, hlater, Statement.isFirst_cons, and_or_left]

theorem mem_news_iff :
    s ∈ t.news statements ↔ t.containsEdge s.edge.id = false ∧ s.IsFirst statements := by
  simp [news, mem_newsAfter_iff, IsNew, Statement.ids]

theorem isNew_of_mem_newsAfter (h : s ∈ t.newsAfter earlier statements) : t.IsNew earlier s :=
  (mem_newsAfter_iff.1 h).1

theorem nodup_newsAfter (t : Tables) (earlier statements : List Statement) :
    (Statement.ids (t.newsAfter earlier statements)).Nodup := by
  induction statements generalizing earlier with
  | nil => exact .nil
  | cons s rest ih =>
    unfold newsAfter
    split
    · refine List.nodup_cons.2 ⟨fun hmem => ?_, ih _⟩
      obtain ⟨other, hother, hid⟩ := List.mem_map.1 hmem
      exact (isNew_of_mem_newsAfter hother).2 (by simp [Statement.ids, hid])
    · exact ih _

theorem isNew_of_mem_news (h : s ∈ t.news statements) : t.containsEdge s.edge.id = false :=
  (isNew_of_mem_newsAfter h).1

/-! ## Adding edges -/

/-- The tables with these edges, the first of each id. -/
def withEdges (t : Tables) (edges : List Edge) : Tables := edges.foldl addEdge t

@[simp] theorem withEdges_nil (t : Tables) : t.withEdges [] = t := rfl

@[simp] theorem withEdges_cons (t : Tables) (e : Edge) (edges : List Edge) :
    t.withEdges (e :: edges) = (t.addEdge e).withEdges edges := rfl

theorem withEdges_append (t : Tables) (front back : List Edge) :
    t.withEdges (front ++ back) = (t.withEdges front).withEdges back := List.foldl_append

theorem withEdges_frame (t : Tables) (edges : List Edge) :
    (t.withEdges edges).encoding = t.encoding ∧ (t.withEdges edges).unknownTags = t.unknownTags ∧
      ∀ kind, (t.withEdges edges).values kind = t.values kind := by
  induction edges generalizing t with
  | nil => exact ⟨rfl, rfl, fun _ => rfl⟩
  | cons e edges ih =>
    obtain ⟨hencoding, htags, hvalues⟩ := ih (t.addEdge e)
    exact ⟨hencoding, htags, fun kind => (hvalues kind).trans (by cases kind <;> rfl)⟩

theorem kept_of_utf8 (h : t.encoding = .utf8) (text : String) : t.kept text = text := by
  simp [kept, h, TextEncoding.kept]

theorem keptEdge_of_utf8 (h : t.encoding = .utf8) (e : Edge) : t.keptEdge e = e := by
  simp [keptEdge, kept_of_utf8 h]

theorem containsEdge_of_utf8 (h : t.encoding = .utf8) (id : String) :
    t.containsEdge id = t.edges.contains id := by
  rw [containsEdge, kept_of_utf8 h]

@[simp] theorem kept_addEdge (t : Tables) (e : Edge) (text : String) :
    (t.addEdge e).kept text = t.kept text := rfl

theorem contains_addEdge {e : Edge} {k : String} :
    (t.addEdge e).edges.contains k = true ↔ k = t.kept e.id ∨ t.edges.contains k = true :=
  Table.contains_insert

theorem containsEdge_addEdge (h : t.encoding = .utf8) {e : Edge} {id : String} :
    (t.addEdge e).containsEdge id = true ↔ id = e.id ∨ t.containsEdge id = true := by
  rw [containsEdge_of_utf8 (t := t.addEdge e) h, containsEdge_of_utf8 h, contains_addEdge,
    kept_of_utf8 h]

theorem addEdge_of_contains {e : Edge} (hc : t.containsEdge e.id = true) : t.addEdge e = t := by
  have hsame : t.edges.insert (t.keptEdge e) = t.edges := Table.insert_of_contains hc
  rw [addEdge, hsame]

theorem mem_addEdge (h : t.encoding = .utf8) {e x : Edge} (hc : t.containsEdge e.id = false) :
    x ∈ (t.addEdge e).edges.rows ↔ x = e ∨ x ∈ t.edges.rows := by
  rw [containsEdge_of_utf8 h] at hc
  rw [addEdge, keptEdge_of_utf8 h, Table.mem_insert_of_new hc]

theorem containsEdge_withEdges (h : t.encoding = .utf8) {edges : List Edge} {id : String} :
    (t.withEdges edges).containsEdge id = true ↔
      id ∈ edges.map Edge.id ∨ t.containsEdge id = true := by
  induction edges generalizing t with
  | nil => simp
  | cons e edges ih =>
    have he : (t.addEdge e).encoding = .utf8 := h
    rw [withEdges_cons, ih he, containsEdge_addEdge h, List.map_cons, List.mem_cons, or_left_comm,
      or_assoc]

/-- **Edges are added where they are new.** The tables `u` hold the edges of `t` and those of the
earlier statements. -/
theorem mem_withEdges_of_earlier (h : u.encoding = .utf8)
    (hu : ∀ id, u.containsEdge id = true ↔
      id ∈ Statement.ids earlier ∨ t.containsEdge id = true) {e : Edge} :
    e ∈ (u.withEdges (statements.map Statement.edge)).edges.rows ↔
      e ∈ u.edges.rows ∨ ∃ s ∈ t.newsAfter earlier statements, s.edge = e := by
  -- On the list. What is kept is that `u` holds the ids of `t` and of the statements before it, so
  -- that an edge is new to `u` exactly if its statement is new to `t`.
  induction statements generalizing u earlier with
  | nil => simp [newsAfter]
  | cons s rest ih =>
    have hstep : ∀ id, (u.addEdge s.edge).containsEdge id = true ↔
        id ∈ Statement.ids (earlier ++ [s]) ∨ t.containsEdge id = true := by
      intro id
      rw [containsEdge_addEdge h, hu id]
      simp [Statement.ids, or_comm, or_left_comm]
    rw [List.map_cons, withEdges_cons, ih (u := u.addEdge s.edge) h hstep]
    by_cases hnew : t.IsNew earlier s
    · have hc : u.containsEdge s.edge.id = false := by
        rw [← Bool.not_eq_true, hu]
        simp [hnew.1, hnew.2]
      rw [mem_addEdge h hc]
      simp [newsAfter, hnew, or_left_comm, or_assoc, eq_comm]
    · have hc : u.containsEdge s.edge.id = true := by
        rw [hu]
        by_contra hnone
        obtain ⟨hearlier, hstored⟩ := not_or.1 hnone
        exact hnew ⟨Bool.not_eq_true _ ▸ hstored, hearlier⟩
      rw [addEdge_of_contains hc]
      simp [newsAfter, hnew]

theorem mem_withEdges (h : t.encoding = .utf8) {e : Edge} :
    e ∈ (t.withEdges (statements.map Statement.edge)).edges.rows ↔
      e ∈ t.edges.rows ∨ ∃ s ∈ t.news statements, s.edge = e :=
  mem_withEdges_of_earlier h fun id => by simp [Statement.ids]

/-! ## Adding values -/

/-- The tables with the value of a statement, if it can be stored. -/
def withValue (t : Tables) (s : Statement) : Tables :=
  match s.row? with
  | some ⟨_, row⟩ => t.addValue row
  | none => t

/-- The tables with the values of these statements. -/
def withValues (t : Tables) (statements : List Statement) : Tables := statements.foldl withValue t

@[simp] theorem withValues_nil (t : Tables) : t.withValues [] = t := rfl

@[simp] theorem withValues_cons (t : Tables) (s : Statement) (statements : List Statement) :
    t.withValues (s :: statements) = (t.withValue s).withValues statements := rfl

theorem withValues_append (t : Tables) (front back : List Statement) :
    t.withValues (front ++ back) = (t.withValues front).withValues back := List.foldl_append

theorem withValue_frame (t : Tables) (s : Statement) :
    (t.withValue s).encoding = t.encoding ∧ (t.withValue s).unknownTags = t.unknownTags ∧
      (t.withValue s).edges = t.edges := by
  unfold withValue
  split <;> simp [addValue]

theorem withValues_frame (t : Tables) (statements : List Statement) :
    (t.withValues statements).encoding = t.encoding ∧
      (t.withValues statements).unknownTags = t.unknownTags ∧
      (t.withValues statements).edges = t.edges := by
  induction statements generalizing t with
  | nil => exact ⟨rfl, rfl, rfl⟩
  | cons s rest ih =>
    obtain ⟨hencoding, htags, hedges⟩ := ih (t.withValue s)
    obtain ⟨hencoding', htags', hedges'⟩ := t.withValue_frame s
    exact ⟨hencoding.trans hencoding', htags.trans htags', hedges.trans hedges'⟩

theorem mem_addValue (h : t.encoding = .utf8) {kind other : ValueKind} {row : ValueRow kind}
    {x : ValueRow other} (hc : (t.values kind).contains row.edgeId = false) :
    x ∈ ((t.addValue row).values other).rows ↔
      x ∈ (t.values other).rows ∨ (⟨kind, row⟩ : Σ kind, ValueRow kind) = ⟨other, x⟩ := by
  rw [addValue, kept_of_utf8 h, h, StoredValue.kept_utf8]
  by_cases hk : kind = other
  · subst hk
    rw [values_setValues, Table.mem_insert_of_new hc, or_comm]
    simp [eq_comm]
  · rw [values_setValues_of_ne t hk]
    simp [hk]

theorem mem_withValue (h : t.encoding = .utf8)
    (hc : (t.values s.value.kind).contains s.edge.id = false) {kind : ValueKind}
    {x : ValueRow kind} :
    x ∈ ((t.withValue s).values kind).rows ↔
      x ∈ (t.values kind).rows ∨ s.row? = some ⟨kind, x⟩ := by
  unfold withValue
  split
  next rowKind row hrow =>
    obtain ⟨rfl, hid⟩ := Statement.of_row?_eq_some hrow
    rw [mem_addValue h (hid ▸ hc), hrow, Option.some.injEq]
  next hnone => simp [hnone]

/-- The statements have distinct ids, and no values are stored under them. -/
structure Fits (t : Tables) (statements : List Statement) : Prop where
  nodup : (Statement.ids statements).Nodup
  new : ∀ s ∈ statements, (t.values s.value.kind).contains s.edge.id = false

theorem Fits.tail (h : t.encoding = .utf8) (hfits : t.Fits (s :: statements)) :
    (t.withValue s).Fits statements := by
  obtain ⟨hs, hnodup⟩ := List.nodup_cons.1 hfits.nodup
  refine ⟨hnodup, ?_⟩
  intro other hother
  rw [← Bool.not_eq_true, Table.contains_iff]
  rintro ⟨row, hrow, hid⟩
  rcases (mem_withValue h (hfits.new s (List.mem_cons_self ..))).1 hrow with hrow | hrow
  · have := hfits.new other (List.mem_cons_of_mem s hother)
    rw [← hid, Table.contains_key hrow] at this
    cases this
  · rw [(Statement.of_row?_eq_some hrow).2] at hid
    exact hs (List.mem_map.2 ⟨other, hother, hid.symm⟩)

theorem Fits.append (h : t.encoding = .utf8) {front back : List Statement}
    (hfits : t.Fits (front ++ back)) : t.Fits front ∧ (t.withValues front).Fits back := by
  constructor
  · refine ⟨?_, fun s hs => hfits.new s (List.mem_append_left back hs)⟩
    have := hfits.nodup
    rw [Statement.ids, List.map_append] at this
    exact (List.nodup_append.1 this).1
  · induction front generalizing t with
    | nil => exact hfits
    | cons s front ih => exact ih ((t.withValue_frame s).1.trans h) (hfits.tail h)

/-- **Values that fit bring in their rows.** -/
theorem mem_withValues (h : t.encoding = .utf8) (hfits : t.Fits statements) {kind : ValueKind}
    {x : ValueRow kind} :
    x ∈ ((t.withValues statements).values kind).rows ↔
      x ∈ (t.values kind).rows ∨ ∃ s ∈ statements, s.row? = some ⟨kind, x⟩ := by
  induction statements generalizing t with
  | nil => simp
  | cons s rest ih =>
    rw [withValues_cons, ih ((t.withValue_frame s).1.trans h) (hfits.tail h),
      mem_withValue h (hfits.new s (List.mem_cons_self ..))]
    simp [or_assoc]

/-! ## Statements by kind -/

/-- The statements of each kind of value, kind after kind. -/
def byKind (statements : List Statement) : List Statement :=
  ValueKind.all.flatMap fun kind => statements.filter (·.value.kind = kind)

theorem mem_byKind : s ∈ byKind statements ↔ s ∈ statements := by
  have hkind : s.value.kind ∈ ValueKind.all := by cases s.value.kind <;> decide
  simp [byKind, hkind]

theorem nodup_byKind (h : (Statement.ids statements).Nodup) :
    (Statement.ids (byKind statements)).Nodup := by
  refine List.pairwise_map.2 (List.pairwise_flatMap.2 ⟨?_, ?_⟩)
  · intro kind _
    exact (List.pairwise_map.1 h).filter _
  · refine (by decide : ValueKind.all.Nodup).imp fun hne a ha b hb hid => hne ?_
    obtain ⟨ha, hakind⟩ := List.mem_filter.1 ha
    obtain ⟨hb, hbkind⟩ := List.mem_filter.1 hb
    rw [List.inj_on_of_nodup_map h ha hb hid] at hakind
    exact (of_decide_eq_true hakind).symm.trans (of_decide_eq_true hbkind)

theorem sum_length_byKind (statements : List Statement) :
    (ValueKind.all.map fun kind =>
      (statements.filter (·.value.kind = kind)).length).sum = statements.length := by
  induction statements with
  | nil => rfl
  | cons s rest ih =>
    rw [List.length_cons, ← ih]
    cases hs : s.value.kind <;> simp [ValueKind.all, hs] <;> omega

/-! ## What was added -/

/-- The tables `t'` hold what `t` holds and the statements as well, and nothing else. -/
structure Adds (t : Tables) (added : List Statement) (t' : Tables) : Prop where
  encoding : t'.encoding = t.encoding
  unknownTags : t'.unknownTags = t.unknownTags
  edges : ∀ e, e ∈ t'.edges.rows ↔ e ∈ t.edges.rows ∨ ∃ s ∈ added, s.edge = e
  values : ∀ kind, ∀ row : ValueRow kind, row ∈ (t'.values kind).rows ↔
    row ∈ (t.values kind).rows ∨ ∃ s ∈ added, s.row? = some ⟨kind, row⟩

theorem adds_nil (t : Tables) : t.Adds [] t :=
  ⟨rfl, rfl, fun e => by simp, fun kind row => by simp⟩

theorem Sound.not_containsValue (hsound : t.Sound) (h : t.encoding = .utf8) {id : String}
    (hid : t.containsEdge id = false) (kind : ValueKind) :
    (t.values kind).contains id = false := by
  rw [← Bool.not_eq_true, Table.contains_iff]
  rintro ⟨row, hrow, rfl⟩
  obtain ⟨e, he, hrowId, -⟩ := hsound.owned kind row hrow
  rw [containsEdge_of_utf8 h, ← hrowId, Table.contains_key he] at hid
  cases hid

/-- The tables with the new statements of a list: first the edges, then the values by kind. -/
def withNews (t : Tables) (statements : List Statement) : Tables :=
  (t.withEdges (statements.map Statement.edge)).withValues (byKind (t.news statements))

theorem fits_news (hsound : t.Sound) (h : t.encoding = .utf8) (edges : List Edge) :
    (t.withEdges edges).Fits (byKind (t.news statements)) := by
  refine ⟨nodup_byKind (t.nodup_newsAfter [] statements), ?_⟩
  intro s hs
  rw [(t.withEdges_frame edges).2.2]
  exact hsound.not_containsValue h (isNew_of_mem_news (mem_byKind.1 hs)) _

/-- **Edges and values together add the new statements.** -/
theorem adds_withNews (hsound : t.Sound) (h : t.encoding = .utf8) (statements : List Statement) :
    t.Adds (t.news statements) (t.withNews statements) := by
  obtain ⟨hencoding, htags, hvalues⟩ := t.withEdges_frame (statements.map Statement.edge)
  obtain ⟨hencoding', htags', hedges⟩ :=
    (t.withEdges (statements.map Statement.edge)).withValues_frame (byKind (t.news statements))
  refine ⟨hencoding'.trans hencoding, htags'.trans htags, fun e => ?_, fun kind row => ?_⟩
  · rw [withNews, hedges, mem_withEdges h]
  · rw [withNews, mem_withValues (hencoding.trans h) (fits_news hsound h _), hvalues]
    simp [mem_byKind]

variable {t' : Tables} {added : List Statement}

/-- **Added statements keep tables sound** if their edges and values agree in kind. -/
theorem Adds.sound (ha : t.Adds added t') (hsound : t.Sound)
    (hkind : ∀ s ∈ added, s.edge.kind = s.value.kind)
    (hstored : ∀ s ∈ added, (StoredValue.ofValue? s.value).isSome = true) : t'.Sound where
  tagged := ha.unknownTags.trans hsound.tagged
  valued := by
    intro e he
    rcases (ha.edges e).1 he with he | ⟨s, hs, rfl⟩
    · obtain ⟨row, hrow, hid⟩ := Table.contains_iff.1 (hsound.valued e he)
      exact Table.contains_iff.2 ⟨row, (ha.values _ row).2 (.inl hrow), hid⟩
    · obtain ⟨stored, hvalue⟩ := Option.isSome_iff_exists.1 (hstored s hs)
      have hrow : s.row? = some ⟨s.value.kind, s.edge.id, stored⟩ := by
        rw [Statement.row?, hvalue, Option.map_some]
      rw [hkind s hs]
      exact Table.contains_iff.2 ⟨_, (ha.values _ _).2 (.inr ⟨s, hs, hrow⟩), rfl⟩
  owned := by
    intro kind row hrow
    rcases (ha.values kind row).1 hrow with hrow | ⟨s, hs, hrow⟩
    · obtain ⟨e, he, hid, hekind⟩ := hsound.owned kind row hrow
      exact ⟨e, (ha.edges e).2 (.inl he), hid, hekind⟩
    · obtain ⟨rfl, hid⟩ := Statement.of_row?_eq_some hrow
      exact ⟨s.edge, (ha.edges _).2 (.inr ⟨s, hs, rfl⟩), hid.symm, hkind s hs⟩

theorem Adds.readable (ha : t.Adds added t') (h : t.Readable) : t'.Readable := by
  intro kind row hrow
  rcases (ha.values kind row).1 hrow with hrow | ⟨s, -, hrow⟩
  · exact h kind row hrow
  · exact Statement.exists_toValue hrow

end Tables

end FactGraph
