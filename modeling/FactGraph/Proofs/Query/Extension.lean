import FactGraph.Proofs.Qualifier.Name
import FactGraph.Proofs.Query.Places

/-!
# Requests with more columns

Further columns of a request join further tables. All of those are left joins, except for the edge
of a qualifier that is called `time`, the only one that observations have to have.

**Requesting optional columns loses no observation** (`Plan.rows_extended`). A plan is extended by
another that has all its joins and, under names of their own, some more left joins
(`Plan.IsExtendedBy`). Common joins bind the same in both plans, so every environment of the shorter
one can be completed (`Plan.IsExtendedBy.exists_extended`), and every environment of the longer one
cut down (`Plan.IsExtendedBy.exists_restricted`). The column `time` keeps exactly the observations
that have an edge with the predicate of the qualifier (`Plan.rowsOf_append_ne_nil_iff`).
-/

namespace FactGraph

theorem Qualifier.IsResolved.isOptional_iff {q : Qualifier} (h : q.IsResolved) :
    q.isOptional = true ↔ q.name ≠ timeName := by
  obtain ⟨declared, label, observed, hresolve⟩ := h
  unfold resolve at hresolve
  cases hkind : kindOf q.predicate declared observed with
  | error cause => rw [hkind] at hresolve; exact nomatch hresolve
  | ok kind =>
    rw [hkind] at hresolve
    rw [← Except.ok.inj hresolve]
    exact decide_eq_true_iff

theorem Qualifier.eq_or_mem_of_mem_fields {q : Qualifier} {column : String} {expr : Expr}
    (h : (column, expr) ∈ q.fields) : column = q.name ∨ '_' ∈ column.toList := by
  have hall : ∀ field ∈ q.fields, field.1 = q.name ∨ '_' ∈ field.1.toList := by
    unfold fields
    split <;> simp
  exact hall _ h

namespace Plan

/-! ## Plans that extend others -/

/-- The plan has the same conditions and all columns and joins of the other. Its further columns
stand behind, and its further joins are left ones, under names of their own. -/
structure IsExtendedBy (plan extended : Plan) : Prop where
  base : extended.base = plan.base
  conditions : extended.conditions = plan.conditions
  columns : ∃ added, extended.columns = plan.columns ++ added
  joins : plan.joins ⊆ extended.joins
  known : ∀ j ∈ extended.joins, j.source ∈ plan.sources → j ∈ plan.joins
  left : ∀ j ∈ extended.joins, j.source ∉ plan.sources → j.kind = .left

namespace IsExtendedBy

variable {plan extended : Plan} {t : Tables} {e : Edge} {env env' : Environment}

theorem sources_subset (h : plan.IsExtendedBy extended) : plan.sources ⊆ extended.sources := by
  intro a ha
  rw [sources, List.mem_cons] at ha ⊢
  rw [h.base]
  refine ha.imp_right fun hsource => ?_
  obtain ⟨j, hj, rfl⟩ := List.mem_map.1 hsource
  exact List.mem_map.2 ⟨j, h.joins hj, rfl⟩

theorem conditions_all_eq (h : plan.IsExtendedBy extended) (hplan : plan.IsScoped)
    (hagree : ∀ a ∈ plan.sources, env'.lookup a = env.lookup a) :
    extended.conditions.all (·.holds t env') = plan.conditions.all (·.holds t env) := by
  rw [h.conditions, Bool.eq_iff_iff, List.all_eq_true, List.all_eq_true]
  refine forall₂_congr fun condition hcondition => ?_
  rw [Condition.holds_congr fun a ha => hagree a (hplan.sources_condition hcondition ha)]

theorem take_rowOf (h : plan.IsExtendedBy extended) (hplan : plan.IsScoped)
    (hagree : ∀ a ∈ plan.sources, env'.lookup a = env.lookup a) :
    (extended.rowOf env').take plan.columns.length = plan.rowOf env := by
  obtain ⟨added, hadded⟩ := h.columns
  rw [rowOf, hadded, List.map_append, List.take_left' (List.length_map _)]
  exact List.map_congr_left fun column hcolumn => Expr.eval_congr fun a ha =>
    hagree a (hplan.sources_column hcolumn ha)

variable (h : plan.IsExtendedBy extended) (hplan : plan.IsScoped) (hextended : extended.IsScoped)

include h hplan hextended

/-- **What the shorter plan joins can be completed**: further joins never fail. -/
theorem exists_extended (henv : env ∈ plan.environmentsOf t e) :
    ∃ env' ∈ extended.environmentsOf t e, ∀ a ∈ plan.sources, env'.lookup a = env.lookup a := by
  obtain ⟨hjoined, hmeets⟩ := List.mem_filter.1 henv
  obtain ⟨env', henv', hall⟩ : ∃ env' ∈ t.joined extended.joins [(extended.base, some (.edge e))],
      ∀ a ∈ extended.sources, a ∈ plan.sources → env'.lookup a = env.lookup a := by
    -- What the shorter plan has bound is asked for under its names. All other joins are left ones,
    -- so they can be made somehow.
    refine Tables.exists_mem_joined_agreeing [extended.base] plan.sources hextended.nodup
      hextended.joinsScoped (List.forall_mem_singleton.2 fun _ => ?_) (fun j hj hsource => ?_)
      h.left
    · rw [List.lookup_cons_self, h.base, hplan.lookup_base hjoined]
    · have hmem := h.known j hj hsource
      exact ⟨hplan.sources_join hmem, hplan.settles hjoined hmem⟩
  have hagree : ∀ a ∈ plan.sources, env'.lookup a = env.lookup a :=
    fun a ha => hall a (h.sources_subset ha) ha
  refine ⟨env', List.mem_filter.2 ⟨henv', ?_⟩, hagree⟩
  rw [h.conditions_all_eq hplan hagree]
  exact hmeets

/-- **What the longer plan joins can be cut down.** -/
theorem exists_restricted (henv' : env' ∈ extended.environmentsOf t e) :
    ∃ env ∈ plan.environmentsOf t e, ∀ a ∈ plan.sources, env'.lookup a = env.lookup a := by
  obtain ⟨hjoined, hmeets⟩ := List.mem_filter.1 henv'
  obtain ⟨env, henv, hall⟩ : ∃ env ∈ t.joined plan.joins [(plan.base, some (.edge e))],
      ∀ a ∈ plan.sources, a ∈ plan.sources → env.lookup a = env'.lookup a := by
    refine Tables.exists_mem_joined_agreeing [plan.base] plan.sources hplan.nodup
      hplan.joinsScoped (List.forall_mem_singleton.2 fun _ => ?_) (fun j hj _ => ?_)
      fun j hj hnew => absurd (List.mem_cons_of_mem _ (List.mem_map.2 ⟨j, hj, rfl⟩)) hnew
    · rw [List.lookup_cons_self, ← h.base, hextended.lookup_base hjoined]
    · exact ⟨hplan.sources_join hj, hextended.settles hjoined (h.joins hj)⟩
  have hagree : ∀ a ∈ plan.sources, env'.lookup a = env.lookup a :=
    fun a ha => (hall a ha ha).symm
  refine ⟨env, List.mem_filter.2 ⟨henv, ?_⟩, hagree⟩
  rw [← h.conditions_all_eq hplan hagree]
  exact hmeets

variable (t e) in
theorem rowsOf_extended :
    (∀ row ∈ plan.rowsOf t e, ∃ row' ∈ extended.rowsOf t e,
      row'.take plan.columns.length = row) ∧
    ∀ row' ∈ extended.rowsOf t e, row'.take plan.columns.length ∈ plan.rowsOf t e := by
  constructor
  · intro row hrow
    obtain ⟨env, henv, rfl⟩ := List.mem_map.1 hrow
    obtain ⟨env', henv', hagree⟩ := h.exists_extended hplan hextended henv
    exact ⟨extended.rowOf env', List.mem_map.2 ⟨env', henv', rfl⟩, h.take_rowOf hplan hagree⟩
  · intro row' hrow'
    obtain ⟨env', henv', rfl⟩ := List.mem_map.1 hrow'
    obtain ⟨env, henv, hagree⟩ := h.exists_restricted hplan hextended henv'
    rw [h.take_rowOf hplan hagree]
    exact List.mem_map.2 ⟨env, henv, rfl⟩

end IsExtendedBy

variable {t : Tables} {property dataset : String} {qualifiers : List Qualifier}
  {columns more : List String} {places : PlaceFilter} {limit : Int64} {e : Edge} {need : Need}

/-! ## Requests with more columns -/

theorem requested_of_ne_nil (h : columns ≠ []) : requested qualifiers columns = columns := by
  rw [requested, if_neg (by simpa using h)]

theorem mem_needs_append (h : columns ≠ []) :
    need ∈ needs qualifiers (columns ++ more) places ↔
      need ∈ needs qualifiers columns places ∨
        ∃ column ∈ more, columnNeed? qualifiers column = some need := by
  have happend : columns ++ more ≠ [] := List.append_ne_nil_of_left_ne_nil h more
  rw [mem_needs, mem_needs, requested_of_ne_nil h, requested_of_ne_nil happend]
  simp only [List.mem_append, or_and_right, exists_or, or_assoc, or_comm]

theorem exists_shownColumns_append {base : BaseColumn} (h : base.name ∈ columns) :
    ∃ added, shownColumns qualifiers (columns ++ more) =
      shownColumns qualifiers columns ++ added := by
  have hne : columns ≠ [] := List.ne_nil_of_mem h
  have hknown : (base.name, base.expr) ∈ columns.filterMap fun column =>
      (shown? qualifiers column).map (column, ·) :=
    List.mem_filterMap.2 ⟨base.name, h, by rw [shown?_name]; rfl⟩
  have hfirst := List.ne_nil_of_mem hknown
  refine ⟨more.filterMap fun column => (shown? qualifiers column).map (column, ·), ?_⟩
  rw [shownColumns, shownColumns, requested_of_ne_nil hne,
    requested_of_ne_nil (List.append_ne_nil_of_left_ne_nil hne more), List.filterMap_append,
    if_neg (mt List.isEmpty_iff.1 hfirst), if_neg (mt List.isEmpty_iff.1 ?_)]
  exact List.append_ne_nil_of_left_ne_nil hfirst _

/-- All joins of a part are left ones, unless it is what every query has or a mandatory
qualifier. -/
theorem kind_eq_left (hbase : need ≠ .base)
    (hoptional : ∀ q, need = .qualifier q → q.isOptional = true) :
    ∀ j ∈ need.fragment.joins, j.kind = .left := by
  -- Part by part. Only what every query has and a mandatory qualifier have inner joins.
  cases need with
  | base => exact absurd rfl hbase
  | subject => simp [Need.fragment, subjectFragment, labelJoins]
  | place node level => simp [Need.fragment, placeFragment]
  | qualifier q =>
    have hedge := hoptional q rfl
    obtain ⟨name, predicate, kind, isOptional, isRegion⟩ := q
    obtain rfl : isOptional = true := hedge
    cases kind with
    | location =>
      simp [Need.fragment, Qualifier.fragment, Qualifier.edgeJoin, Qualifier.labelled, labelJoins]
    | stored kind =>
      cases kind <;> simp [Need.fragment, Qualifier.fragment, Qualifier.edgeJoin,
        Qualifier.valueJoin, Qualifier.labelled, labelJoins]

/-- **A request is extended by one with more columns that need no mandatory qualifier.** -/
theorem isExtendedBy_assembled (hnames : (qualifiers.map (·.name)).Nodup)
    (hsmall : JoinsAll qualifiers columns places)
    (hlarge : JoinsAll qualifiers (columns ++ more) places)
    {base : BaseColumn} (hbase : base.name ∈ columns)
    (hoptional : ∀ column ∈ more, ∀ q, columnNeed? qualifiers column = some (.qualifier q) →
      q.isOptional = true) :
    (assembled property dataset qualifiers columns places limit).IsExtendedBy
      (assembled property dataset qualifiers (columns ++ more) places limit) := by
  have hneeds (need : Need) : need ∈ needs qualifiers (columns ++ more) places ↔
      need ∈ needs qualifiers columns places ∨
        ∃ column ∈ more, columnNeed? qualifiers column = some need :=
    mem_needs_append (List.ne_nil_of_mem hbase)
  refine ⟨rfl, rfl, exists_shownColumns_append hbase, fun j hj => ?_, fun j hj hsource => ?_,
    fun j hj hnew => ?_⟩
  · obtain ⟨need, hneed, hmem⟩ := exists_need_of_mem_joins hj
    exact mem_joins hlarge ((hneeds need).2 (.inl hneed)) hmem
  · obtain ⟨need, hneed, hmem⟩ := exists_need_of_mem_joins hj
    have ha : j.source ∈ need.fragment.sources := List.mem_map.2 ⟨j, hmem, rfl⟩
    have hjoined : j.source ≠ .observation := fun hobs =>
      observation_not_mem_sources need (hobs ▸ ha)
    obtain ⟨f, hf, hfsource⟩ := (mem_sources.1 hsource).resolve_left hjoined
    obtain ⟨other, hother, rfl⟩ := exists_need_of_mem_joinedFragments hf
    have horigin := (Need.origin?_of_mem_sources ha).symm.trans
      (Need.origin?_of_mem_sources hfsource)
    simp only [Option.some.injEq, Prod.mk.injEq] at horigin
    obtain rfl := need_eq_of_owner_eq hnames hneed ((hneeds other).2 (.inl hother)) horigin.1
      horigin.2
    exact mem_joins hsmall hother hmem
  · obtain ⟨need, hneed, hmem⟩ := exists_need_of_mem_joins hj
    rcases (hneeds need).1 hneed with hold | ⟨column, hcolumn, hasked⟩
    · refine absurd (List.mem_cons_of_mem _ (List.mem_map.2 ⟨j, ?_, rfl⟩)) hnew
      exact mem_joins hsmall hold hmem
    · refine kind_eq_left ?_ (fun q hq => hoptional column hcolumn q (hq ▸ hasked)) j hmem
      rintro rfl
      obtain h | ⟨q, -, h⟩ := columnNeed?_cases hasked <;> exact nomatch h

/-! ## The column of the time -/

theorem mem_of_columnNeed? {q : Qualifier} {column : String}
    (h : columnNeed? qualifiers column = some (.qualifier q)) :
    q ∈ qualifiers ∧ column ∈ q.fieldNames := by
  unfold columnNeed? at h
  split at h
  · simp at h
  · obtain ⟨⟨r, expr⟩, howner, heq⟩ := Option.map_eq_some_iff.1 h
    obtain rfl := Need.qualifier.inj heq
    obtain ⟨hr, hfield⟩ := mem_of_ownerOf? howner
    exact ⟨hr, List.mem_map.2 ⟨_, hfield, rfl⟩⟩

/-- Among the fields of all qualifiers, `time` is only the name of a qualifier. -/
theorem columnNeed?_time {time : Qualifier} (hnames : (qualifiers.map (·.name)).Nodup)
    (htime : time ∈ qualifiers) (hname : time.name = Qualifier.timeName) :
    columnNeed? qualifiers Qualifier.timeName = some (.qualifier time) := by
  have hsome : (ownerOf? qualifiers Qualifier.timeName).isSome = true := by
    rw [ownerOf?, List.findSome?_isSome_iff]
    refine ⟨time, htime, ?_⟩
    rw [← hname]
    simp [Qualifier.field?, Qualifier.fields]
  obtain ⟨⟨q, expr⟩, howner⟩ := Option.isSome_iff_exists.1 hsome
  obtain ⟨hq, hfield⟩ := mem_of_ownerOf? howner
  -- Another qualifier could have a field of this name only with a suffix behind an underscore.
  have hsame : q.name = time.name := by
    rcases Qualifier.eq_or_mem_of_mem_fields hfield with h | h
    · rw [hname, h]
    · exact absurd h (by decide)
  obtain rfl := List.inj_on_of_nodup_map hnames hq htime hsame
  have hnone : BaseColumn.ofName? Qualifier.timeName = none := rfl
  rw [columnNeed?, hnone, howner]
  rfl

theorem mem_neededQualifiers_append {q : Qualifier} (h : columns ≠ []) :
    q ∈ neededQualifiers qualifiers (columns ++ more) places ↔
      q ∈ neededQualifiers qualifiers columns places ∨
        ∃ column ∈ more, columnNeed? qualifiers column = some (.qualifier q) := by
  rw [mem_neededQualifiers, mem_needs_append h, mem_neededQualifiers]

theorem rowsOf_ne_nil_iff {plan : Plan} : plan.rowsOf t e ≠ [] ↔ plan.environmentsOf t e ≠ [] := by
  rw [rowsOf, ne_eq, List.map_eq_nil_iff]

/-- **Where a mandatory qualifier is requested in addition, the observations that have an edge with
its predicate are left.** -/
theorem rowsOf_append_ne_nil_iff {q : Qualifier} (hnames : (qualifiers.map (·.name)).Nodup)
    (hsmall : JoinsAll qualifiers columns places) {column : String}
    (hlarge : JoinsAll qualifiers (columns ++ [column]) places) (hcolumns : columns ≠ [])
    (hasked : columnNeed? qualifiers column = some (.qualifier q))
    (hmandatory : q.isOptional = false) :
    (assembled property dataset qualifiers (columns ++ [column]) places limit).rowsOf t e ≠ [] ↔
      (assembled property dataset qualifiers columns places limit).rowsOf t e ≠ [] ∧
        ∃ x, x ∈ t.edgesAbout e.id q.predicate := by
  have hneeded (r : Qualifier) : r ∈ neededQualifiers qualifiers (columns ++ [column]) places ↔
      r ∈ neededQualifiers qualifiers columns places ∨ r = q := by
    rw [mem_neededQualifiers_append hcolumns]
    simp [hasked, eq_comm]
  rw [rowsOf_ne_nil_iff, rowsOf_ne_nil_iff, environmentsOf_ne_nil_iff hnames hlarge,
    environmentsOf_ne_nil_iff hnames hsmall]
  -- The longer request needs one qualifier more, of which it needs an edge.
  constructor
  · rintro ⟨⟨hlabel, hquantity, hlinked, hqualified⟩, hlocation⟩
    exact ⟨⟨⟨hlabel, hquantity, hlinked, fun r hr => hqualified r ((hneeded r).2 (.inl hr))⟩,
      hlocation⟩, hqualified q ((hneeded q).2 (.inr rfl)) hmandatory⟩
  · rintro ⟨⟨⟨hlabel, hquantity, hlinked, hqualified⟩, hlocation⟩, hfound⟩
    refine ⟨⟨hlabel, hquantity, hlinked, fun r hr => ?_⟩, hlocation⟩
    rcases (hneeded r).1 hr with hold | rfl
    · exact hqualified r hold
    · exact fun _ => hfound

/-! ## Queries for more columns -/

variable {db : Database} {plan : Plan} {rows : List (List Cell)}

/-- **Requesting further columns, none of them of the qualifier that is called `time`, changes
nothing but to show them:** the rows for the shorter request are those for the longer one, cut down
to its columns. The column of that qualifier keeps exactly the observations that have an edge with
its predicate. -/
theorem rows_extended (hresolved : ∀ q ∈ qualifiers, q.IsResolved)
    {base : BaseColumn} (hbase : base.name ∈ columns) (hlimit : limit.toInt ≤ 0)
    (hplan : ofRequest property dataset qualifiers columns places limit = .ok plan)
    (hrows : db.query plan = .ok rows) :
    (∀ more extended rows',
      (∀ column ∈ more, ∀ q ∈ qualifiers, q.name = Qualifier.timeName → column ∉ q.fieldNames) →
      ofRequest property dataset qualifiers (columns ++ more) places limit = .ok extended →
      db.query extended = .ok rows' →
      (∃ added, extended.columns = plan.columns ++ added) ∧
      (∀ row ∈ rows, ∃ row' ∈ rows', row'.take plan.columns.length = row) ∧
      ∀ row' ∈ rows', row'.take plan.columns.length ∈ rows) ∧
    ∀ time ∈ qualifiers, time.name = Qualifier.timeName → ∀ timed rows',
      ofRequest property dataset qualifiers (columns ++ [Qualifier.timeName]) places limit =
        .ok timed →
      db.query timed = .ok rows' →
      let t := db.tables
      rows.Perm (t.edges.rows.flatMap (plan.rowsOf t)) ∧
      rows'.Perm (t.edges.rows.flatMap (timed.rowsOf t)) ∧
      ∀ e, timed.rowsOf t e ≠ [] ↔
        plan.rowsOf t e ≠ [] ∧ ∃ x, x ∈ t.edgesAbout e.id time.predicate := by
  obtain ⟨hnames, hsmall, rfl, hperm⟩ := of_ofRequest_query hplan hlimit hrows
  constructor
  · intro more extended rows' hmore hextended hrows'
    obtain ⟨-, hlarge, rfl, hperm'⟩ := of_ofRequest_query hextended hlimit hrows'
    -- Only the time is mandatory, and no further column is one of its fields.
    have hoptional : ∀ column ∈ more, ∀ q, columnNeed? qualifiers column = some (.qualifier q) →
        q.isOptional = true := by
      intro column hcolumn q hasked
      obtain ⟨hq, hfield⟩ := mem_of_columnNeed? hasked
      rw [(hresolved q hq).isOptional_iff]
      exact fun htime => hmore column hcolumn q hq htime hfield
    have hextends : (assembled property dataset qualifiers columns places limit).IsExtendedBy
        (assembled property dataset qualifiers (columns ++ more) places limit) :=
      isExtendedBy_assembled hnames hsmall hlarge hbase hoptional
    have hrowsOf (e : Edge) := hextends.rowsOf_extended db.tables e
      (isScoped_assembled hnames hsmall) (isScoped_assembled hnames hlarge)
    simp only [hperm.mem_iff, hperm'.mem_iff, List.mem_flatMap]
    refine ⟨hextends.columns, ?_, ?_⟩
    · rintro row ⟨e, he, hrow⟩
      obtain ⟨row', hrow', hcut⟩ := (hrowsOf e).1 row hrow
      exact ⟨row', ⟨e, he, hrow'⟩, hcut⟩
    · rintro row' ⟨e, he, hrow'⟩
      exact ⟨e, he, (hrowsOf e).2 row' hrow'⟩
  · intro time htime hname timed rows' htimed hrows' t
    obtain ⟨-, hlarge, rfl, hperm'⟩ := of_ofRequest_query htimed hlimit hrows'
    have hmandatory : time.isOptional = false := by
      rw [← Bool.not_eq_true, (hresolved time htime).isOptional_iff, not_not]
      exact hname
    exact ⟨hperm, hperm', fun e => rowsOf_append_ne_nil_iff hnames hsmall hlarge
      (List.ne_nil_of_mem hbase) (columnNeed?_time hnames htime hname) hmandatory⟩

/-- With the source requested as well, every row is found again, and with the time requested, the
observation without a time is lost. -/
theorem rows_extended_source :
    let time : Qualifier := ⟨"time", "P585", .stored .dateAndTime, false, false⟩
    let source : Qualifier := ⟨"source", "P9999", .stored .string, true, false⟩
    let dated : Edge := ⟨"e", "Q1", "P10", "5", .quantity⟩
    let undated : Edge := ⟨"f", "Q1", "P10", "5", .quantity⟩
    let db := sampleDatabase [dated, ⟨"e-dataset", "e", Vocabulary.dataset, "Q99", .symbol⟩,
      ⟨"e-time", "e", "P585", "2020", .dateAndTime⟩,
      undated, ⟨"f-dataset", "f", Vocabulary.dataset, "Q99", .symbol⟩]
    ∃ plan extended timed,
      ofRequest "P10" "Q99" [time, source] ["value"] .everywhere 0 = .ok plan ∧
      ofRequest "P10" "Q99" [time, source] ["value", "source"] .everywhere 0 = .ok extended ∧
      ofRequest "P10" "Q99" [time, source] ["value", "time"] .everywhere 0 = .ok timed ∧
      (∀ row ∈ plan.rows db.tables, ∃ row' ∈ extended.rows db.tables, row'.take 1 = row) ∧
      timed.rowsOf db.tables dated ≠ [] ∧ timed.rowsOf db.tables undated = [] := by
  intro time source dated undated db
  let plan (columns : List String) := assembled "P10" "Q99" [time, source] columns .everywhere 0
  have hplan (columns : List String) :
      ofRequest "P10" "Q99" [time, source] columns .everywhere 0 = .ok (plan columns) :=
    (ofRequest_eq_ok_iff _).2 ⟨by decide +kernel, rfl⟩
  have hquery (columns : List String)
      (h : columns ∈ [["value"], ["value", "source"], ["value", "time"]]) :
      db.query (plan columns) = .ok ((plan columns).rows db.tables) := by
    have hscoped : ∀ columns ∈ [["value"], ["value", "source"], ["value", "time"]],
        (plan columns).wellScoped = true ∧ (plan columns).fits = true := by decide +kernel
    exact query_sampleDatabase (hscoped columns h).1 (hscoped columns h).2
  have hresolved : ∀ q ∈ [time, source], q.IsResolved := by
    simp only [List.forall_mem_cons, List.not_mem_nil, IsEmpty.forall_iff, implies_true, and_true]
    exact ⟨⟨none, "point in time", none, by decide +kernel⟩,
      ⟨none, "Source", none, by decide +kernel⟩⟩
  have hvalue : BaseColumn.value.name ∈ ["value"] := by decide
  obtain ⟨hfurther, htime⟩ := rows_extended hresolved hvalue (by decide) (hplan ["value"])
    (hquery _ (by decide))
  obtain ⟨-, hkept, -⟩ := hfurther ["source"] _ _ (by decide +kernel) (hplan ["value", "source"])
    (hquery _ (by decide))
  obtain ⟨-, -, hdated⟩ := htime time (by decide) rfl _ _ (hplan ["value", "time"])
    (hquery _ (by decide))
  refine ⟨_, _, _, hplan _, hplan _, hplan _, hkept, (hdated dated).2 ⟨?_, ?_⟩, ?_⟩
  · decide +kernel
  · exact ⟨⟨"e-time", "e", "P585", "2020", .dateAndTime⟩, by decide +kernel⟩
  · decide +kernel

end Plan

end FactGraph
