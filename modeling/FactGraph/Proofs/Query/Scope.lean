import FactGraph.Proofs.Query.Owner

/-!
# The scope of plans

A query may use a name only where a table is joined under it. The plan of a request joins no two
tables under one name, whatever its qualifiers are called: each name tells the part that it belongs
to, and no part is joined twice (`Plan.nodup_sources_assembled`).

Each part gives some name that the query uses, so a plan that is well scoped has joined them all.
Where a part was left out for its owner, its names are used although they are not joined. **A plan
is well scoped exactly if no qualifier that it needs is called like another owner that it needs**
(`Plan.wellScoped_ofRequest_iff`).
-/

namespace FactGraph.Plan

variable {qualifiers : List Qualifier} {columns : List String} {places : PlaceFilter}
  {column : String} {expr : Expr} {need : Need} {a : Alias}

/-! ## What well scoped means -/

theorem wellScoped_iff {plan : Plan} :
    plan.wellScoped = true ↔
      joinsScoped [plan.base] plan.joins = true ∧
      (∀ column ∈ plan.columns, column.2.sources ⊆ sources plan) ∧
      (∀ condition ∈ plan.conditions, condition.sources ⊆ sources plan) ∧
      ∀ expr ∈ plan.order, expr.sources ⊆ sources plan := by
  simp only [wellScoped, Bool.and_eq_true, List.all_append, List.all_flatMap, List.all_eq_true,
    decide_eq_true_eq, List.subset_def, and_assoc]

theorem mem_sources {plan : Plan} :
    a ∈ sources plan ↔ a = plan.base ∨ ∃ f ∈ plan.fragments, a ∈ f.sources := by
  simp only [sources, Select.joins, Fragment.sources, List.map_flatMap, List.mem_cons,
    List.mem_flatMap]

/-! ## The names of a plan -/

theorem observation_not_mem_sources (need : Need) : .observation ∉ need.fragment.sources :=
  fun h => nomatch Need.origin?_of_mem_sources h

variable {property dataset : String} {limit : Int64}

/-- **No two tables are joined under one name.** -/
theorem nodup_sources_assembled :
    (sources (assembled property dataset qualifiers columns places limit)).Nodup := by
  have horigin {f : JoinFragment} (hf : f ∈ joinedFragments qualifiers columns places)
      {a : Alias} (ha : a ∈ f.sources) : ∃ isFixed, a.origin? = some (isFixed, f.owner) := by
    obtain ⟨need, -, rfl⟩ := exists_need_of_mem_joinedFragments hf
    exact ⟨_, Need.origin?_of_mem_sources ha⟩
  -- Joined fragments have different owners, and a name tells its owner.
  have hdisjoint : (joinedFragments qualifiers columns places).Pairwise
      fun f g => f.sources.Disjoint g.sources := by
    refine (List.pairwise_map.1 (Fragment.nodup_owners_firsts _)).imp_of_mem
      fun {f g} hf hg howner a ha hmem => ?_
    obtain ⟨first, hfirst⟩ := horigin hf ha
    obtain ⟨second, hsecond⟩ := horigin hg hmem
    have hboth := hfirst.symm.trans hsecond
    simp only [Option.some.injEq, Prod.mk.injEq] at hboth
    exact howner hboth.2
  have hsources : (assembled property dataset qualifiers columns places limit).joins.map
      (·.source) = (joinedFragments qualifiers columns places).flatMap Fragment.sources :=
    List.map_flatMap
  rw [sources, hsources, List.nodup_cons]
  refine ⟨fun hmem => ?_, List.nodup_flatMap.2 ⟨fun f hf => ?_, hdisjoint⟩⟩
  · obtain ⟨f, hf, hobs⟩ := List.mem_flatMap.1 hmem
    obtain ⟨isFixed, hnone⟩ := horigin hf hobs
    exact nomatch hnone
  · obtain ⟨need, -, rfl⟩ := exists_need_of_mem_joinedFragments hf
    exact need.nodup_sources

/-- A plan that is well scoped has all its parts: each of them gives some name that is used. -/
theorem joinsAll_of_wellScoped (hnames : (qualifiers.map (·.name)).Nodup)
    (h : (assembled property dataset qualifiers columns places limit).wellScoped = true) :
    JoinsAll qualifiers columns places := by
  obtain ⟨hjoins, hcolumns, hconditions, -⟩ := wellScoped_iff.1 h
  have hpart {need : Need} (hneed : need ∈ needs qualifiers columns places) {a : Alias}
      (ha : a ∈ need.fragment.sources)
      (hused : a ∈ sources (assembled property dataset qualifiers columns places limit)) :
      need.fragment ∈ joinedFragments qualifiers columns places := by
    refine fragment_mem_of_source hnames hneed ha ((mem_sources.1 hused).resolve_left ?_)
    rintro rfl
    exact observation_not_mem_sources need ha
  have hlevel {level : AdminLevel} (hlevel : level ∈ places.levels) {node : Operand}
      (hneed : .place node level ∈ needs qualifiers columns places) :
      (Need.place node level).fragment ∈ joinedFragments qualifiers columns places := by
    refine hpart hneed (a := .place level) (by simp [Need.sources_place])
      (hconditions _ (List.mem_cons_of_mem _ (List.mem_cons_of_mem _ List.mem_cons_self)) ?_)
    simpa [Condition.sources, placeAlternatives] using hlevel
  intro need hneed
  -- What every query has is used by the restriction to the dataset, a part for a column by what the
  -- column shows, a region by the joins of its places, and a place by the filter.
  rcases mem_needs.1 hneed with rfl | ⟨column, hcolumn, hasked⟩ | hregion | hplace
  · exact hpart hneed (a := .dataset) (by decide)
      (hconditions _ (List.mem_cons_of_mem _ List.mem_cons_self) (by simp [Condition.sources]))
  · obtain ⟨expr, a, hshown, hexpr, ha⟩ := exists_source_of_columnNeed? hasked
    refine hpart hneed ha (hcolumns (column, expr) ?_ hexpr)
    have hknown : (column, expr) ∈ (requested qualifiers columns).filterMap fun column =>
        (shown? qualifiers column).map (column, ·) :=
      List.mem_filterMap.2 ⟨column, hcolumn, by rw [hshown]; rfl⟩
    show (column, expr) ∈ shownColumns qualifiers columns
    rw [shownColumns, if_neg (by simpa using List.ne_nil_of_mem hknown)]
    exact hknown
  · -- The region gives the node of the places, of which there is one that is joined.
    obtain ⟨hplaces, q, hq, rfl⟩ := mem_regionNeeds.1 hregion
    obtain ⟨level, hmem⟩ := List.exists_mem_of_ne_nil _ (List.isEmpty_eq_false_iff.1 hplaces)
    have hjoined : placeFragment q.node level ∈ joinedFragments qualifiers columns places :=
      hlevel hmem (place_mem_needs.2 ⟨hmem, by rw [hq]; rfl⟩)
    refine hpart hneed (a := q.source .edge) (by simp [Need.sources_qualifier])
      (List.mem_cons.2 ((mem_of_joinsScoped hjoins (List.mem_flatMap.2 ⟨_, hjoined,
        List.mem_singleton_self _⟩) ?_).imp_left List.mem_singleton.1))
    simp [Condition.sources, Qualifier.node]
  · obtain ⟨level, hmem, rfl⟩ := List.mem_map.1 hplace
    exact hlevel hmem hneed

/-- The qualifier that tells the location is joined before its regions are. -/
theorem joinsScoped_assembled (h : JoinsAll qualifiers columns places) :
    joinsScoped [.observation]
      (assembled property dataset qualifiers columns places limit).joins = true := by
  let location := region? qualifiers
  let before := columnNeeds qualifiers columns ++ regionNeeds location places
  -- The joins of places come after all others, so that the node which they are about is joined.
  have hsplit : joinedFragments qualifiers columns places =
      Fragment.firsts (before.map Need.fragment) ++
        (Fragment.firsts ((levelNeeds location places).map Need.fragment)).filter
          (·.owner ∉ (before.map Need.fragment).map Fragment.owner) := by
    rw [joinedFragments, needs, List.map_append, Fragment.firsts_append]
  show joinsScoped _ ((joinedFragments qualifiers columns places).flatMap (·.joins)) = true
  rw [hsplit, List.flatMap_append, joinsScoped_append, Bool.and_eq_true]
  constructor
  · refine joinsScoped_flatMap fun f hf => ?_
    obtain ⟨need, hneed, rfl⟩ := List.mem_map.1 (Fragment.mem_of_mem_firsts hf)
    exact need.scoped List.mem_cons_self fun node level hplace =>
      absurd (hplace ▸ hneed) place_not_mem
  · refine joinsScoped_flatMap fun f hf => ?_
    obtain ⟨need, hneed, rfl⟩ :=
      List.mem_map.1 (Fragment.mem_of_mem_firsts (List.mem_of_mem_filter hf))
    refine need.scoped (List.mem_append_right _ List.mem_cons_self) fun node level hplace => ?_
    obtain ⟨found, hlevel, hfound⟩ := List.mem_map.1 hneed
    obtain rfl : locationNode location = node := (Need.place.inj (hfound.trans hplace)).1
    cases hlocation : location with
    | none => exact List.mem_append_right _ List.mem_cons_self
    | some q =>
      have hplaces : places.isEmpty = false :=
        List.isEmpty_eq_false_iff.2 (List.ne_nil_of_mem hlevel)
      have hregion : .qualifier q ∈ before :=
        List.mem_append_right _ (mem_regionNeeds.2 ⟨hplaces, q, hlocation, rfl⟩)
      obtain ⟨f, hf, howner⟩ := Fragment.exists_mem_firsts
        (List.mem_map.2 ⟨_, hregion, rfl⟩ : (Need.qualifier q).fragment ∈ _)
      have hjoined : f ∈ joinedFragments qualifiers columns places := by
        rw [hsplit]
        exact List.mem_append_left _ hf
      obtain rfl : f = (Need.qualifier q).fragment :=
        Fragment.eq_of_mem_firsts hjoined (h _ (List.mem_append_left _ hregion)) howner
      refine List.mem_append_left _ (List.mem_reverse.2 (List.mem_map.2 ⟨q.edgeJoin, ?_, rfl⟩))
      exact List.mem_flatMap.2 ⟨_, hf, List.mem_cons_self⟩

theorem mem_shownColumns {shown : String × Expr}
    (h : shown ∈ shownColumns qualifiers columns) :
    shown = (BaseColumn.subjectId.name, BaseColumn.subjectId.expr) ∨
      ∃ column ∈ requested qualifiers columns, shown? qualifiers column = some shown.2 := by
  simp only [shownColumns] at h
  split at h
  · exact .inl (List.mem_singleton.1 h)
  · obtain ⟨column, hcolumn, hshown⟩ := List.mem_filterMap.1 h
    obtain ⟨expr, hexpr, rfl⟩ := Option.map_eq_some_iff.1 hshown
    exact .inr ⟨column, hcolumn, hexpr⟩

theorem shown?_name (base : BaseColumn) : shown? qualifiers base.name = some base.expr := by
  cases base <;> rfl

theorem shown?_of_mem_columns
    (h : (column, expr) ∈ (assembled property dataset qualifiers columns places limit).columns) :
    shown? qualifiers column = some expr := by
  simp only [assembled, shownColumns] at h
  split at h
  · obtain ⟨rfl, rfl⟩ := Prod.mk.inj (List.mem_singleton.1 h)
    exact shown?_name .subjectId
  · obtain ⟨_, -, hshown⟩ := List.mem_filterMap.1 h
    obtain ⟨_, hexpr, heq⟩ := Option.map_eq_some_iff.1 hshown
    obtain ⟨rfl, rfl⟩ := Prod.mk.inj heq
    exact hexpr

theorem timeOrder_sources_subset (hnames : (qualifiers.map (·.name)).Nodup)
    (h : JoinsAll qualifiers columns places) {expr : Expr}
    (hexpr : expr ∈ timeOrder qualifiers ((needs qualifiers columns places).map Need.owner)) :
    ∃ f ∈ joinedFragments qualifiers columns places, expr.sources ⊆ f.sources := by
  unfold timeOrder at hexpr
  split at hexpr
  next time htime =>
    have hname : time.name = Qualifier.timeName := by simpa using List.find?_some htime
    split at hexpr
    next howner =>
      obtain rfl := List.mem_singleton.1 hexpr
      obtain ⟨need, hneed, hsame⟩ := List.mem_map.1 howner
      refine ⟨_, h _ hneed, ?_⟩
      cases need with
      | base => exact absurd (hsame.trans hname) (by decide)
      | subject => exact absurd (hsame.trans hname) (by decide)
      | place node level => exact absurd (hsame.trans hname) (place_owner_ne level).2.2
      | qualifier q =>
        obtain rfl := List.inj_on_of_nodup_map hnames (mem_of_qualifier_mem_needs hneed)
          (List.mem_of_find?_eq_some htime) hsame
        exact Qualifier.sources_subset_of_mem_fields
          (List.mem_cons_self : (q.name, q.valueExpr) ∈ q.fields)
    next => simp at hexpr
  next => simp at hexpr

theorem wellScoped_of_joinsAll (hnames : (qualifiers.map (·.name)).Nodup)
    (h : JoinsAll qualifiers columns places) :
    (assembled property dataset qualifiers columns places limit).wellScoped = true := by
  have hobs : .observation ∈
      sources (assembled property dataset qualifiers columns places limit) := List.mem_cons_self
  have hpart {need : Need} (hneed : need ∈ needs qualifiers columns places) :
      need.fragment.sources ⊆
        sources (assembled property dataset qualifiers columns places limit) :=
    fun a ha => mem_sources.2 (.inr ⟨_, h _ hneed, ha⟩)
  have hbase := hpart (mem_needs.2 (.inl rfl))
  -- Columns, conditions and order use names of parts of the request, and all of these are joined.
  refine wellScoped_iff.2 ⟨joinsScoped_assembled h, ?_, ?_, ?_⟩
  · intro column hcolumn a ha
    obtain rfl | ⟨name, hname, hshown⟩ := mem_shownColumns hcolumn
    · obtain rfl := List.mem_singleton.1 ha
      exact hobs
    · rcases mem_sources_of_shown? hshown ha with rfl | hmem | ⟨need, hneed, hmem⟩
      · exact hobs
      · exact hbase hmem
      · exact hpart (mem_needs.2 (.inr (.inl ⟨name, hname, hneed⟩))) hmem
  · intro condition hcondition
    simp only [assembled, List.mem_cons, List.not_mem_nil, or_false] at hcondition
    rcases hcondition with rfl | rfl | rfl
    · simpa [Condition.sources] using hobs
    · simpa [Condition.sources] using hbase (by decide : .dataset ∈ _)
    · intro a ha
      obtain ⟨alternative, halternative, rfl⟩ := List.mem_map.1 ha
      obtain ⟨level, hlevel, rfl⟩ := List.mem_map.1 halternative
      exact hpart (place_mem_needs.2 ⟨hlevel, rfl⟩) List.mem_cons_self
  · intro expr hexpr
    simp only [assembled, List.cons_append, List.mem_cons, List.mem_append, List.not_mem_nil,
      or_false] at hexpr
    rcases hexpr with rfl | hexpr | rfl
    · simpa [Expr.sources] using hobs
    · obtain ⟨f, hf, hsub⟩ := timeOrder_sources_subset hnames h hexpr
      exact fun a ha => mem_sources.2 (.inr ⟨f, hf, hsub ha⟩)
    · simpa [Expr.sources] using hobs

/-! ## Plans of requests -/

/-- **No two tables are joined under one name, and every name that is used is joined before it is
used, exactly if no qualifier that is needed is called like another owner that is needed.** -/
theorem wellScoped_ofRequest_iff {plan : Plan}
    (h : ofRequest property dataset qualifiers columns places limit = .ok plan) :
    ((sources plan).map Alias.sql).Nodup ∧
      (plan.wellScoped = true ↔ ∀ q ∈ neededQualifiers qualifiers columns places,
        q.name ∉ fixedOwners qualifiers columns places) := by
  obtain ⟨hcheck, rfl⟩ := (ofRequest_eq_ok_iff qualifiers).1 h
  have hnames := nodup_names_of_checkQualifiers hcheck
  refine ⟨nodup_sources_assembled.map Alias.sql_injective, ?_⟩
  rw [← joinsAll_iff hnames]
  exact ⟨joinsAll_of_wellScoped hnames, wellScoped_of_joinsAll hnames⟩

/-- A query for values and times in countries and cities needs the qualifiers of time and location,
and neither is called like another part. -/
theorem wellScoped_ofRequest_iff_located :
    let time : Qualifier := ⟨"time", "P585", .stored .dateAndTime, false, false⟩
    let location : Qualifier := ⟨"location", "P276", .location, true, true⟩
    Qualifier.resolve "P585" none "point in time" none = .ok time ∧
    Qualifier.resolve "P276" none "location" none = .ok location ∧
    ∃ plan, ofRequest "P10" "Q99" [time, location] ["value", "time"] ⟨["Q30"], [], [], ["Q40"]⟩ 5 =
        .ok plan ∧
      ((sources plan).map Alias.sql).Nodup ∧ plan.wellScoped = true := by
  intro time location
  obtain ⟨plan, hplan⟩ : ∃ plan, ofRequest "P10" "Q99" [time, location] ["value", "time"]
      ⟨["Q30"], [], [], ["Q40"]⟩ 5 = .ok plan := ⟨_, rfl⟩
  have hnames : ∀ q ∈ neededQualifiers [time, location] ["value", "time"]
      ⟨["Q30"], [], [], ["Q40"]⟩, q.name ∉ fixedOwners [time, location] ["value", "time"]
        ⟨["Q30"], [], [], ["Q40"]⟩ := by decide +kernel
  obtain ⟨hnodup, hiff⟩ := wellScoped_ofRequest_iff hplan
  exact ⟨by decide +kernel, by decide +kernel, plan, hplan, hnodup, hiff.2 hnames⟩

/-- A qualifier that is labelled `Base` has no joins, since every query has an owner of that
name. -/
theorem wellScoped_ofRequest_base :
    let base : Qualifier := ⟨"base", "P77", .stored .string, true, false⟩
    Qualifier.resolve "P77" none "Base" (some .string) = .ok base ∧
    ∃ plan, ofRequest "P10" "Q99" [base] ["base"] ⟨[], [], [], []⟩ 0 = .ok plan ∧
      plan.wellScoped = false := by
  intro base
  exact ⟨by decide +kernel, _, rfl, by decide +kernel⟩

end FactGraph.Plan
