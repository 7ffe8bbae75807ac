import Mathlib.Algebra.BigOperators.Group.List.Basic
import Mathlib.Data.List.Perm.Subperm
import FactGraph.Proofs.Query.Places

/-!
# How often a filtered row is repeated

A place filter joins the regions of the location at each level that it names, all of them. The
query has one row for every choice of a region at each level, or of none where there is none, among
which is one that is asked for. Whatever is shown is the same in all of them, so that a row of the
query without the filter is repeated as often as there are such choices
(`Plan.rows_filtered_perm`). **A filter repeats no row if no place has two regions at one level**;
otherwise it may (`Plan.rows_filtered_repeated`).
-/

namespace FactGraph

namespace Tables

/-- The edges that tell the regions of a node at a level. -/
def regionEdges (t : Tables) (node : Option String) (level : AdminLevel) : List Edge :=
  match node with
  | some node => t.edgesAbout node level.predicate
  | none => []

/-- The choices of a region of the node at a level that is none of these. Where there is no region,
the one choice is to have none. -/
def choicesAvoiding (t : Tables) (node : Option String) (level : AdminLevel)
    (ids : List String) : Nat :=
  if (t.regionEdges node level).isEmpty then 1
  else (t.regionEdges node level).countP fun x => x.node2 ∉ ids.map t.kept

/-- The choices of a region at each filtered level with one among them that is asked for. -/
def copies (t : Tables) (places : PlaceFilter) (node : Option String) : Nat :=
  if places.isEmpty then 1
  else (places.levels.map fun level => t.choicesAvoiding node level []).prod -
    (places.levels.map fun level => t.choicesAvoiding node level (places.ids level)).prod

variable {t : Tables} {node : Option String} {level : AdminLevel} {places : PlaceFilter}

theorem choicesAvoiding_nil (h : (t.regionEdges node level).length ≤ 1) :
    t.choicesAvoiding node level [] = 1 := by
  unfold choicesAvoiding
  split
  · rfl
  next hsome =>
    have hpos := List.length_pos_iff.2 (mt List.isEmpty_iff.2 hsome)
    simp only [List.map_nil, List.not_mem_nil, not_false_eq_true, decide_true, List.countP_true]
    omega

theorem copies_le_one
    (h : ∀ level ∈ places.levels, (t.regionEdges node level).length ≤ 1) :
    t.copies places node ≤ 1 := by
  unfold copies
  split
  · exact Nat.le_refl 1
  · have hone : (places.levels.map fun level => t.choicesAvoiding node level []).prod = 1 :=
      List.prod_eq_one fun n hn => by
        obtain ⟨level, hlevel, rfl⟩ := List.mem_map.1 hn
        exact choicesAvoiding_nil (h level hlevel)
    omega

end Tables

/-! ## Joins of regions -/

namespace Plan

/-- The join of the regions of a node at a level. -/
def placeJoin (node : Operand) (level : AdminLevel) : PlanJoin :=
  ⟨.left, .edges, .place level, .about (.place level) node level.predicate⟩

/-- A region at a level is chosen that is none of these. -/
def avoids (t : Tables) (env : Environment) (level : AdminLevel) (ids : List String) : Bool :=
  !env.isAmong t ⟨.place level, .node2⟩ ids

variable {t : Tables} {node : Operand} {level : AdminLevel} {env : Environment}

/-- The edges that are regions of a node at a level, in the order in which they are found. -/
def foundRegions (t : Tables) (node : Option String) (level : AdminLevel) : List Edge :=
  t.edgeList.filter fun x => node = some x.node1 ∧ x.label = t.kept level.predicate

theorem foundRegions_perm (node : Option String) :
    (foundRegions t node level).Perm (t.regionEdges node level) := by
  refine (t.edgeList_perm.filter _).trans (.of_eq ?_)
  cases node with
  | none => simp [Tables.regionEdges]
  | some node => simp [Tables.regionEdges, Tables.edgesAbout, eq_comm (a := node)]

theorem extend_placeJoin_eq (hnode : node.source ≠ .place level) :
    PlanJoin.extend t (t.records .edges) (placeJoin node level) env =
      if (foundRegions t (env.text? node) level).isEmpty then [(.place level, none) :: env]
      else (foundRegions t (env.text? node) level).map fun x =>
        (.place level, some (.edge x)) :: env := by
  have hfound : ((t.records .edges).map fun r => (Alias.place level, some r) :: env).filter
        (fun env => (Condition.about (.place level) node level.predicate).holds t env) =
      (foundRegions t (env.text? node) level).map fun x =>
        (.place level, some (.edge x)) :: env := by
    rw [Tables.records, List.map_map, List.filter_map, foundRegions]
    congr 1
    refine List.filter_congr fun x _ => ?_
    have hlookup : List.lookup (Alias.place level) ((.place level, some (.edge x)) :: env) =
        some (some (.edge x)) := List.lookup_cons_self
    have htext : Environment.text? ((.place level, some (.edge x)) :: env) node =
        env.text? node :=
      Environment.text?_congr (Environment.lookup_cons_of_ne hnode _ _)
    rw [Function.comp_apply, Bool.eq_iff_iff, decide_eq_true_iff]
    exact (Condition.holds_about_iff hlookup).trans (by rw [htext])
  simp only [PlanJoin.extend, placeJoin, hfound, List.isEmpty_map]

theorem countP_extend_placeJoin (hnode : node.source ≠ .place level) (ids : List String) :
    (PlanJoin.extend t (t.records .edges) (placeJoin node level) env).countP
        (avoids t · level ids) =
      t.choicesAvoiding (env.text? node) level ids := by
  have hperm : (foundRegions t (env.text? node) level).Perm
      (t.regionEdges (env.text? node) level) := foundRegions_perm _
  have hbound (x : Edge) : avoids t ((.place level, some (.edge x)) :: env) level ids =
      decide (x.node2 ∉ ids.map t.kept) := by
    have htext : Environment.text? ((.place level, some (.edge x)) :: env)
        ⟨.place level, .node2⟩ = some x.node2 :=
      Environment.text?_of_edge List.lookup_cons_self rfl
    rw [Bool.eq_iff_iff, decide_eq_true_iff, avoids, Bool.not_eq_true', ← Bool.not_eq_true,
      Condition.isAmong_iff, htext]
    simp [eq_comm]
  have hnone : avoids t ((.place level, none) :: env) level ids = true := by
    have htext : Environment.text? ((.place level, none) :: env) ⟨.place level, .node2⟩ = none := by
      simp [Environment.text?, Environment.cell, Cell.text?]
    simp [avoids, Environment.isAmong, htext]
  rw [extend_placeJoin_eq hnode, Tables.choicesAvoiding, hperm.isEmpty_eq]
  split
  · simp [hnone]
  · rw [List.countP_map, ← hperm.countP_eq]
    exact List.countP_congr fun x _ => by rw [Function.comp_apply, hbound]

theorem countP_flatMap_eq_mul {α β : Type} {p : β → Bool} {q : α → Bool} {f : α → List β}
    {n : Nat} {l : List α} (h : ∀ x ∈ l, (f x).countP p = if q x then n else 0) :
    (l.flatMap f).countP p = l.countP q * n := by
  induction l with
  | nil => simp
  | cons x l ih =>
    obtain ⟨hx, hl⟩ := List.forall_mem_cons.1 h
    rw [List.flatMap_cons, List.countP_append, hx, ih hl]
    by_cases hq : q x
    · rw [if_pos hq, List.countP_cons_of_pos hq, Nat.succ_mul, Nat.add_comm]
    · rw [if_neg hq, List.countP_cons_of_neg hq, Nat.zero_add]

/-- **Choices at several levels multiply.** -/
theorem countP_joined_placeJoin (levels : List AdminLevel) (hnodup : levels.Nodup)
    (hnode : ∀ level, node.source ≠ .place level) (ids : AdminLevel → List String)
    (env : Environment) :
    (t.joined (levels.map (placeJoin node)) env).countP
        (fun env => levels.all fun level => avoids t env level (ids level)) =
      (levels.map fun level => t.choicesAvoiding (env.text? node) level (ids level)).prod := by
  -- On the levels. What is counted at the others is the same for each choice at this one, so the
  -- counts multiply.
  induction levels generalizing env with
  | nil => simp [Tables.joined]
  | cons level levels ih =>
    obtain ⟨hnew, hrest⟩ := List.nodup_cons.1 hnodup
    have hsources : (levels.map (placeJoin node)).map (·.source) = levels.map Alias.place := by
      rw [List.map_map]
      rfl
    -- The choice at this level is made before those at the others, and they do not change it.
    have hstep : ∀ middle ∈ PlanJoin.extend t (t.records .edges) (placeJoin node level) env,
        (t.joined (levels.map (placeJoin node)) middle).countP
            (fun env => (level :: levels).all fun level => avoids t env level (ids level)) =
          if avoids t middle level (ids level) then
            (levels.map fun level => t.choicesAvoiding (env.text? node) level (ids level)).prod
          else 0 := by
      intro middle hmiddle
      have hkept : ∀ env' ∈ t.joined (levels.map (placeJoin node)) middle,
          avoids t env' level (ids level) = avoids t middle level (ids level) := by
        intro env' henv'
        rw [avoids, avoids, Environment.isAmong_congr (o := ⟨.place level, .node2⟩)
          (Tables.lookup_of_mem_joined henv' (by simpa [hsources] using hnew))]
      have htext : Environment.text? middle node = env.text? node := by
        obtain ⟨binding, rfl⟩ := PlanJoin.eq_cons_of_mem_extend hmiddle
        exact Environment.text?_congr (Environment.lookup_cons_of_ne (hnode level) _ _)
      rw [← htext, ← ih hrest middle]
      split
      next havoids =>
        refine List.countP_congr fun env' henv' => ?_
        rw [List.all_cons, hkept env' henv', havoids, Bool.true_and]
      next havoids =>
        refine List.countP_eq_zero.2 fun env' henv' => ?_
        rw [List.all_cons, hkept env' henv', Bool.and_eq_true]
        exact fun h => havoids h.1
    rw [List.map_cons, Tables.joined, List.map_cons, List.prod_cons,
      ← countP_extend_placeJoin (hnode level)]
    exact countP_flatMap_eq_mul hstep

theorem countP_holds_anyIn (hnode : ∀ level, node.source ≠ .place level) (places : PlaceFilter)
    (env : Environment) :
    (t.joined (places.levels.map (placeJoin node)) env).countP
        (fun env => (Condition.anyIn (placeAlternatives places)).holds t env) =
      t.copies places (env.text? node) := by
  have hnodup : places.levels.Nodup := (by decide : AdminLevel.all.Nodup).filter _
  have hmisses := countP_joined_placeJoin (t := t) places.levels hnodup hnode places.ids env
  have hall := countP_joined_placeJoin (t := t) places.levels hnodup hnode (fun _ => []) env
  unfold Tables.copies
  cases hplaces : places.isEmpty with
  | true =>
    have hlevels : places.levels = [] := List.isEmpty_iff.1 hplaces
    simp [hlevels, Tables.joined, placeAlternatives, Condition.holds]
  | false =>
    have hlevels : places.levels ≠ [] := List.isEmpty_eq_false_iff.1 hplaces
    have hholds (env : Environment) : (Condition.anyIn (placeAlternatives places)).holds t env =
        !places.levels.all fun level => avoids t env level (places.ids level) := by
      rw [Bool.eq_iff_iff, Condition.holds, Bool.or_eq_true, List.isEmpty_iff, placeAlternatives,
        List.map_eq_nil_iff, or_iff_right hlevels, List.any_map, List.any_eq_not_all_not]
      rfl
    have hlength : (t.joined (places.levels.map (placeJoin node)) env).length =
        (places.levels.map fun level => t.choicesAvoiding (env.text? node) level []).prod := by
      rw [← hall]
      refine (List.countP_eq_length.2 fun env' _ => ?_).symm
      exact List.all_eq_true.2 fun level _ => by simp [avoids, Environment.isAmong]
    -- All choices are those that avoid the regions at every level and those that do not.
    have hsplit := List.length_eq_countP_add_countP
      (fun env => places.levels.all fun level => avoids t env level (places.ids level))
      (l := t.joined (places.levels.map (placeJoin node)) env)
    rw [hmisses, hlength] at hsplit
    rw [if_neg Bool.false_ne_true, hsplit, Nat.add_sub_cancel_left]
    exact List.countP_congr fun env' _ => by simp [hholds]

/-! ## The joins that a filter adds -/

section Filtered

variable {property dataset : String} {qualifiers : List Qualifier} {columns : List String}
  {places : PlaceFilter} {limit : Int64} {e : Edge}

theorem locationNode_source_ne (location : Option Qualifier) (level : AdminLevel) :
    (locationNode location).source ≠ .place level := by
  cases location <;> exact fun h => nomatch h

theorem needs_everywhere :
    needs qualifiers columns .everywhere = columnNeeds qualifiers columns := by
  have hlevels : PlaceFilter.everywhere.levels = [] := rfl
  simp [needs, regionNeeds, levelNeeds, hlevels, PlaceFilter.everywhere_isEmpty]

theorem place_owner_not_mem (hnames : (qualifiers.map (·.name)).Nodup)
    (hall : JoinsAll qualifiers columns places) {level : AdminLevel}
    (hlevel : level ∈ places.levels) {need : Need}
    (hneed : need ∈ columnNeeds qualifiers columns ++
      regionNeeds (region? qualifiers) places) :
    need.owner ≠ "place_" ++ level.name := by
  intro howner
  have hplace : .place (locationNode (region? qualifiers)) level ∈
      needs qualifiers columns places := place_mem_needs.2 ⟨hlevel, rfl⟩
  have hmem : need ∈ needs qualifiers columns places := List.mem_append_left _ hneed
  -- With this owner the part would be joined under the name of the place, and then it would be that
  -- place.
  have hsame : need.fragment =
      (Need.place (locationNode (region? qualifiers)) level).fragment :=
    Fragment.eq_of_mem_firsts (hall _ hmem) (hall _ hplace) howner
  have horigin : (Alias.place level).origin? = some (need.isFixed, need.owner) := by
    refine Need.origin?_of_mem_sources ?_
    rw [hsame]
    exact List.mem_cons_self
  simp only [Alias.origin?, Option.some.injEq, Prod.mk.injEq] at horigin
  have := need_eq_of_owner_eq hnames hmem hplace horigin.1.symm howner
  exact place_not_mem (this ▸ hneed)

/-- **Where the region is joined for a column, a filter adds the joins of its levels.** -/
theorem joinedFragments_filtered (hnames : (qualifiers.map (·.name)).Nodup)
    (hall : JoinsAll qualifiers columns places)
    (hregion : ∀ q, region? qualifiers = some q →
      q ∈ neededQualifiers qualifiers columns .everywhere) :
    joinedFragments qualifiers columns places =
      joinedFragments qualifiers columns .everywhere ++
        places.levels.map (placeFragment (locationNode (region? qualifiers))) := by
  have hlevels : (levelNeeds (region? qualifiers) places).map Need.fragment =
      places.levels.map (placeFragment (locationNode (region? qualifiers))) := by
    rw [levelNeeds, List.map_map]
    rfl
  have hnodup : ((places.levels.map
      (placeFragment (locationNode (region? qualifiers)))).map Fragment.owner).Nodup := by
    rw [List.map_map]
    exact ((by decide : AdminLevel.all.Nodup).filter _).map fun _ _ h => place_owner_injective h
  have hregionLeft : (Fragment.firsts ((regionNeeds (region? qualifiers) places).map
      Need.fragment)).filter
        (·.owner ∉ ((columnNeeds qualifiers columns).map Need.fragment).map Fragment.owner) =
      [] := by
    refine List.filter_eq_nil_iff.2 fun f hf => ?_
    obtain ⟨need, hneed, rfl⟩ := List.mem_map.1 (Fragment.mem_of_mem_firsts hf)
    obtain ⟨-, q, hq, rfl⟩ := mem_regionNeeds.1 hneed
    have hmem := mem_neededQualifiers.1 (hregion q hq)
    rw [needs_everywhere] at hmem
    simpa using ⟨_, hmem, rfl⟩
  have hplaces : (places.levels.map
      (placeFragment (locationNode (region? qualifiers)))).filter
        (·.owner ∉ ((columnNeeds qualifiers columns ++
          regionNeeds (region? qualifiers) places).map Need.fragment).map
            Fragment.owner) =
      places.levels.map (placeFragment (locationNode (region? qualifiers))) := by
    refine List.filter_eq_self.2 fun f hf => ?_
    obtain ⟨level, hlevel, rfl⟩ := List.mem_map.1 hf
    refine decide_eq_true fun hmem => ?_
    rw [List.map_map] at hmem
    obtain ⟨need, hneed, howner⟩ := List.mem_map.1 hmem
    exact place_owner_not_mem hnames hall hlevel hneed howner
  rw [joinedFragments, joinedFragments, needs_everywhere, needs, List.map_append,
    Fragment.firsts_append, hlevels, Fragment.firsts_eq_self hnodup, hplaces, List.map_append,
    Fragment.firsts_append, hregionLeft, List.append_nil]

theorem joins_filtered (hnames : (qualifiers.map (·.name)).Nodup)
    (hall : JoinsAll qualifiers columns places)
    (hregion : ∀ q, region? qualifiers = some q →
      q ∈ neededQualifiers qualifiers columns .everywhere) :
    (assembled property dataset qualifiers columns places limit).joins =
      (assembled property dataset qualifiers columns .everywhere limit).joins ++
        places.levels.map (placeJoin (locationNode (region? qualifiers))) := by
  have hplaces : (places.levels.map
      (placeFragment (locationNode (region? qualifiers)))).flatMap (·.joins) =
      places.levels.map (placeJoin (locationNode (region? qualifiers))) := by
    rw [List.flatMap_map]
    exact List.map_eq_flatMap.symm
  rw [Select.joins, assembled, joinedFragments_filtered hnames hall hregion, List.flatMap_append,
    hplaces]
  rfl

theorem lookup_of_mem_placeJoins {env env' : Environment}
    (h : env' ∈ t.joined (places.levels.map (placeJoin node)) env) {a : Alias}
    (ha : ∀ level, a ≠ .place level) : env'.lookup a = env.lookup a := by
  refine Tables.lookup_of_mem_joined h fun hmem => ?_
  rw [List.map_map] at hmem
  obtain ⟨level, -, rfl⟩ := List.mem_map.1 hmem
  exact ha level rfl

theorem flatMap_filter {α β : Type} (p : α → Bool) (f : α → List β) (l : List α) :
    (l.filter p).flatMap f = l.flatMap fun x => if p x then f x else [] := by
  induction l with
  | nil => rfl
  | cons x l ih => by_cases hx : p x <;> simp [hx, ih]

/-- **A filter extends each environment by the choices that it admits.** -/
theorem environmentsOf_filtered (hnames : (qualifiers.map (·.name)).Nodup)
    (hall : JoinsAll qualifiers columns places)
    (hregion : ∀ q, region? qualifiers = some q →
      q ∈ neededQualifiers qualifiers columns .everywhere) :
    (assembled property dataset qualifiers columns places limit).environmentsOf t e =
      ((assembled property dataset qualifiers columns .everywhere limit).environmentsOf t
        e).flatMap fun env =>
          (t.joined (places.levels.map (placeJoin (locationNode (region? qualifiers))))
            env).filter fun env => (Condition.anyIn (placeAlternatives places)).holds t env := by
  rw [environmentsOf, environmentsOf, joins_filtered hnames hall hregion, Tables.joined_append,
    List.filter_flatMap, flatMap_filter]
  refine List.flatMap_congr fun env _ => ?_
  -- The joins of the levels do not touch what the other two conditions look at, so these can be
  -- checked first.
  have hkept (o : Operand) (text : String) (ho : ∀ level, o.source ≠ .place level) :
      ∀ env' ∈ t.joined (places.levels.map (placeJoin (locationNode (region? qualifiers)))) env,
        (Condition.equals o text).holds t env' = (Condition.equals o text).holds t env := by
    refine fun env' henv' => Condition.holds_congr fun a ha => ?_
    obtain rfl := List.mem_singleton.1 ha
    exact lookup_of_mem_placeJoins henv' ho
  have hlabel := hkept ⟨.observation, .label⟩ property fun _ h => nomatch h
  have hdataset := hkept ⟨.dataset, .node2⟩ dataset fun _ h => nomatch h
  have hfree : (Condition.anyIn (placeAlternatives .everywhere)).holds t env = true := rfl
  simp only [assembled, List.all_cons, List.all_nil, hfree, Bool.and_true]
  split
  next hmeets =>
    refine List.filter_congr fun env' henv' => ?_
    rw [hlabel env' henv', hdataset env' henv', ← Bool.and_assoc, hmeets, Bool.true_and]
  next hfails =>
    refine List.filter_eq_nil_iff.2 fun env' henv' => ?_
    rw [hlabel env' henv', hdataset env' henv', ← Bool.and_assoc, Bool.eq_false_iff.2 hfails,
      Bool.false_and]
    exact Bool.false_ne_true

theorem place_not_mem_sources {shown : String × Expr}
    (h : shown ∈ shownColumns qualifiers columns) (level : AdminLevel) :
    .place level ∉ shown.2.sources := by
  intro hplace
  obtain rfl | ⟨column, -, hshown⟩ := mem_shownColumns h
  · exact nomatch List.mem_singleton.1 hplace
  · rcases mem_sources_of_shown? hshown hplace with hobs | hbase | ⟨need, hneed, hmem⟩
    · exact nomatch hobs
    · simp [Need.sources_base] at hbase
    · obtain rfl | ⟨q, -, rfl⟩ := columnNeed?_cases hneed
      · simp [Need.sources_subject] at hmem
      · exact nomatch Need.origin?_of_mem_sources hmem

theorem rowOf_of_mem_placeJoins {env env' : Environment}
    (h : env' ∈ t.joined (places.levels.map (placeJoin node)) env) :
    (assembled property dataset qualifiers columns places limit).rowOf env' =
      (assembled property dataset qualifiers columns .everywhere limit).rowOf env := by
  refine List.map_congr_left fun shown hshown => Expr.eval_congr fun a ha =>
    lookup_of_mem_placeJoins h fun level hlevel => ?_
  exact place_not_mem_sources hshown level (hlevel ▸ ha)

/-- **An edge contributes each of its rows as often as there are choices that a filter admits.** -/
theorem rowsOf_filtered (hnames : (qualifiers.map (·.name)).Nodup)
    (hall : JoinsAll qualifiers columns places)
    (hregion : ∀ q, region? qualifiers = some q →
      q ∈ neededQualifiers qualifiers columns .everywhere) :
    (assembled property dataset qualifiers columns places limit).rowsOf t e =
      ((assembled property dataset qualifiers columns .everywhere limit).environmentsOf t
        e).flatMap fun env =>
          List.replicate (t.copies places (env.text? (locationNode (region? qualifiers))))
            ((assembled property dataset qualifiers columns .everywhere limit).rowOf env) := by
  rw [rowsOf, environmentsOf_filtered hnames hall hregion, List.map_flatMap]
  refine List.flatMap_congr fun env _ => List.eq_replicate_iff.2 ⟨?_, fun row hrow => ?_⟩
  · rw [List.length_map, ← List.countP_eq_length_filter]
    exact countP_holds_anyIn (locationNode_source_ne _) places env
  · obtain ⟨env', henv', rfl⟩ := List.mem_map.1 hrow
    exact rowOf_of_mem_placeJoins (List.mem_of_mem_filter henv')

end Filtered

/-! ## Queries with and without a filter -/

variable {db : Database} {property dataset : String} {qualifiers : List Qualifier}
  {columns : List String} {places : PlaceFilter} {limit : Int64} {filtered unfiltered : Plan}
  {rows all : List (List Cell)}

theorem flatMap_replicate_sublist {α β : Type} (copies : α → Nat) (f : α → β) (l : List α)
    (h : ∀ x ∈ l, copies x ≤ 1) :
    (l.flatMap fun x => List.replicate (copies x) (f x)).Sublist (l.map f) := by
  induction l with
  | nil => exact .slnil
  | cons x l ih =>
    obtain ⟨hx, hl⟩ := List.forall_mem_cons.1 h
    rw [List.flatMap_cons, List.map_cons]
    rcases Nat.le_one_iff_eq_zero_or_eq_one.1 hx with hnone | hone
    · rw [hnone]
      exact (ih hl).cons _
    · rw [hone]
      exact (ih hl).cons_cons _

/-- **A filtered query repeats each row of the query without the filter as often as there are
choices of a region at each level that is filtered, or of none where there is none, with one among
them that is asked for.** The region has to be joined for a column, so that its own edges are
counted in both queries. Where no node has two regions at a level, no row is repeated. -/
theorem rows_filtered_perm (hlimit : limit.toInt ≤ 0)
    (hregion : ∀ q, region? qualifiers = some q →
      q ∈ neededQualifiers qualifiers columns .everywhere)
    (hfiltered : ofRequest property dataset qualifiers columns places limit = .ok filtered)
    (hunfiltered : ofRequest property dataset qualifiers columns .everywhere limit =
      .ok unfiltered)
    (hrows : db.query filtered = .ok rows) (hall : db.query unfiltered = .ok all) :
    let t := db.tables
    rows.Perm ((unfiltered.selected t).flatMap fun env =>
      List.replicate (t.copies places (env.text? (locationNode (region? qualifiers))))
        (unfiltered.rowOf env)) ∧
    all = (unfiltered.selected t).map unfiltered.rowOf ∧
    ((∀ level ∈ places.levels, ∀ node, (t.edgesAbout node level.predicate).length ≤ 1) →
      rows.Subperm all) := by
  intro t
  obtain ⟨hnames, hjoins, rfl, hperm⟩ := of_ofRequest_query hfiltered hlimit hrows
  obtain ⟨-, -, rfl, -⟩ := of_ofRequest_query hunfiltered hlimit hall
  obtain ⟨-, rfl⟩ := Database.of_query_eq_ok hall
  have hcopies : rows.Perm
      (((assembled property dataset qualifiers columns .everywhere limit).selected t).flatMap
        fun env =>
          List.replicate (t.copies places (env.text? (locationNode (region? qualifiers))))
            ((assembled property dataset qualifiers columns .everywhere limit).rowOf env)) := by
    have hselected := selected_perm
      (assembled property dataset qualifiers columns .everywhere limit) t (if_neg (by omega))
    rw [environments_eq] at hselected
    refine hperm.trans (.trans ?_ ((hselected.trans
      (t.edgeList_perm.flatMap_right _)).symm.flatMap_right _))
    rw [List.flatMap_assoc]
    exact .of_eq (List.flatMap_congr fun e _ => rowsOf_filtered hnames hjoins hregion)
  refine ⟨hcopies, rfl, fun hfew => hcopies.subperm.trans ?_⟩
  refine (flatMap_replicate_sublist _ _ _ fun env _ => ?_).subperm
  refine Tables.copies_le_one fun level hlevel => ?_
  cases env.text? (locationNode (region? qualifiers)) with
  | none => exact Nat.zero_le _
  | some node => exact hfew level hlevel node

/-- A location with one country: the filter repeats no row. -/
theorem rows_filtered_perm_country :
    let location : Qualifier := ⟨"location", "P276", .location, true, true⟩
    let db := sampleDatabase [⟨"e", "Q1", "P10", "5", .quantity⟩,
      ⟨"e-dataset", "e", Vocabulary.dataset, "Q99", .symbol⟩,
      ⟨"e-location", "e", "P276", "Q500", .symbol⟩, ⟨"country", "Q500", "P17", "Q30", .symbol⟩]
    Qualifier.resolve "P276" none "location" none = .ok location ∧
    ∃ filtered unfiltered rows all,
      ofRequest "P10" "Q99" [location] ["location_id"] ⟨["Q30"], [], [], []⟩ 0 = .ok filtered ∧
      ofRequest "P10" "Q99" [location] ["location_id"] .everywhere 0 = .ok unfiltered ∧
      db.query filtered = .ok rows ∧ db.query unfiltered = .ok all ∧ rows.Subperm all := by
  intro location db
  let filtered := assembled "P10" "Q99" [location] ["location_id"] ⟨["Q30"], [], [], []⟩ 0
  let unfiltered := assembled "P10" "Q99" [location] ["location_id"] .everywhere 0
  have hfiltered : ofRequest "P10" "Q99" [location] ["location_id"] ⟨["Q30"], [], [], []⟩ 0 =
      .ok filtered := (ofRequest_eq_ok_iff _).2 ⟨by decide +kernel, rfl⟩
  have hunfiltered : ofRequest "P10" "Q99" [location] ["location_id"] .everywhere 0 =
      .ok unfiltered := (ofRequest_eq_ok_iff _).2 ⟨by decide +kernel, rfl⟩
  have hrows : db.query filtered = .ok (filtered.rows db.tables) :=
    query_sampleDatabase (by decide +kernel) (by decide +kernel)
  have hall : db.query unfiltered = .ok (unfiltered.rows db.tables) :=
    query_sampleDatabase (by decide +kernel) (by decide +kernel)
  have hregion : ∀ q, region? [location] = some q →
      q ∈ neededQualifiers [location] ["location_id"] .everywhere := by
    intro q hq
    rw [← Option.some.inj (show some location = some q from hq)]
    decide +kernel
  have hone : ∀ level ∈ AdminLevel.all,
      db.tables.edges.rows.countP (·.label = db.tables.kept level.predicate) ≤ 1 := by
    decide +kernel
  obtain ⟨-, -, hsub⟩ :=
    rows_filtered_perm (by decide) hregion hfiltered hunfiltered hrows hall
  refine ⟨by decide +kernel, filtered, unfiltered, _, _, hfiltered, hunfiltered, hrows, hall,
    hsub fun level hlevel node => ?_⟩
  refine Nat.le_trans ?_ (hone level (List.mem_of_mem_filter hlevel))
  rw [Tables.edgesAbout, ← List.countP_eq_length_filter]
  exact List.countP_mono_left fun x _ hx => by simpa using (of_decide_eq_true hx).2

/-- A subject in two countries, which has one row for each of them. -/
theorem rows_filtered_repeated :
    let db := sampleDatabase [⟨"e", "Q1", "P10", "5", .quantity⟩,
      ⟨"e-dataset", "e", Vocabulary.dataset, "Q99", .symbol⟩,
      ⟨"north", "Q1", "P17", "Q30", .symbol⟩, ⟨"south", "Q1", "P17", "Q31", .symbol⟩]
    ∃ filtered unfiltered rows all,
      ofRequest "P10" "Q99" [] ["value"] ⟨["Q30", "Q31"], [], [], []⟩ 0 = .ok filtered ∧
      ofRequest "P10" "Q99" [] ["value"] .everywhere 0 = .ok unfiltered ∧
      db.query filtered = .ok rows ∧ db.query unfiltered = .ok all ∧
      rows.length = 2 ∧ all.length = 1 ∧ ¬rows.Subperm all := by
  intro db
  let filtered := assembled "P10" "Q99" [] ["value"] ⟨["Q30", "Q31"], [], [], []⟩ 0
  let unfiltered := assembled "P10" "Q99" [] ["value"] .everywhere 0
  have htwo : (filtered.rows db.tables).length = 2 := by
    rw [(rows_perm filtered db.tables rfl).length_eq]
    decide +kernel
  have hone : (unfiltered.rows db.tables).length = 1 := by
    rw [(rows_perm unfiltered db.tables rfl).length_eq]
    decide +kernel
  refine ⟨filtered, unfiltered, _, _, (ofRequest_eq_ok_iff _).2 ⟨by decide +kernel, rfl⟩,
    (ofRequest_eq_ok_iff _).2 ⟨by decide +kernel, rfl⟩,
    query_sampleDatabase (by decide +kernel) (by decide +kernel),
    query_sampleDatabase (by decide +kernel) (by decide +kernel), htwo, hone, fun hsub => ?_⟩
  have hle := hsub.length_le
  rw [htwo, hone] at hle
  exact absurd hle (by decide)

end Plan

end FactGraph
