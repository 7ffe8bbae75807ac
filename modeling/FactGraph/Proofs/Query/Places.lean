import FactGraph.Proofs.Query.Join

/-!
# Filtering by place

Which edges contribute rows to the query of a request can be told without its joins
(`Plan.environmentsOf_ne_nil_iff`): the observations of the property in the dataset that have a
quantity and the mandatory ones of the qualifiers that are needed and, if places are filtered, a
location that lies in one of the regions. Labels and optional qualifiers make no difference, as
their joins are left ones.

So **a place filter selects exactly the observations with a location in one of the regions**
(`Plan.rowsOf_filtered_iff`).
-/

namespace FactGraph

/-! ## Places -/

/-- The filter that names no region. -/
def PlaceFilter.everywhere : PlaceFilter := ⟨[], [], [], []⟩

theorem PlaceFilter.everywhere_isEmpty : everywhere.isEmpty = true := rfl

theorem PlaceFilter.mem_levels {places : PlaceFilter} {level : AdminLevel} :
    level ∈ places.levels ↔ places.ids level ≠ [] := by
  have hall : level ∈ AdminLevel.all := by cases level <;> decide
  simp [levels, hall]

namespace Tables

/-- The edges of a stored node with a label. -/
def edgesAbout (t : Tables) (node label : String) : List Edge :=
  t.edges.rows.filter fun x => x.node1 = node ∧ x.label = t.kept label

/-- The locations of an observation: those that its region tells, or else its subject. -/
def locations (t : Tables) (region : Option Qualifier) (e : Edge) : List String :=
  match region with
  | some q => (t.edgesAbout e.id q.predicate).map Edge.node2
  | none => [e.node1]

/-- The node has, at some level, one of the regions that are asked for there. Texts are as the
store keeps them. -/
def LiesIn (t : Tables) (places : PlaceFilter) (node : String) : Prop :=
  ∃ level, ∃ x ∈ t.edgesAbout node level.predicate, ∃ id ∈ places.ids level, x.node2 = t.kept id

/-- The edge is an observation of the property in the dataset, and has the mandatory ones of these
qualifiers. -/
structure IsObservation (t : Tables) (property dataset : String) (needed : List Qualifier)
    (e : Edge) : Prop where
  label : e.label = t.kept property
  quantity : ∃ row ∈ (t.values .quantity).rows, row.edgeId = e.id
  linked : ∃ link ∈ t.edgesAbout e.id Vocabulary.dataset, link.node2 = t.kept dataset
  qualified : ∀ q ∈ needed, q.isOptional = false → ∃ x, x ∈ t.edgesAbout e.id q.predicate

variable {t : Tables} {node label : String} {x : Edge}

theorem mem_edgesAbout :
    x ∈ t.edgesAbout node label ↔ x ∈ t.edges.rows ∧ x.node1 = node ∧ x.label = t.kept label := by
  simp [edgesAbout]

end Tables

/-! ## Conditions on records -/

theorem Environment.text?_of_edge {env : Environment} {a : Alias} {x : Edge} {column : Column}
    {text : String} (hx : env.lookup a = some (some (.edge x)))
    (hcell : Record.edgeCell x column = .text text) : env.text? ⟨a, column⟩ = some text := by
  rw [text?_of_lookup (o := ⟨a, column⟩) hx, Record.cell, hcell]
  rfl

namespace Condition

variable {t : Tables} {env : Environment} {edge : Alias} {node : Operand} {label : String}

theorem holds_about_iff {x : Edge} (hx : env.lookup edge = some (some (.edge x))) :
    (about edge node label).holds t env = true ↔
      env.text? node = some x.node1 ∧ x.label = t.kept label := by
  have hnode1 : env.text? ⟨edge, .node1⟩ = some x.node1 := Environment.text?_of_edge hx rfl
  have hlabel : env.text? ⟨edge, .label⟩ = some x.label := Environment.text?_of_edge hx rfl
  simp [holds, Environment.sameText_iff, Environment.isText, hnode1, hlabel]

theorem holds_valueOf_iff {kind : ValueKind} {row : ValueRow kind} {value : Alias}
    (hrow : env.lookup value = some (some (.value row))) :
    (valueOf value edge).holds t env = true ↔ env.text? ⟨edge, .id⟩ = some row.edgeId := by
  have hid : env.text? ⟨value, .edgeId⟩ = some row.edgeId :=
    Environment.text?_of_lookup (o := ⟨value, .edgeId⟩) hrow
  simp [holds, Environment.sameText_iff, hid]

theorem holds_equals_iff {o : Operand} {text : String} :
    (equals o text).holds t env = true ↔ env.text? o = some (t.kept text) := by
  rw [holds, Environment.isText, decide_eq_true_iff]

theorem isAmong_iff {o : Operand} {texts : List String} :
    env.isAmong t o texts = true ↔ ∃ text ∈ texts, env.text? o = some (t.kept text) := by
  unfold Environment.isAmong
  cases env.text? o with
  | none => simp
  | some found => simp [eq_comm (a := found)]

theorem holds_anyIn_iff {alternatives : List (Operand × List String)} :
    (anyIn alternatives).holds t env = true ↔ alternatives = [] ∨
      ∃ alternative ∈ alternatives, ∃ text ∈ alternative.2,
        env.text? alternative.1 = some (t.kept text) := by
  simp only [holds, Bool.or_eq_true, List.isEmpty_iff, List.any_eq_true, isAmong_iff]

end Condition

/-! ## Observations that contribute rows -/

namespace Plan

variable {t : Tables} {property dataset : String} {qualifiers : List Qualifier}
  {columns : List String} {places : PlaceFilter} {limit : Int64} {e : Edge} {env : Environment}

theorem mem_joins (hall : JoinsAll qualifiers columns places) {need : Need}
    (hneed : need ∈ needs qualifiers columns places) {j : PlanJoin}
    (hj : j ∈ need.fragment.joins) :
    j ∈ (assembled property dataset qualifiers columns places limit).joins :=
  List.mem_flatMap.2 ⟨_, hall need hneed, hj⟩

theorem exists_need_of_mem_joins {j : PlanJoin}
    (hj : j ∈ (assembled property dataset qualifiers columns places limit).joins) :
    ∃ need ∈ needs qualifiers columns places, j ∈ need.fragment.joins := by
  obtain ⟨f, hf, hmem⟩ := List.mem_flatMap.1 hj
  obtain ⟨need, hneed, rfl⟩ := exists_need_of_mem_joinedFragments hf
  exact ⟨need, hneed, hmem⟩

section Joined

variable (hall : JoinsAll qualifiers columns places)
  (henv : env ∈ t.joined (assembled property dataset qualifiers columns places limit).joins
    [(.observation, some (.edge e))])

include henv

theorem lookup_observation : env.lookup .observation = some (some (.edge e)) := by
  have hnew : .observation ∉ (assembled property dataset qualifiers columns places
      limit).joins.map (·.source) := (List.nodup_cons.1 nodup_sources_assembled).1
  rw [Tables.lookup_of_mem_joined henv hnew]
  exact List.lookup_cons_self

include hall

/-- Each name stands for a record that meets the condition of its join, or is that of a left
join. -/
theorem joined_cases {need : Need} (hneed : need ∈ needs qualifiers columns places) {j : PlanJoin}
    (hj : j ∈ need.fragment.joins) :
    (∃ r ∈ t.records j.table, env.lookup j.source = some (some r) ∧
      j.condition.holds t env = true) ∨
    (j.kind = .left ∧ env.lookup j.source = some none) :=
  Tables.mem_joined_cases [.observation] nodup_sources_assembled
    (joinsScoped_assembled hall) henv (mem_joins hall hneed hj)

theorem exists_about {need : Need} (hneed : need ∈ needs qualifiers columns places)
    {kind : JoinKind} {edge : Alias} {node : Operand} {label : String}
    (hj : ⟨kind, .edges, edge, .about edge node label⟩ ∈ need.fragment.joins)
    (hbound : kind = .inner ∨ ∃ r, env.lookup edge = some (some r)) :
    ∃ x ∈ t.edges.rows, env.lookup edge = some (some (.edge x)) ∧
      env.text? node = some x.node1 ∧ x.label = t.kept label := by
  rcases joined_cases hall henv hneed hj with ⟨r, hr, hlookup, hholds⟩ | ⟨hleft, hnone⟩
  · obtain ⟨x, hx, rfl⟩ := Tables.mem_records_edges.1 hr
    exact ⟨x, hx, hlookup, (Condition.holds_about_iff hlookup).1 hholds⟩
  · rcases hbound with hinner | ⟨r, hsome⟩
    · exact nomatch hleft.symm.trans hinner
    · exact nomatch hnone.symm.trans hsome

theorem exists_edgesAbout {need : Need} (hneed : need ∈ needs qualifiers columns places)
    {kind : JoinKind} {edge : Alias} {label : String}
    (hj : ⟨kind, .edges, edge, .about edge ⟨.observation, .id⟩ label⟩ ∈ need.fragment.joins)
    (hbound : kind = .inner ∨ ∃ r, env.lookup edge = some (some r)) :
    ∃ x ∈ t.edgesAbout e.id label, env.lookup edge = some (some (.edge x)) := by
  obtain ⟨x, hx, hlookup, hnode, hlabel⟩ := exists_about hall henv hneed hj hbound
  rw [Environment.text?_of_edge (lookup_observation henv) rfl] at hnode
  exact ⟨x, Tables.mem_edgesAbout.2 ⟨hx, (Option.some.inj hnode).symm, hlabel⟩, hlookup⟩

theorem exists_amount : ∃ amount ∈ (t.values .quantity).rows, amount.edgeId = e.id ∧
    env.lookup .amount = some (some (.value amount)) := by
  rcases joined_cases hall henv (mem_needs.2 (.inl rfl)) List.mem_cons_self with
    ⟨r, hr, hlookup, hholds⟩ | ⟨h, -⟩
  · obtain ⟨amount, hamount, rfl⟩ := List.mem_map.1 hr
    have hid := (Condition.holds_valueOf_iff hlookup).1 hholds
    rw [Environment.text?_of_edge (lookup_observation henv) rfl] at hid
    exact ⟨amount, hamount, (Option.some.inj hid).symm, hlookup⟩
  · exact nomatch h

theorem exists_link
    (hdataset : (Condition.equals ⟨.dataset, .node2⟩ dataset).holds t env = true) :
    ∃ link ∈ t.edgesAbout e.id Vocabulary.dataset, link.node2 = t.kept dataset ∧
      env.lookup .dataset = some (some (.edge link)) := by
  obtain ⟨link, hlink, hlookup⟩ := exists_edgesAbout hall henv (mem_needs.2 (.inl rfl))
    (List.mem_cons_of_mem _ List.mem_cons_self) (.inl rfl)
  have htext := Condition.holds_equals_iff.1 hdataset
  rw [Environment.text?_of_edge hlookup rfl] at htext
  exact ⟨link, hlink, Option.some.inj htext, hlookup⟩

theorem isObservation_of_joined
    (hlabel : (Condition.equals ⟨.observation, .label⟩ property).holds t env = true)
    (hdataset : (Condition.equals ⟨.dataset, .node2⟩ dataset).holds t env = true) :
    t.IsObservation property dataset (neededQualifiers qualifiers columns places) e := by
  refine ⟨?_, ?_, ?_, fun q hq hmandatory => ?_⟩
  · have htext := Condition.holds_equals_iff.1 hlabel
    rw [Environment.text?_of_edge (lookup_observation henv) rfl] at htext
    exact Option.some.inj htext
  · obtain ⟨amount, hamount, hid, -⟩ := exists_amount hall henv
    exact ⟨amount, hamount, hid⟩
  · obtain ⟨link, hlink, hnode2, -⟩ := exists_link hall henv hdataset
    exact ⟨link, hlink, hnode2⟩
  · obtain ⟨x, hx, -⟩ := exists_edgesAbout hall henv (mem_neededQualifiers.1 hq)
      (List.mem_cons_self : q.edgeJoin ∈ _) (.inl (by simp [hmandatory]))
    exact ⟨x, hx⟩

theorem mem_locations_of_joined (hplaces : places.isEmpty = false) {node : String}
    (hnode : env.text? (locationNode (region? qualifiers)) = some node) :
    node ∈ t.locations (region? qualifiers) e := by
  cases hregion : region? qualifiers with
  | none =>
    rw [hregion, locationNode, Environment.text?_of_edge (lookup_observation henv) rfl] at hnode
    exact List.mem_singleton.2 (Option.some.inj hnode).symm
  | some q =>
    rw [hregion] at hnode
    have hneed : .qualifier q ∈ needs qualifiers columns places :=
      mem_needs.2 (.inr (.inr (.inl (mem_regionNeeds.2 ⟨hplaces, q, hregion, rfl⟩))))
    obtain ⟨record, hrecord, -⟩ := Environment.exists_of_text? hnode
    obtain ⟨x, hx, hlookup⟩ := exists_edgesAbout hall henv hneed
      (List.mem_cons_self : q.edgeJoin ∈ _) (.inr ⟨record, hrecord⟩)
    rw [locationNode, Qualifier.node, Environment.text?_of_edge hlookup rfl] at hnode
    exact List.mem_map.2 ⟨x, hx, Option.some.inj hnode⟩

theorem exists_location_of_joined (hplaces : places.isEmpty = false)
    (hany : (Condition.anyIn (placeAlternatives places)).holds t env = true) :
    ∃ node ∈ t.locations (region? qualifiers) e, t.LiesIn places node := by
  rcases Condition.holds_anyIn_iff.1 hany with hnone | ⟨alternative, hmem, id, hid, htext⟩
  · rw [placeAlternatives, List.map_eq_nil_iff] at hnone
    exact absurd (List.isEmpty_iff.2 hnone) (by simpa [PlaceFilter.isEmpty] using hplaces)
  · obtain ⟨level, hlevel, rfl⟩ := List.mem_map.1 hmem
    obtain ⟨record, hrecord, -⟩ := Environment.exists_of_text? htext
    obtain ⟨x, hx, hlookup, hnode, hlabel⟩ := exists_about hall henv
      (place_mem_needs.2 ⟨hlevel, rfl⟩) List.mem_cons_self (.inr ⟨record, hrecord⟩)
    rw [Environment.text?_of_edge hlookup rfl] at htext
    exact ⟨x.node1, mem_locations_of_joined hall henv hplaces hnode, level, x,
      Tables.mem_edgesAbout.2 ⟨hx, rfl, hlabel⟩, id, hid, Option.some.inj htext⟩

end Joined

/-- The records that are wished for: the observation, its link to the dataset and, for a place,
the edge that tells the location, under the name of the region, and the edge at a level. -/
def wish (e link : Edge) (located : Option (String × Edge)) (placed : Option (AdminLevel × Edge)) :
    Alias → Option Record
  | .observation => some (.edge e)
  | .dataset => some (.edge link)
  | .qualifier .edge name => (located.filter (·.1 = name)).map (.edge ·.2)
  | .place level => (placed.filter (·.1 = level)).map (.edge ·.2)
  | _ => none

section Wishes

variable {link : Edge} {located : Option (String × Edge)} {placed : Option (AdminLevel × Edge)}

theorem admits_about {wish : Alias → Option Record} {kind : JoinKind} {edge : Alias}
    {node : Operand} {label : String} {x : Edge} (hx : x ∈ t.edges.rows)
    (hlabel : x.label = t.kept label)
    (hnode : ∀ env : Environment, Tables.Fulfils wish [node.source] env →
      env.text? node = some x.node1)
    (hwish : ∀ wished, wish edge = some wished → wished = .edge x) :
    t.Admits wish ⟨kind, .edges, edge, .about edge node label⟩ := by
  refine .inr ⟨.edge x, Tables.mem_records_edges.2 ⟨x, hx, rfl⟩, hwish, fun env henv hfulfils => ?_⟩
  refine (Condition.holds_about_iff henv).2 ⟨hnode env fun a ha => ?_, hlabel⟩
  obtain rfl := List.mem_singleton.1 ha
  exact hfulfils _ (List.mem_cons_of_mem _ List.mem_cons_self)

theorem text?_of_fulfils
    (h : Tables.Fulfils (wish e link located placed) [.observation] env) {column : Column}
    {text : String} (hcell : Record.edgeCell e column = .text text) :
    env.text? ⟨.observation, column⟩ = some text :=
  Environment.text?_of_edge (h _ List.mem_cons_self _ rfl) hcell

theorem admits_amount (hquantity : ∃ row ∈ (t.values .quantity).rows, row.edgeId = e.id) :
    t.Admits (wish e link located placed)
      ⟨.inner, .values .quantity, .amount, .valueOf .amount .observation⟩ := by
  obtain ⟨row, hrow, hid⟩ := hquantity
  refine .inr ⟨.value row, List.mem_map.2 ⟨row, hrow, rfl⟩, (fun wished h => nomatch h),
    fun env henv hfulfils => ?_⟩
  rw [Condition.holds_valueOf_iff henv, hid]
  exact Environment.text?_of_edge
    (hfulfils _ (List.mem_cons_of_mem _ List.mem_cons_self) _ rfl) rfl

theorem admits_base (hquantity : ∃ row ∈ (t.values .quantity).rows, row.edgeId = e.id)
    (hlink : link ∈ t.edgesAbout e.id Vocabulary.dataset) :
    ∀ j ∈ baseFragment.joins, t.Admits (wish e link located placed) j := by
  obtain ⟨hstored, hnode, hlabel⟩ := Tables.mem_edgesAbout.1 hlink
  simp only [baseFragment, labelJoins, List.cons_append, List.nil_append, List.forall_mem_cons,
    List.not_mem_nil, IsEmpty.forall_iff, implies_true, and_true]
  refine ⟨admits_amount hquantity, ?_, .inl ⟨rfl, rfl⟩, .inl ⟨rfl, rfl⟩⟩
  refine admits_about hstored hlabel (fun env hfulfils => ?_) fun _ h => (Option.some.inj h).symm
  rw [hnode]
  exact text?_of_fulfils hfulfils rfl

theorem admits_subject : ∀ j ∈ subjectFragment.joins, t.Admits (wish e link located placed) j := by
  simp only [subjectFragment, labelJoins, List.forall_mem_cons, List.not_mem_nil,
    IsEmpty.forall_iff, implies_true, and_true]
  exact ⟨.inl ⟨rfl, rfl⟩, .inl ⟨rfl, rfl⟩⟩

theorem admits_place {node : Operand} {level : AdminLevel}
    (hplaced : ∀ x, placed = some (level, x) → x ∈ t.edges.rows ∧
      x.label = t.kept level.predicate ∧
        ∀ env, Tables.Fulfils (wish e link located placed) [node.source] env →
          env.text? node = some x.node1) :
    ∀ j ∈ (placeFragment node level).joins, t.Admits (wish e link located placed) j := by
  simp only [placeFragment, List.forall_mem_cons, List.not_mem_nil, IsEmpty.forall_iff,
    implies_true, and_true]
  cases hwish : placed.filter (·.1 = level) with
  | none => exact .inl ⟨rfl, by simp [wish, hwish]⟩
  | some found =>
    obtain ⟨hsome, hlevel⟩ := Option.filter_eq_some_iff.1 hwish
    obtain ⟨hx, hlabel, hnode⟩ := hplaced found.2 (by
      rw [hsome, ← of_decide_eq_true hlevel])
    refine admits_about hx hlabel hnode fun wished h => ?_
    simpa [wish, hwish] using h.symm

theorem admits_qualifier {q : Qualifier}
    (hqualified : q.isOptional = false → ∃ x, x ∈ t.edgesAbout e.id q.predicate)
    (hlocated : ∀ x, located = some (q.name, x) → x ∈ t.edgesAbout e.id q.predicate) :
    ∀ j ∈ q.fragment.joins, t.Admits (wish e link located placed) j := by
  have hedge {x : Edge} (hx : x ∈ t.edgesAbout e.id q.predicate)
      (hwish : ∀ wished, wish e link located placed (q.source .edge) = some wished →
        wished = .edge x) : t.Admits (wish e link located placed) q.edgeJoin := by
    obtain ⟨hstored, hnode, hlabel⟩ := Tables.mem_edgesAbout.1 hx
    refine admits_about hstored hlabel (fun env hfulfils => ?_) hwish
    rw [hnode]
    exact text?_of_fulfils hfulfils rfl
  -- Only the edge can be wished for or asked of a qualifier; its other joins are left ones with no
  -- wish.
  have hfirst : t.Admits (wish e link located placed) q.edgeJoin := by
    cases hwish : located.filter (·.1 = q.name) with
    | none =>
      have hnone : wish e link located placed (q.source .edge) = none := by
        simp [wish, Qualifier.source, hwish]
      cases hoptional : q.isOptional with
      | true => exact .inl ⟨by simp [Qualifier.edgeJoin, hoptional], hnone⟩
      | false =>
        obtain ⟨x, hx⟩ := hqualified hoptional
        exact hedge hx fun wished h => absurd (hnone.symm.trans h) (by simp)
    | some found =>
      obtain ⟨hsome, hname⟩ := Option.filter_eq_some_iff.1 hwish
      refine hedge (hlocated found.2 (by rw [hsome, ← of_decide_eq_true hname])) fun wished h => ?_
      simpa [wish, Qualifier.source, hwish] using h.symm
  obtain ⟨name, predicate, kind, isOptional, isRegion⟩ := q
  refine List.forall_mem_cons.2 ⟨hfirst, ?_⟩
  cases kind with
  | location => simp [Qualifier.labelled, labelJoins, Tables.Admits, wish, Qualifier.source]
  | stored kind =>
    cases kind <;> simp [Qualifier.labelled, labelJoins, Qualifier.valueJoin, Tables.Admits, wish,
      Qualifier.source]

theorem exists_fulfils (property dataset : String) (limit : Int64)
    (hall : JoinsAll qualifiers columns places)
    (hquantity : ∃ row ∈ (t.values .quantity).rows, row.edgeId = e.id)
    (hlink : link ∈ t.edgesAbout e.id Vocabulary.dataset)
    (hqualified : ∀ q ∈ neededQualifiers qualifiers columns places, q.isOptional = false →
      ∃ x, x ∈ t.edgesAbout e.id q.predicate)
    (hlocated : ∀ q ∈ qualifiers, ∀ x, located = some (q.name, x) →
      x ∈ t.edgesAbout e.id q.predicate)
    (hplaced : ∀ level x, placed = some (level, x) →
      x ∈ t.edgesAbout x.node1 level.predicate ∧
        ∀ env, Tables.Fulfils (wish e link located placed)
          [(locationNode (region? qualifiers)).source] env →
          env.text? (locationNode (region? qualifiers)) = some x.node1) :
    ∃ env ∈ t.joined (assembled property dataset qualifiers columns places limit).joins
        [(.observation, some (.edge e))],
      Tables.Fulfils (wish e link located placed)
        (sources (assembled property dataset qualifiers columns places limit)) env := by
  refine Tables.exists_mem_joined [.observation] _ nodup_sources_assembled
    (joinsScoped_assembled hall) ?_ fun j hj => ?_
  · refine List.forall_mem_singleton.2 fun r hr => ?_
    rw [← Option.some.inj hr]
    exact List.lookup_cons_self
  · obtain ⟨need, hneed, hmem⟩ := exists_need_of_mem_joins hj
    cases need with
    | base => exact admits_base hquantity hlink j hmem
    | subject => exact admits_subject j hmem
    | qualifier q =>
      exact admits_qualifier (hqualified q (mem_neededQualifiers.2 hneed))
        (hlocated q (mem_of_qualifier_mem_needs hneed)) j hmem
    | place node level =>
      obtain ⟨-, rfl⟩ := place_mem_needs.1 hneed
      refine admits_place (fun x hx => ?_) j hmem
      obtain ⟨habout, hnode⟩ := hplaced level x hx
      obtain ⟨hstored, -, hlabel⟩ := Tables.mem_edgesAbout.1 habout
      exact ⟨hstored, hlabel, hnode⟩

theorem mem_environmentsOf_of_fulfils (hall : JoinsAll qualifiers columns places)
    (hjoined : env ∈ t.joined (assembled property dataset qualifiers columns places limit).joins
      [(.observation, some (.edge e))])
    (hfulfils : Tables.Fulfils (wish e link located placed)
      (sources (assembled property dataset qualifiers columns places limit)) env)
    (hlabel : e.label = t.kept property) (hdataset : link.node2 = t.kept dataset)
    (hplace : places.isEmpty = false → ∃ level x, placed = some (level, x) ∧
      ∃ id ∈ places.ids level, x.node2 = t.kept id) :
    env ∈ (assembled property dataset qualifiers columns places limit).environmentsOf t e := by
  have hsource {need : Need} (hneed : need ∈ needs qualifiers columns places) {a : Alias}
      (ha : a ∈ need.fragment.sources) :
      a ∈ sources (assembled property dataset qualifiers columns places limit) :=
    mem_sources.2 (.inr ⟨_, hall need hneed, ha⟩)
  refine List.mem_filter.2 ⟨hjoined, ?_⟩
  simp only [assembled, List.all_cons, List.all_nil, Bool.and_true, Bool.and_eq_true,
    Condition.holds_equals_iff, Condition.holds_anyIn_iff]
  -- The property is that of the edge, the dataset that of the link, and the region that of the
  -- place.
  refine ⟨?_, ?_, ?_⟩
  · rw [Environment.text?_of_edge (lookup_observation hjoined) rfl, hlabel]
  · have hlink := hfulfils .dataset (hsource (mem_needs.2 (.inl rfl)) (by decide)) _ rfl
    rw [Environment.text?_of_edge hlink rfl, hdataset]
  · cases hplaces : places.isEmpty with
    | true => exact .inl (List.map_eq_nil_iff.2 (List.isEmpty_iff.1 hplaces))
    | false =>
      obtain ⟨level, x, rfl, id, hid, hnode2⟩ := hplace hplaces
      have hlevel := PlaceFilter.mem_levels.2 (List.ne_nil_of_mem hid)
      have hx := hfulfils (.place level) (hsource (place_mem_needs.2 ⟨hlevel, rfl⟩)
        List.mem_cons_self) (.edge x) (by simp [wish])
      refine .inr ⟨_, List.mem_map.2 ⟨level, hlevel, rfl⟩, id, hid, ?_⟩
      rw [Environment.text?_of_edge hx rfl, hnode2]

/-- What is wished for a location in one of the regions: its edge at a level and, where a region
tells it, the edge of the region. -/
theorem exists_wish (link : Edge) (hnames : (qualifiers.map (·.name)).Nodup)
    (hlocation : places.isEmpty = false →
      ∃ node ∈ t.locations (region? qualifiers) e, t.LiesIn places node) :
    ∃ (located : Option (String × Edge)) (placed : Option (AdminLevel × Edge)),
      (∀ q ∈ qualifiers, ∀ x, located = some (q.name, x) → x ∈ t.edgesAbout e.id q.predicate) ∧
      (∀ level x, placed = some (level, x) → x ∈ t.edgesAbout x.node1 level.predicate ∧
        ∀ env, Tables.Fulfils (wish e link located placed)
          [(locationNode (region? qualifiers)).source] env →
          env.text? (locationNode (region? qualifiers)) = some x.node1) ∧
      (places.isEmpty = false → ∃ level x, placed = some (level, x) ∧
        ∃ id ∈ places.ids level, x.node2 = t.kept id) := by
  cases hplaces : places.isEmpty with
  | true => exact ⟨none, none, by simp, by simp, by simp⟩
  | false =>
    obtain ⟨node, hnode, level, x, hx, hregion⟩ := hlocation hplaces
    obtain rfl : x.node1 = node := (Tables.mem_edgesAbout.1 hx).2.1
    -- Where a qualifier tells the location, its edge is wished for as well, so that the node of the
    -- places is the one with the region.
    cases hfind : region? qualifiers with
    | none =>
      refine ⟨none, some (level, x), by simp, fun level' x' heq => ?_,
        fun _ => ⟨level, x, rfl, hregion⟩⟩
      obtain ⟨rfl, rfl⟩ := Prod.mk.inj (Option.some.inj heq)
      refine ⟨hx, fun env hfulfils => ?_⟩
      rw [hfind] at hnode
      rw [List.mem_singleton.1 hnode]
      exact text?_of_fulfils hfulfils rfl
    | some q =>
      rw [hfind] at hnode
      obtain ⟨r, hr, hnode2⟩ := List.mem_map.1 hnode
      refine ⟨some (q.name, r), some (level, x), fun q' hq' r' heq => ?_,
        fun level' x' heq => ?_, fun _ => ⟨level, x, rfl, hregion⟩⟩
      · obtain ⟨hname, rfl⟩ := Prod.mk.inj (Option.some.inj heq)
        rw [← List.inj_on_of_nodup_map hnames (List.mem_of_find?_eq_some hfind) hq' hname]
        exact hr
      · obtain ⟨rfl, rfl⟩ := Prod.mk.inj (Option.some.inj heq)
        refine ⟨hx, fun env hfulfils => ?_⟩
        have hbound := hfulfils (q.source .edge) List.mem_cons_self (.edge r)
          (by simp [wish, Qualifier.source])
        rw [locationNode, Qualifier.node, Environment.text?_of_edge hbound rfl, hnode2]

end Wishes

/-- **An edge contributes rows exactly if it is an observation with what is needed of it and, where
places are filtered, a location in one of the regions.** -/
theorem environmentsOf_ne_nil_iff (hnames : (qualifiers.map (·.name)).Nodup)
    (hall : JoinsAll qualifiers columns places) :
    (assembled property dataset qualifiers columns places limit).environmentsOf t e ≠ [] ↔
      t.IsObservation property dataset (neededQualifiers qualifiers columns places) e ∧
      (places.isEmpty = false →
        ∃ node ∈ t.locations (region? qualifiers) e, t.LiesIn places node) := by
  constructor
  · intro hsome
    obtain ⟨env, henv⟩ := List.exists_mem_of_ne_nil _ hsome
    obtain ⟨hjoined, hconditions⟩ := List.mem_filter.1 henv
    simp only [assembled, List.all_cons, List.all_nil, Bool.and_true, Bool.and_eq_true]
      at hconditions
    obtain ⟨hlabel, hdataset, hany⟩ := hconditions
    exact ⟨isObservation_of_joined hall hjoined hlabel hdataset,
      fun hplaces => exists_location_of_joined hall hjoined hplaces hany⟩
  · rintro ⟨⟨hlabel, hquantity, ⟨link, hlink, hdataset⟩, hqualified⟩, hlocation⟩
    obtain ⟨located, placed, hlocated, hplaced, hplace⟩ := exists_wish link hnames hlocation
    obtain ⟨env, hjoined, hfulfils⟩ := exists_fulfils property dataset limit
      hall hquantity hlink hqualified hlocated hplaced
    exact List.ne_nil_of_mem (mem_environmentsOf_of_fulfils hall hjoined hfulfils hlabel hdataset
      hplace)

end Plan

/-! ## Queries with and without a filter -/

theorem Database.of_query_eq_ok {db : Database} {plan : Plan} {rows : List (List Cell)}
    (h : db.query plan = .ok rows) : plan.wellScoped = true ∧ rows = plan.rows db.tables := by
  simp only [Database.query, bind, Except.bind] at h
  split at h
  · exact nomatch h
  · split at h
    · exact nomatch h
    · split at h
      next hfits => exact ⟨(Bool.and_eq_true_iff.1 hfits).1, (Except.ok.inj h).symm⟩
      next => exact nomatch h

theorem Database.query_of_has {db : Database} {plan : Plan} (h : ∀ name, db.has name = true)
    (hscoped : plan.wellScoped = true) (hfits : plan.fits = true) :
    db.query plan = .ok (plan.rows db.tables) := by
  have hrequire (name : TableName) : db.require name = .ok () := if_pos (h name)
  have hjoins (joins : List PlanJoin) :
      (joins.forM fun _ => .ok ()) = (.ok () : Except StoreError Unit) := by
    induction joins with
    | nil => rfl
    | cons j joins ih => exact ih
  simp only [Database.query, hrequire, hjoins, hscoped, hfits, Bool.and_self, if_true]
  rfl

namespace Plan

variable {db : Database} {property dataset : String} {qualifiers : List Qualifier}
  {columns : List String} {places : PlaceFilter} {limit : Int64} {plan filtered unfiltered : Plan}
  {rows all : List (List Cell)}

/-- The qualifiers that a filter needs beyond those of the columns tell the location. -/
theorem mem_neededQualifiers_iff {q : Qualifier} (hplaces : places.isEmpty = false) :
    q ∈ neededQualifiers qualifiers columns places ↔
      q ∈ neededQualifiers qualifiers columns .everywhere ∨
        region? qualifiers = some q := by
  simp only [mem_neededQualifiers, qualifier_mem_needs, hplaces, PlaceFilter.everywhere_isEmpty,
    true_and, false_and, or_false, reduceCtorEq]

theorem of_ofRequest_query
    (hplan : ofRequest property dataset qualifiers columns places limit = .ok plan)
    (hlimit : limit.toInt ≤ 0) (hrows : db.query plan = .ok rows) :
    (qualifiers.map (·.name)).Nodup ∧ JoinsAll qualifiers columns places ∧
      plan = assembled property dataset qualifiers columns places limit ∧
      rows.Perm (db.tables.edges.rows.flatMap (plan.rowsOf db.tables)) := by
  obtain ⟨hcheck, rfl⟩ := (ofRequest_eq_ok_iff qualifiers).1 hplan
  obtain ⟨hscoped, rfl⟩ := Database.of_query_eq_ok hrows
  have hnames := nodup_names_of_checkQualifiers hcheck
  refine ⟨hnames, joinsAll_of_wellScoped hnames hscoped, rfl, rows_perm _ _ ?_⟩
  exact if_neg (by omega)

/-- **A place filter selects exactly the observations with a location in one of the regions.** The
rows of both queries are those that the edges contribute; an edge contributes rows to the filtered
query exactly if it contributes rows without the filter and has such a location. -/
theorem rowsOf_filtered_iff (hplaces : places.isEmpty = false) (hlimit : limit.toInt ≤ 0)
    (hfiltered : ofRequest property dataset qualifiers columns places limit = .ok filtered)
    (hunfiltered : ofRequest property dataset qualifiers columns .everywhere limit =
      .ok unfiltered)
    (hrows : db.query filtered = .ok rows) (hall : db.query unfiltered = .ok all) :
    let t := db.tables
    rows.Perm (t.edges.rows.flatMap (filtered.rowsOf t)) ∧
    all.Perm (t.edges.rows.flatMap (unfiltered.rowsOf t)) ∧
    ∀ e, filtered.rowsOf t e ≠ [] ↔ unfiltered.rowsOf t e ≠ [] ∧
      ∃ node ∈ t.locations (region? qualifiers) e, t.LiesIn places node := by
  intro t
  obtain ⟨hnames, hjoins, rfl, hperm⟩ := of_ofRequest_query hfiltered hlimit hrows
  obtain ⟨-, hjoins', rfl, hperm'⟩ := of_ofRequest_query hunfiltered hlimit hall
  refine ⟨hperm, hperm', fun e => ?_⟩
  rw [rowsOf, rowsOf, ne_eq, List.map_eq_nil_iff, ← ne_eq, environmentsOf_ne_nil_iff hnames hjoins,
    ne_eq, List.map_eq_nil_iff, ← ne_eq, environmentsOf_ne_nil_iff hnames hjoins']
  constructor
  · rintro ⟨⟨hlabel, hquantity, hlinked, hqualified⟩, hlocation⟩
    exact ⟨⟨⟨hlabel, hquantity, hlinked, fun q hq =>
      hqualified q ((mem_neededQualifiers_iff hplaces).2 (.inl hq))⟩, fun h => nomatch h⟩,
      hlocation hplaces⟩
  · rintro ⟨⟨⟨hlabel, hquantity, hlinked, hqualified⟩, -⟩, node, hnode, hlies⟩
    refine ⟨⟨hlabel, hquantity, hlinked, fun q hq hmandatory => ?_⟩,
      fun _ => ⟨node, hnode, hlies⟩⟩
    rcases (mem_neededQualifiers_iff hplaces).1 hq with hq | hregion
    · exact hqualified q hq hmandatory
    · -- A region that is mandatory is there, since it tells the location.
      rw [hregion] at hnode
      obtain ⟨x, hx, -⟩ := List.mem_map.1 hnode
      exact ⟨x, hx⟩

/-- A database of these edges, with an amount of five for each quantity. -/
def sampleDatabase (edges : List Edge) : Database :=
  let tables := edges.foldl (fun t e =>
    if e.kind = .quantity then
      (t.addEdge e).addValue (⟨e.id, .quantity (.int 5) none none none⟩ : ValueRow .quantity)
    else t.addEdge e) Tables.empty
  { Database.empty with tables := tables, schema := ⟨TableName.all, IndexName.all⟩ }

theorem query_sampleDatabase {edges : List Edge} (hscoped : plan.wellScoped = true)
    (hfits : plan.fits = true) :
    (sampleDatabase edges).query plan = .ok (plan.rows (sampleDatabase edges).tables) := by
  refine Database.query_of_has (fun name => ?_) hscoped hfits
  cases name with
  | values kind => cases kind <;> rfl
  | _ => rfl

/-- An observation with a location that lies in one of the countries has rows in the filtered
query. -/
theorem rowsOf_filtered_iff_country :
    let location : Qualifier := ⟨"location", "P276", .location, true, true⟩
    let e : Edge := ⟨"e", "Q1", "P10", "5", .quantity⟩
    let db := sampleDatabase [e, ⟨"e-dataset", "e", Vocabulary.dataset, "Q99", .symbol⟩,
      ⟨"e-location", "e", "P276", "Q500", .symbol⟩, ⟨"country", "Q500", "P17", "Q30", .symbol⟩]
    Qualifier.resolve "P276" none "location" none = .ok location ∧
    ∃ filtered, ofRequest "P10" "Q99" [location] ["value"] ⟨["Q30"], [], [], []⟩ 0 =
        .ok filtered ∧
      db.query filtered = .ok (filtered.rows db.tables) ∧ filtered.rowsOf db.tables e ≠ [] := by
  intro location e db
  let filtered := assembled "P10" "Q99" [location] ["value"] ⟨["Q30"], [], [], []⟩ 0
  let unfiltered := assembled "P10" "Q99" [location] ["value"] .everywhere 0
  have hfiltered : ofRequest "P10" "Q99" [location] ["value"] ⟨["Q30"], [], [], []⟩ 0 =
      .ok filtered := (ofRequest_eq_ok_iff _).2 ⟨by decide +kernel, rfl⟩
  have hunfiltered : ofRequest "P10" "Q99" [location] ["value"] .everywhere 0 =
      .ok unfiltered := (ofRequest_eq_ok_iff _).2 ⟨by decide +kernel, rfl⟩
  have hrows : db.query filtered = .ok (filtered.rows db.tables) :=
    query_sampleDatabase (by decide +kernel) (by decide +kernel)
  have hall : db.query unfiltered = .ok (unfiltered.rows db.tables) :=
    query_sampleDatabase (by decide +kernel) (by decide +kernel)
  have hcontributes : unfiltered.rowsOf db.tables e ≠ [] := by decide +kernel
  have hlocation : "Q500" ∈ db.tables.locations (some location) e := by decide +kernel
  have hlies : db.tables.LiesIn ⟨["Q30"], [], [], []⟩ "Q500" :=
    ⟨.country, ⟨"country", "Q500", "P17", "Q30", .symbol⟩, by decide +kernel, "Q30",
      by decide +kernel, rfl⟩
  obtain ⟨-, -, hiff⟩ :=
    rowsOf_filtered_iff (by decide) (by decide) hfiltered hunfiltered hrows hall
  exact ⟨by decide +kernel, filtered, hfiltered, hrows,
    (hiff e).2 ⟨hcontributes, "Q500", hlocation, hlies⟩⟩

end Plan

end FactGraph
