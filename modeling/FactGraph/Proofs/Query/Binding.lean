import FactGraph.Proofs.Qualifier.Name
import FactGraph.Proofs.Query.Scope
import FactGraph.Proofs.Query.Shape

/-!
# What question marks stand for

The texts and numbers that a request is about never become part of the query text: each is bound to
a question mark. A slot (`Plan.Slot`) says what a mark stands for, and the slots of a request
(`Plan.Request.slots`) are those of its parts, of its property and dataset, of its regions and of
its limit, in this order. **Requests of one shape are written as one text with one list of slots,
and the cells of each are its own values of these slots** (`Plan.render_of_sameShape`).

That no mark is written otherwise needs the names of qualifiers, which do become part of the text:
they are made of letters, digits and underscores.
-/

namespace FactGraph

/-! ## Texts without marks -/

/-- The name is written without a question mark. -/
def Alias.IsPlain (a : Alias) : Prop := '?' ∉ a.sql.toList

namespace Alias

theorem isPlain_of_origin? {a : Alias}
    (h : ∀ name, a.origin? = some (false, name) → '?' ∉ name.toList) : a.IsPlain := by
  have hfixed : ∀ a ∈ fixed, '?' ∉ a.sql.toList := by decide
  obtain ha | ⟨part, name, rfl⟩ := mem_fixed_or a
  · exact hfixed a ha
  · refine not_mem_quoteName ?_
    have hname := h name rfl
    cases part <;> simp [QualifierPart.mark, hname]

theorem isPlain_observation : observation.IsPlain := isPlain_of_origin? (by simp [origin?])

end Alias

theorem Operand.not_mem_sql {o : Operand} (h : o.source.IsPlain) : '?' ∉ o.sql.toList := by
  obtain ⟨source, column⟩ := o
  have hcolumn : '?' ∉ column.sql.toList := by cases column <;> decide
  have hsource : '?' ∉ source.sql.toList := h
  simp [sql, hcolumn, hsource]

theorem Expr.not_mem_sql {expr : Expr} (h : ∀ a ∈ expr.sources, a.IsPlain) :
    '?' ∉ expr.sql.toList := by
  cases expr with
  | operand o => exact Operand.not_mem_sql (h _ (by simp [sources]))
  | firstOf first second =>
    have hfirst := Operand.not_mem_sql (o := first) (h _ (by simp [sources]))
    have hsecond := Operand.not_mem_sql (o := second) (h _ (by simp [sources]))
    simp [sql, hfirst, hsecond]
  | point source =>
    have hsource : source.IsPlain := h _ (by simp [sources])
    have hlongitude := Operand.not_mem_sql (o := ⟨source, .longitude⟩) hsource
    have hlatitude := Operand.not_mem_sql (o := ⟨source, .latitude⟩) hsource
    simp [sql, hlongitude, hlatitude]

/-! ## Marks of conditions -/

namespace Condition

/-- What stands before the marks of a condition. -/
def openings : Condition → List String
  | valueOf _ _ => []
  | about edge _ _ => [Operand.sql ⟨edge, .label⟩ ++ " = "]
  | firstLabel _ _ => ["l.label = "]
  | equals operand _ => [operand.sql ++ " = "]
  | anyIn alternatives => alternatives.flatMap fun (operand, texts) =>
    SqlText.inOpenings operand.sql texts.length

theorem opens_sql {condition : Condition} (h : ∀ a ∈ condition.sources, a.IsPlain) :
    condition.sql.Opens condition.openings := by
  cases condition with
  | valueOf value edge =>
    have hvalue := Operand.not_mem_sql (o := ⟨value, .edgeId⟩) (h value (by simp [sources]))
    have hedge := Operand.not_mem_sql (o := ⟨edge, .id⟩) (h edge (by simp [sources]))
    exact SqlText.opens_raw (by simp [hvalue, hedge])
  | about edge node label =>
    have hedge : edge.IsPlain := h edge (by simp [sources])
    have hstart := Operand.not_mem_sql (o := ⟨edge, .node1⟩) hedge
    have hlabel := Operand.not_mem_sql (o := ⟨edge, .label⟩) hedge
    have hnode := Operand.not_mem_sql (o := node) (h _ (by simp [sources]))
    exact (SqlText.opens_mark _ (by simp [hlabel])).prepend (by simp [hstart, hnode])
  | firstLabel edge node =>
    have hedge := Operand.not_mem_sql (o := ⟨edge, .id⟩) (h edge (by simp [sources]))
    have hnode := Operand.not_mem_sql (o := node) (h _ (by simp [sources]))
    exact ((SqlText.opens_mark _ (by decide)).prepend (by simp [hedge, hnode])).before (by decide)
  | equals operand text =>
    have hoperand := Operand.not_mem_sql (o := operand) (h _ (by simp [sources]))
    exact SqlText.opens_mark _ (by simp [hoperand])
  | anyIn alternatives =>
    refine SqlText.additive_opens.anyOf fun alternative halternative => ?_
    have hoperand := Operand.not_mem_sql (h _ (List.mem_map.2 ⟨_, halternative, rfl⟩))
    exact SqlText.opens_isIn hoperand alternative.2

end Condition

namespace Plan

theorem opens_joinSql {j : PlanJoin} (hsource : j.source.IsPlain)
    (h : ∀ a ∈ j.condition.sources, a.IsPlain) : (joinSql j).Opens j.condition.openings := by
  have hplain : '?' ∉ j.source.sql.toList := hsource
  have htable := j.table.not_mem_name
  refine (Condition.opens_sql h).prepend ?_
  cases j.kind <;> simp [hplain, htable]

/-! ## Slots -/

/-- What a question mark stands for. -/
inductive Slot where
  /-- The predicate of labels. -/
  | labelWord
  /-- The predicate that links an observation to its dataset. -/
  | datasetWord
  /-- The predicate that links a place to its region. -/
  | levelWord (level : AdminLevel)
  | property
  | dataset
  /-- The predicate of the qualifier of this name. -/
  | predicate (name : String)
  /-- A region that is asked for, counted from zero. -/
  | region (level : AdminLevel) (index : Nat)
  | limit
  deriving DecidableEq, Repr

/-- What stands before the mark in the query. -/
def Slot.opening : Slot → String
  | labelWord => "l.label = "
  | datasetWord => Operand.sql ⟨.dataset, .label⟩ ++ " = "
  | levelWord level => Operand.sql ⟨.place level, .label⟩ ++ " = "
  | property => Operand.sql ⟨.observation, .label⟩ ++ " = "
  | dataset => Operand.sql ⟨.dataset, .node2⟩ ++ " = "
  | predicate name => Operand.sql ⟨.qualifier .edge name, .label⟩ ++ " = "
  | region level index => if index = 0 then Operand.sql ⟨.place level, .node2⟩ ++ " IN (" else ", "
  | limit => "\nLIMIT "

/-- The slots of the joins of a part. -/
def Need.slots : Need → List Slot
  | base => [.datasetWord, .labelWord]
  | subject => [.labelWord]
  | qualifier q => .predicate q.name :: match q.kind with
    | .stored .quantity | .stored .symbol | .location => [.labelWord]
    | .stored _ => []
  | place _ level => [.levelWord level]

namespace Request

/-- The slots of the property, the dataset and the regions. -/
def restrictionSlots (r : Request) : List Slot :=
  [.property, .dataset] ++ r.places.levels.flatMap fun level =>
    (List.range (r.places.ids level).length).map (.region level)

/-- The slots of a request, in the order of their marks. -/
def slots (r : Request) : List Slot :=
  (Need.firsts r.needs).flatMap Need.slots ++ r.restrictionSlots ++
    if 0 < r.limit.toInt then [.limit] else []

/-- The predicate of the qualifier of a name. -/
def predicateNamed (r : Request) (name : String) : String :=
  ((r.qualifiers.find? (·.name = name)).map (·.predicate)).getD ""

/-- The value of a slot in a request. -/
def cell (r : Request) : Slot → Cell
  | .labelWord => .text Vocabulary.label
  | .datasetWord => .text Vocabulary.dataset
  | .levelWord level => .text level.predicate
  | .property => .text r.property
  | .dataset => .text r.dataset
  | .predicate name => .text (r.predicateNamed name)
  | .region level index => .text ((r.places.ids level)[index]?.getD "")
  | .limit => .int r.limit

end Request

theorem Need.slots_blank (need : Need) : need.blank.slots = need.slots := by
  cases need <;> rfl

namespace Request

variable (r : Request)

theorem slots_blank : r.blank.slots = r.slots := by
  have hparts : (Need.firsts r.blank.needs).flatMap Need.slots =
      (Need.firsts r.needs).flatMap Need.slots := by
    rw [needs, blank, needs_blank, Need.firsts_blank, List.flatMap_map]
    simp only [Need.slots_blank]
    rfl
  have hregions : ∀ level, (r.blank.places.ids level).length = (r.places.ids level).length :=
    fun level => by rw [blank, r.places.ids_blank, List.length_map]
  have hlevels : r.blank.places.levels = r.places.levels := r.places.levels_blank
  have hlimit : 0 < r.blank.limit.toInt ↔ 0 < r.limit.toInt := by
    by_cases h : 0 < r.limit.toInt <;> simp [blank, h]
  simp only [slots, restrictionSlots, hparts, hlevels, hregions, hlimit]

theorem SameShape.slots_eq {a b : Request} (h : a.SameShape b) : a.slots = b.slots := by
  rw [← a.slots_blank, ← b.slots_blank, h.blank_eq]

/-! ## The cells of a request -/

variable {r}

theorem predicateNamed_eq (hnames : (r.qualifiers.map (·.name)).Nodup) {q : Qualifier}
    (hq : q ∈ r.qualifiers) : r.predicateNamed q.name = q.predicate := by
  have hfound : (r.qualifiers.find? (·.name = q.name)).isSome :=
    List.find?_isSome.2 ⟨q, hq, by simp⟩
  obtain ⟨found, hsome⟩ := Option.isSome_iff_exists.1 hfound
  have hsame : found = q := List.inj_on_of_nodup_map hnames (List.mem_of_find?_eq_some hsome) hq
    (by simpa using List.find?_some hsome)
  rw [predicateNamed, hsome, hsame]
  rfl

theorem params_needSql (hnames : (r.qualifiers.map (·.name)).Nodup) {need : Need}
    (hneed : need ∈ r.needs) : need.sql.params = need.slots.map r.cell := by
  cases need with
  | qualifier q =>
    have hpredicate : r.cell (.predicate q.name) = .text q.predicate :=
      congrArg Cell.text (predicateNamed_eq hnames (mem_of_qualifier_mem_needs hneed))
    rw [Need.slots, List.map_cons, hpredicate]
    obtain ⟨name, predicate, kind, isOptional, isRegion⟩ := q
    cases kind with
    | location => rfl
    | stored kind => cases kind <;> rfl
  | _ => rfl

theorem params_restrictions :
    r.restrictions.flatMap SqlText.params = r.restrictionSlots.map r.cell := by
  have hregions : ∀ level : AdminLevel, (r.places.ids level).map Cell.text =
      ((List.range (r.places.ids level).length).map (.region level)).map r.cell := by
    intro level
    refine List.ext_getElem (by simp) fun i hi _ => ?_
    have hid : i < (r.places.ids level).length := by simpa using hi
    simp [cell, List.getElem?_eq_getElem hid]
  simp only [restrictions, restrictionSlots, List.flatMap_cons, List.flatMap_nil,
    SqlText.params_anyOf, List.flatMap_map, SqlText.params_isIn, hregions, List.map_append,
    List.map_flatMap, List.append_nil]
  rfl

/-- **Each mark binds its slot's value in the request.** -/
theorem params_sql (hnames : (r.qualifiers.map (·.name)).Nodup) :
    r.sql.params = r.slots.map r.cell := by
  have hparts : ((Need.firsts r.needs).map Need.sql).flatMap SqlText.params =
      ((Need.firsts r.needs).flatMap Need.slots).map r.cell := by
    rw [List.flatMap_map, List.map_flatMap]
    exact List.flatMap_congr fun need hneed =>
      params_needSql hnames (Need.mem_of_mem_firsts hneed)
  have hlimit : r.limitSql.params = (if 0 < r.limit.toInt then [.limit] else []).map r.cell := by
    unfold limitSql
    split <;> rfl
  simp only [sql_eq, SqlText.params_append, SqlText.params_raw, SqlText.params_concat,
    SqlText.params_join, hparts, params_restrictions, hlimit, slots, List.map_append,
    List.nil_append, List.append_nil]

/-! ## The marks of a request -/

/-- No qualifier has a name with a question mark. -/
def IsPlain (r : Request) : Prop := ∀ q ∈ r.qualifiers, '?' ∉ q.name.toList

theorem isPlain_of_isResolved (h : ∀ q ∈ r.qualifiers, q.IsResolved) : r.IsPlain :=
  fun q hq hmark => absurd ((h q hq).isPlain hmark) (by decide)

section Marks

variable (hplain : r.IsPlain)

include hplain

theorem isPlain_of_qualifier {q : Qualifier} (hq : q ∈ r.qualifiers) (part : QualifierPart) :
    (q.source part).IsPlain :=
  Alias.isPlain_of_origin? fun _ hname => (Prod.mk.inj (Option.some.inj hname)).2 ▸ hplain q hq

theorem isPlain_of_mem_sources {need : Need} (hneed : need ∈ r.needs) {a : Alias}
    (ha : a ∈ need.fragment.sources) : a.IsPlain := by
  refine Alias.isPlain_of_origin? fun name hname => ?_
  obtain ⟨hfixed, rfl⟩ := Prod.mk.inj (Option.some.inj ((Need.origin?_of_mem_sources ha).symm.trans
    hname))
  cases need with
  | qualifier q => exact hplain q (mem_of_qualifier_mem_needs hneed)
  | _ => exact nomatch hfixed

theorem isPlain_locationNode : (locationNode (region? r.qualifiers)).source.IsPlain := by
  cases hregion : region? r.qualifiers with
  | none => exact Alias.isPlain_observation
  | some q => exact isPlain_of_qualifier hplain (List.mem_of_find?_eq_some hregion) .edge

theorem opens_needSql {need : Need} (hneed : need ∈ r.needs) :
    need.sql.Opens (need.slots.map Slot.opening) := by
  have hopenings : need.fragment.joins.flatMap (·.condition.openings) =
      need.slots.map Slot.opening := by
    cases need with
    | qualifier q =>
      obtain ⟨name, predicate, kind, isOptional, isRegion⟩ := q
      cases kind with
      | location => rfl
      | stored kind => cases kind <;> rfl
    | _ => rfl
  -- What the joins of a part use has no marks: names of its own, the observation, or the node of
  -- the places.
  have hscoped : joinsScoped [.observation, (locationNode (region? r.qualifiers)).source]
      need.fragment.joins = true := by
    refine need.scoped List.mem_cons_self fun node level hplace => ?_
    obtain ⟨-, rfl⟩ := place_mem_needs.1 (hplace ▸ hneed)
    simp
  rw [← hopenings]
  refine SqlText.additive_opens.concat fun j hj => opens_joinSql ?_ fun a ha => ?_
  · exact isPlain_of_mem_sources hplain hneed (List.mem_map.2 ⟨j, hj, rfl⟩)
  · rcases mem_of_joinsScoped hscoped hj ha with ha | ha
    · simp only [List.mem_cons, List.not_mem_nil, or_false] at ha
      rcases ha with rfl | rfl
      · exact Alias.isPlain_observation
      · exact isPlain_locationNode hplain
    · exact isPlain_of_mem_sources hplain hneed ha

theorem field_isPlain {q : Qualifier} (hq : q ∈ r.qualifiers) {field : String × Expr}
    (hfield : field ∈ q.fields) :
    '?' ∉ field.1.toList ∧ ∀ a ∈ field.2.sources, a.IsPlain := by
  constructor
  · have hname := hplain q hq
    have hall : ∀ field ∈ q.fields, '?' ∉ field.1.toList := by
      obtain ⟨name, predicate, kind, isOptional, isRegion⟩ := q
      cases kind with
      | location => simp_all [Qualifier.fields]
      | stored kind => cases kind <;> simp_all [Qualifier.fields]
    exact hall field hfield
  · intro a ha
    have hmem : a ∈ (Need.qualifier q).fragment.sources :=
      Qualifier.sources_subset_of_mem_fields hfield ha
    refine Alias.isPlain_of_origin? fun name hname => ?_
    rw [Need.origin?_of_mem_sources hmem] at hname
    exact (Prod.mk.inj (Option.some.inj hname)).2 ▸ hplain q hq

omit hplain in
theorem baseColumn_isPlain (base : BaseColumn) :
    '?' ∉ base.name.toList ∧ ∀ a ∈ base.expr.sources, a.IsPlain := by
  have hall : ∀ base : BaseColumn, '?' ∉ base.name.toList ∧
      ∀ a ∈ base.expr.sources, '?' ∉ a.sql.toList := by
    intro base
    cases base <;> decide
  exact hall base

theorem shownColumn_isPlain {shown : String × Expr}
    (h : shown ∈ shownColumns r.qualifiers r.columns) :
    '?' ∉ shown.1.toList ∧ ∀ a ∈ shown.2.sources, a.IsPlain := by
  simp only [shownColumns] at h
  split at h
  · rw [List.mem_singleton.1 h]
    exact baseColumn_isPlain .subjectId
  · obtain ⟨column, -, hshown⟩ := List.mem_filterMap.1 h
    obtain ⟨expr, hexpr, rfl⟩ := Option.map_eq_some_iff.1 hshown
    unfold shown? at hexpr
    split at hexpr
    next base hbase =>
      obtain rfl := Option.some.inj hexpr
      have hname : base.name = column := by simpa using List.find?_some hbase
      exact hname ▸ baseColumn_isPlain base
    next =>
      obtain ⟨⟨q, shown⟩, howner, rfl⟩ := Option.map_eq_some_iff.1 hexpr
      obtain ⟨hq, hfield⟩ := mem_of_ownerOf? howner
      exact field_isPlain hplain hq hfield

theorem not_mem_head : '?' ∉ r.head.toList := by
  have hcolumns : '?' ∉ r.built.toSql.columnsText.toList := by
    refine SqlSelect.not_mem_columnsText Alias.isPlain_observation fun column hcolumn => ?_
    obtain ⟨shown, hshown, rfl⟩ := List.mem_map.1 hcolumn
    obtain ⟨hname, hexpr⟩ := shownColumn_isPlain hplain hshown
    exact ⟨hname, Expr.not_mem_sql hexpr⟩
  have hbase : '?' ∉ Alias.observation.sql.toList := Alias.isPlain_observation
  simp [head, hcolumns, hbase]

theorem not_mem_order : '?' ∉ r.order.toList := by
  have hexprs : ∀ expr ∈ r.built.order, ∀ a ∈ expr.sources, a.IsPlain := by
    intro expr hexpr
    have hobservation : ∀ a ∈ [Alias.observation], a.IsPlain := by
      simpa using Alias.isPlain_observation
    simp only [built, assembled, List.cons_append, List.mem_cons, List.mem_append,
      List.not_mem_nil, or_false] at hexpr
    -- Subject and id are of the observation. The time, where it is joined, is a field of a
    -- qualifier.
    rcases hexpr with rfl | htime | rfl
    · exact hobservation
    · unfold timeOrder at htime
      split at htime
      next time hfound =>
        split at htime
        next =>
          obtain rfl := List.mem_singleton.1 htime
          exact (field_isPlain hplain (List.mem_of_find?_eq_some hfound)
            (List.mem_cons_self : (time.name, time.valueExpr) ∈ time.fields)).2
        next => simp at htime
      next => simp at htime
    · exact hobservation
  have hjoined : '?' ∉ (", ".intercalate (r.built.order.map Expr.sql)).toList :=
    Text.not_mem_intercalate (by decide) (List.forall_mem_map.2 fun expr hexpr =>
      Expr.not_mem_sql (hexprs expr hexpr))
  rw [order, String.toList_append, List.mem_append]
  exact not_or.2 ⟨by decide, hjoined⟩

omit hplain in
theorem opens_restrictions :
    (SqlText.join " AND " r.restrictions).Opens (r.restrictionSlots.map Slot.opening) := by
  have hplain : ∀ a ∈ Alias.fixed, a.IsPlain :=
    fun a ha => (by decide : ∀ a ∈ Alias.fixed, '?' ∉ a.sql.toList) a ha
  have hsources : ∀ condition ∈ r.built.conditions, ∀ a ∈ condition.sources, a.IsPlain := by
    intro condition hcondition
    simp only [built, assembled, List.mem_cons, List.not_mem_nil, or_false] at hcondition
    -- The three conditions: the property, the dataset and the places. All of them use fixed names.
    rcases hcondition with rfl | rfl | rfl
    · exact fun a ha => hplain a (List.mem_singleton.1 ha ▸ by decide)
    · exact fun a ha => hplain a (List.mem_singleton.1 ha ▸ by decide)
    · intro a ha
      simp only [Condition.sources, placeAlternatives, List.map_map, List.mem_map] at ha
      obtain ⟨level, -, rfl⟩ := ha
      exact hplain (.place level) (by cases level <;> decide)
  have hopens := SqlText.additive_opens.join (by decide : '?' ∉ " AND ".toList)
    fun condition hcondition => Condition.opens_sql (hsources condition hcondition)
  have hsql : r.built.conditions.map Condition.sql = r.restrictions := by
    simp only [restrictions, built, assembled, placeAlternatives, List.map_cons, List.map_nil,
      Condition.sql, List.map_map]
    rfl
  have hopenings : r.built.conditions.flatMap Condition.openings =
      r.restrictionSlots.map Slot.opening := by
    simp only [restrictionSlots, built, assembled, placeAlternatives, List.flatMap_cons,
      List.flatMap_nil, Condition.openings, List.flatMap_map, List.map_append, List.map_flatMap,
      List.map_map, SqlText.inOpenings, List.append_nil]
    rfl
  rwa [hsql, hopenings] at hopens

/-- **Each mark stands where its slot belongs.** -/
theorem opens_sql : r.sql.Opens (r.slots.map Slot.opening) := by
  have hparts : (SqlText.concat ((Need.firsts r.needs).map Need.sql)).Opens
      ((Need.firsts r.needs).flatMap fun need => need.slots.map Slot.opening) :=
    SqlText.additive_opens.concat fun need hneed =>
      opens_needSql hplain (Need.mem_of_mem_firsts hneed)
  have hlimit : r.limitSql.Opens
      ((if 0 < r.limit.toInt then [.limit] else []).map Slot.opening) := by
    unfold limitSql
    split
    · exact SqlText.opens_mark _ (by decide)
    · exact SqlText.opens_empty
  have hwhere : '?' ∉ "\nWHERE ".toList := by decide
  have hall := ((((SqlText.opens_raw (not_mem_head hplain)).append hparts).append
    ((opens_restrictions (r := r)).prepend hwhere)).append
      (SqlText.opens_raw (not_mem_order hplain))).append hlimit
  rw [sql_eq]
  simpa only [slots, List.map_append, List.map_flatMap, List.nil_append, List.append_nil,
    List.append_assoc] using hall

end Marks

end Request

/-- **What a request is about never becomes part of the text.** Requests of one shape with resolved
qualifiers are written as one text. It has one question mark for each cell, and what a mark stands
for, and where it stands, is the same in both; each binds its own values. -/
theorem render_of_sameShape {a b : Request} {p q : Plan} (hshape : a.SameShape b)
    (hresolved : ∀ qualifier ∈ a.qualifiers, qualifier.IsResolved)
    (hp : a.plan = .ok p) (hq : b.plan = .ok q) :
    p.toSql.render.text = q.toSql.render.text ∧
    p.toSql.render.text.toList.count '?' = p.toSql.render.params.length ∧
    p.toSql.render.params.length = q.toSql.render.params.length ∧
    a.slots = b.slots ∧
    p.toSql.render.Opens (a.slots.map Slot.opening) ∧
    p.toSql.render.params = a.slots.map a.cell ∧
    q.toSql.render.params = b.slots.map b.cell := by
  obtain ⟨hchecka, rfl⟩ := (ofRequest_eq_ok_iff a.qualifiers).1 hp
  obtain ⟨hcheckb, rfl⟩ := (ofRequest_eq_ok_iff b.qualifiers).1 hq
  have hcellsa : a.sql.params = a.slots.map a.cell :=
    Request.params_sql (nodup_names_of_checkQualifiers hchecka)
  have hcellsb : b.sql.params = b.slots.map b.cell :=
    Request.params_sql (nodup_names_of_checkQualifiers hcheckb)
  have hopens : a.sql.Opens (a.slots.map Slot.opening) :=
    Request.opens_sql (Request.isPlain_of_isResolved hresolved)
  have hslots : a.slots = b.slots := hshape.slots_eq
  have hcount : a.sql.text.toList.count '?' = a.sql.params.length := by
    rw [hopens.count_eq, hcellsa, List.length_map, List.length_map]
  have hlength : a.sql.params.length = b.sql.params.length := by
    rw [hcellsa, hcellsb, List.length_map, List.length_map, hslots]
  exact ⟨hshape.text_eq, hcount, hlength, hslots, hopens, hcellsa, hcellsb⟩

/-- Values that look like SQL or like marks are bound like all others. -/
theorem render_of_sameShape_hostile :
    let time : Qualifier := ⟨"time", "P585", .stored .dateAndTime, false, false⟩
    let location : Qualifier := ⟨"location", "P276", .location, true, true⟩
    let moment : Qualifier := ⟨"time", "?", .stored .dateAndTime, false, false⟩
    let place : Qualifier := ⟨"location", "' OR 1=1 --", .location, true, true⟩
    let a : Request := ⟨"P10", "Q99", [time, location], ["value", "time", "location"],
      ⟨["Q30", "Q31"], [], [], ["Q40"]⟩, 5⟩
    let b : Request := ⟨"\"?", "'; DROP TABLE edges", [moment, place],
      ["value", "time", "location"], ⟨["?", "\""], [], [], ["') OR ('1'='1"]⟩, 70⟩
    (∀ qualifier ∈ a.qualifiers, qualifier.IsResolved) ∧ a.SameShape b ∧
    ∃ p q, a.plan = .ok p ∧ b.plan = .ok q ∧
      p.toSql.render.text = q.toSql.render.text ∧
      p.toSql.render.text.toList.count '?' = p.toSql.render.params.length ∧
      q.toSql.render.params = b.slots.map b.cell := by
  intro time location moment place a b
  have hresolved : ∀ qualifier ∈ a.qualifiers, qualifier.IsResolved := by
    intro qualifier hqualifier
    simp only [a, List.mem_cons, List.not_mem_nil, or_false] at hqualifier
    rcases hqualifier with rfl | rfl
    · exact ⟨none, "", none, by decide +kernel⟩
    · exact ⟨none, "", none, by decide +kernel⟩
  have hshape : a.SameShape b :=
    ⟨rfl, rfl, fun level => by cases level <;> rfl, by decide⟩
  obtain ⟨p, hp⟩ : ∃ p, a.plan = .ok p := ⟨_, rfl⟩
  obtain ⟨q, hq⟩ : ∃ q, b.plan = .ok q := ⟨_, rfl⟩
  obtain ⟨htext, hcount, -, -, -, -, hcells⟩ := render_of_sameShape hshape hresolved hp hq
  exact ⟨hresolved, hshape, p, q, hp, hq, htext, hcount, hcells⟩

end Plan

end FactGraph
