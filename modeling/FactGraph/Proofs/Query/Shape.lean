import FactGraph.Proofs.Query.Fragments
import FactGraph.Proofs.Query.Marks

/-!
# The shape of a request

What a request is about (its property, dataset and regions, the predicates of its qualifiers and
the number of its limit) is bound to question marks. The rest is its shape
(`Plan.Request.SameShape`): the columns, what the qualifiers are called and which kind they have, at
which levels how many regions are asked for, and whether there is a limit. The request with all that
it is about blanked out (`Plan.Request.blank`) is the same for requests of one shape, and it is
written as the same text (`Plan.Request.text_blank`).
-/

namespace FactGraph

/-! ## Blanked-out requests -/

/-- The qualifier without its predicate. -/
def Qualifier.blank (q : Qualifier) : Qualifier := { q with predicate := "" }

/-- What a qualifier is called, its kind and its flags. -/
def Qualifier.outline (q : Qualifier) : String × QualifierKind × Bool × Bool :=
  (q.name, q.kind, q.isOptional, q.isRegion)

/-- As many regions, without their ids. -/
def PlaceFilter.blank (places : PlaceFilter) : PlaceFilter :=
  .ofFn fun level => (places.ids level).map fun _ => ""

namespace PlaceFilter

variable (places : PlaceFilter)

theorem ids_blank (level : AdminLevel) :
    places.blank.ids level = (places.ids level).map fun _ => "" := by
  cases level <;> rfl

theorem levels_blank : places.blank.levels = places.levels := by
  rw [levels, levels]
  exact List.filter_congr fun level _ => by rw [ids_blank, List.isEmpty_map]

theorem isEmpty_blank : places.blank.isEmpty = places.isEmpty := by
  rw [isEmpty, levels_blank, isEmpty]

end PlaceFilter

namespace Plan

/-- What a query for observations is built from. -/
structure Request where
  property : String
  dataset : String
  qualifiers : List Qualifier
  columns : List String
  places : PlaceFilter
  limit : Int64
  deriving DecidableEq, Repr

namespace Request

def plan (r : Request) : Except StoreError Plan :=
  ofRequest r.property r.dataset r.qualifiers r.columns r.places r.limit

/-- The parts of the request. -/
def needs (r : Request) : List Need := Plan.needs r.qualifiers r.columns r.places

/-- Two requests differ in what they are about at most. -/
structure SameShape (a b : Request) : Prop where
  columns : a.columns = b.columns
  qualifiers : a.qualifiers.map Qualifier.outline = b.qualifiers.map Qualifier.outline
  regions : ∀ level, (a.places.ids level).length = (b.places.ids level).length
  limit : 0 < a.limit.toInt ↔ 0 < b.limit.toInt

/-- The request without what it is about. -/
def blank (r : Request) : Request where
  property := ""
  dataset := ""
  qualifiers := r.qualifiers.map Qualifier.blank
  columns := r.columns
  places := r.places.blank
  limit := if 0 < r.limit.toInt then 1 else 0

theorem SameShape.blank_eq {a b : Request} (h : a.SameShape b) : a.blank = b.blank := by
  have houtline : Qualifier.blank =
      (fun outline => ⟨outline.1, "", outline.2.1, outline.2.2.1, outline.2.2.2⟩) ∘
        Qualifier.outline := rfl
  have hqualifiers : a.qualifiers.map Qualifier.blank = b.qualifiers.map Qualifier.blank := by
    rw [houtline, ← List.map_map, h.qualifiers, List.map_map]
  have hplaces : a.places.blank = b.places.blank := by
    simp only [PlaceFilter.blank, List.map_const', h.regions]
  simp only [blank, hqualifiers, h.columns, hplaces, h.limit]

end Request

/-! ## Parts of blanked-out requests -/

def Need.blank : Need → Need
  | qualifier q => qualifier q.blank
  | need => need

theorem Need.owner_blank (need : Need) : need.blank.owner = need.owner := by
  cases need <;> rfl

section Parts

variable (qualifiers : List Qualifier) (columns : List String) (places : PlaceFilter)

theorem ownerOf?_blank (column : String) :
    ownerOf? (qualifiers.map Qualifier.blank) column =
      (ownerOf? qualifiers column).map fun found => (found.1.blank, found.2) := by
  have hfield : ∀ q : Qualifier, (q.blank.field? column).map (q.blank, ·) =
      ((q.field? column).map (q, ·)).map fun found => (found.1.blank, found.2) := by
    intro q
    rw [show q.blank.field? column = q.field? column from rfl, Option.map_map]
    rfl
  rw [ownerOf?, List.findSome?_map, ownerOf?, List.map_findSome?]
  exact congrArg (List.findSome? · qualifiers) (funext hfield)

theorem shown?_blank (column : String) :
    shown? (qualifiers.map Qualifier.blank) column = shown? qualifiers column := by
  unfold shown?
  rw [ownerOf?_blank, Option.map_map]
  rfl

theorem columnNeed?_blank (column : String) :
    columnNeed? (qualifiers.map Qualifier.blank) column =
      (columnNeed? qualifiers column).map Need.blank := by
  unfold columnNeed?
  rw [ownerOf?_blank]
  cases BaseColumn.ofName? column with
  | some base => by_cases hsubject : base = .subject <;> simp [hsubject, Need.blank]
  | none =>
    simp only [Option.map_map]
    rfl

theorem requested_blank :
    requested (qualifiers.map Qualifier.blank) columns = requested qualifiers columns := by
  rw [requested, requested, allColumns, allColumns, List.flatMap_map]
  rfl

theorem region?_blank :
    region? (qualifiers.map Qualifier.blank) = (region? qualifiers).map Qualifier.blank := by
  rw [region?, List.find?_map]
  rfl

theorem locationNode_blank (location : Option Qualifier) :
    locationNode (location.map Qualifier.blank) = locationNode location := by
  cases location <;> rfl

theorem needs_blank :
    Plan.needs (qualifiers.map Qualifier.blank) columns places.blank =
      (Plan.needs qualifiers columns places).map Need.blank := by
  have hcolumns : columnNeeds (qualifiers.map Qualifier.blank) columns =
      (columnNeeds qualifiers columns).map Need.blank := by
    rw [columnNeeds, columnNeeds, requested_blank, List.map_cons, List.map_filterMap]
    simp only [columnNeed?_blank]
    rfl
  have hregion : regionNeeds ((region? qualifiers).map Qualifier.blank) places.blank =
      (regionNeeds (region? qualifiers) places).map Need.blank := by
    rw [regionNeeds, regionNeeds, places.isEmpty_blank]
    split
    · rfl
    · cases region? qualifiers <;> rfl
  have hlevels : levelNeeds ((region? qualifiers).map Qualifier.blank) places.blank =
      (levelNeeds (region? qualifiers) places).map Need.blank := by
    rw [levelNeeds, levelNeeds, locationNode_blank, places.levels_blank, List.map_map]
    rfl
  simp only [Plan.needs, region?_blank, hcolumns, hregion, hlevels, List.map_append]

theorem shownColumns_blank :
    shownColumns (qualifiers.map Qualifier.blank) columns = shownColumns qualifiers columns := by
  simp only [shownColumns, requested_blank, shown?_blank]

theorem timeOrder_blank (owners : List String) :
    timeOrder (qualifiers.map Qualifier.blank) owners = timeOrder qualifiers owners := by
  have hfind : (qualifiers.map Qualifier.blank).find? (·.name = Qualifier.timeName) =
      (qualifiers.find? (·.name = Qualifier.timeName)).map Qualifier.blank := by
    rw [List.find?_map]
    rfl
  rw [timeOrder, timeOrder, hfind]
  cases qualifiers.find? (·.name = Qualifier.timeName) <;> rfl

end Parts

/-! ## The first part of each owner -/

namespace Need

/-- The parts without those whose owner has an earlier one. -/
def firsts : List Need → List Need
  | [] => []
  | need :: needs => need :: (firsts needs).filter (·.owner ≠ need.owner)

theorem fragment_firsts (needs : List Need) :
    Fragment.firsts (needs.map fragment) = (firsts needs).map fragment := by
  induction needs with
  | nil => rfl
  | cons need needs ih =>
    rw [List.map_cons, Fragment.firsts, ih, firsts, List.map_cons, List.filter_map]
    rfl

theorem firsts_blank (needs : List Need) : firsts (needs.map blank) = (firsts needs).map blank := by
  induction needs with
  | nil => rfl
  | cons need needs ih =>
    rw [List.map_cons, firsts, ih, firsts, List.map_cons, List.filter_map]
    simp only [Function.comp_def, owner_blank]

theorem mem_of_mem_firsts {need : Need} {needs : List Need} (h : need ∈ firsts needs) :
    need ∈ needs := by
  induction needs with
  | nil => exact h
  | cons first needs ih =>
    rcases List.mem_cons.1 h with rfl | h
    · exact List.mem_cons_self
    · exact List.mem_cons_of_mem _ (ih (List.mem_of_mem_filter h))

end Need

/-! ## The text of a request -/

/-- A join as SQL. -/
def joinSql (j : PlanJoin) : SqlText :=
  SqlSelect.joinText ⟨j.kind, j.table.name, j.source.sql, j.condition.sql⟩

/-- The joins of a part as SQL. -/
def Need.sql (need : Need) : SqlText := .concat (need.fragment.joins.map joinSql)

theorem Need.text_sql_blank (need : Need) : need.blank.sql.text = need.sql.text := by
  cases need with
  | qualifier q =>
    obtain ⟨name, predicate, kind, isOptional, isRegion⟩ := q
    cases kind with
    | location => rfl
    | stored kind => cases kind <;> rfl
  | _ => rfl

namespace Request

variable (r : Request)

/-- The plan of a request that is answered. -/
def built : Plan := assembled r.property r.dataset r.qualifiers r.columns r.places r.limit

/-- The request as SQL. -/
def sql : SqlText := r.built.toSql.render

/-- The output columns and the first table. -/
def head : String :=
  "SELECT " ++ r.built.toSql.columnsText ++ "\nFROM edges AS " ++ Alias.observation.sql

/-- The property, the dataset and the regions. -/
def restrictions : List SqlText :=
  [equalsSql (Operand.sql ⟨.observation, .label⟩) r.property,
   equalsSql (Operand.sql ⟨.dataset, .node2⟩) r.dataset,
   .anyOf (r.places.levels.map fun level =>
    .isIn (Operand.sql ⟨.place level, .node2⟩) (r.places.ids level))]

/-- The expressions that rows are ordered by. -/
def order : String := "\nORDER BY " ++ ", ".intercalate (r.built.order.map Expr.sql)

/-- The limit, if there is one. -/
def limitSql : SqlText :=
  if 0 < r.limit.toInt then .raw "\nLIMIT " ++ .mark (.int r.limit) else .empty

theorem ofNat_toNat_toInt {limit : Int64} (h : 0 < limit.toInt) :
    Int64.ofNat limit.toInt.toNat = limit := by
  rw [← Int64.ofInt_eq_ofNat, Int.toNat_of_nonneg (Int.le_of_lt h), Int64.ofInt_toInt]

theorem limitText_eq : SqlSelect.limitText r.built.toSql = r.limitSql := by
  have hlimit : r.built.toSql.limit =
      if 0 < r.limit.toInt then some r.limit.toInt.toNat else none := rfl
  unfold SqlSelect.limitText limitSql
  rw [hlimit]
  by_cases h : 0 < r.limit.toInt
  · simp only [if_pos h, ofNat_toNat_toInt h]
  · simp only [if_neg h]

/-- **A request is written part by part.** -/
theorem sql_eq :
    r.sql = .raw r.head ++ .concat ((Need.firsts r.needs).map Need.sql) ++
      (.raw "\nWHERE " ++ .join " AND " r.restrictions) ++ .raw r.order ++ r.limitSql := by
  have hjoins : r.built.toSql.joins.map SqlSelect.joinText =
      (Need.firsts r.needs).flatMap fun need => need.fragment.joins.map joinSql := by
    have hfragments : r.built.fragments = (Need.firsts r.needs).map Need.fragment :=
      Need.fragment_firsts r.needs
    simp only [toSql, Select.map, Select.joins, hfragments, List.flatMap_map, List.map_flatMap,
      Function.comp_def, List.map_map]
    rfl
  have hconditions : SqlSelect.conditionsText r.built.toSql =
      .raw "\nWHERE " ++ .join " AND " r.restrictions := by
    simp only [restrictions, SqlSelect.conditionsText, toSql, Select.map, built, assembled,
      placeAlternatives, List.map_cons, List.map_nil, Condition.sql, List.map_map]
    rfl
  have horder : SqlSelect.orderText r.built.toSql = .raw r.order := rfl
  rw [sql, SqlSelect.render, hjoins, SqlText.concat_flatMap, hconditions, horder, limitText_eq]
  rfl

theorem head_blank : r.blank.head = r.head := by
  have hcolumns : r.blank.built.toSql.columns = r.built.toSql.columns := by
    show (shownColumns _ _).map _ = (shownColumns _ _).map _
    rw [blank, shownColumns_blank]
  rw [head, head, SqlSelect.columnsText, SqlSelect.columnsText, hcolumns]
  rfl

theorem order_blank : r.blank.order = r.order := by
  have howners : r.blank.needs.map Need.owner = r.needs.map Need.owner := by
    rw [needs, blank, needs_blank, List.map_map]
    exact List.map_congr_left fun need _ => need.owner_blank
  have horder : r.blank.built.order = r.built.order := by
    show _ :: timeOrder r.blank.qualifiers (r.blank.needs.map Need.owner) ++ _ =
      _ :: timeOrder r.qualifiers (r.needs.map Need.owner) ++ _
    rw [howners, blank, timeOrder_blank]
  rw [order, order, horder]

theorem restrictions_blank :
    r.blank.restrictions.map SqlText.text = r.restrictions.map SqlText.text := by
  have hregions : (SqlText.anyOf (r.blank.places.levels.map fun level =>
      .isIn (Operand.sql ⟨.place level, .node2⟩) (r.blank.places.ids level))).text =
      (SqlText.anyOf (r.places.levels.map fun level =>
        .isIn (Operand.sql ⟨.place level, .node2⟩) (r.places.ids level))).text := by
    refine SqlText.text_anyOf_congr ?_
    rw [blank, r.places.levels_blank, List.map_map, List.map_map]
    exact List.map_congr_left fun level _ =>
      SqlText.text_isIn_congr (by rw [r.places.ids_blank, List.length_map])
  simp only [restrictions, List.map_cons, List.map_nil, hregions]
  rfl

theorem text_limitSql_blank : r.blank.limitSql.text = r.limitSql.text := by
  unfold limitSql blank
  by_cases h : 0 < r.limit.toInt
  · simp [h]
  · simp [h]

/-- **A blanked-out request is written as the same text.** -/
theorem text_blank : r.blank.sql.text = r.sql.text := by
  have hparts : (Need.firsts r.blank.needs).map (SqlText.text ∘ Need.sql) =
      (Need.firsts r.needs).map (SqlText.text ∘ Need.sql) := by
    rw [needs, blank, needs_blank, Need.firsts_blank, List.map_map]
    exact List.map_congr_left fun need _ => need.text_sql_blank
  have hjoins : (SqlText.concat ((Need.firsts r.blank.needs).map Need.sql)).text =
      (SqlText.concat ((Need.firsts r.needs).map Need.sql)).text :=
    SqlText.text_concat_congr (by rw [List.map_map, List.map_map, hparts])
  simp only [sql_eq, SqlText.text_append, SqlText.text_raw, head_blank, order_blank, hjoins,
    SqlText.text_join_congr r.restrictions_blank, text_limitSql_blank]

theorem SameShape.text_eq {a b : Request} (h : a.SameShape b) : a.sql.text = b.sql.text := by
  rw [← a.text_blank, ← b.text_blank, h.blank_eq]

end Request

end Plan

end FactGraph
