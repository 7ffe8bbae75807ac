import FactGraph.Query.Observation

/-!
# Queries as they are built

A query is built from its base in steps: a fragment, an output column, a condition, a criterion of
order or a limit is added. Of these only a fragment looks at what is there already, and only at the
owners. They are the same in whatever terms a query is written, so each step can be taken before or
after the query is written in other terms (`BuildStep.map_apply`).

**A query that is built and then written in other terms is built of those terms**
(`Select.map_built`). The plan of an observation query is built in this way, and so is its SQL
(`Plan.exists_steps_of_ofRequest`).
-/

namespace FactGraph

variable {τ α ε χ τ' α' ε' χ' : Type}

/-- The joins of an owner in other terms. -/
def Fragment.map (table : τ → τ') (source : α → α') (condition : χ → χ') (f : Fragment τ α χ) :
    Fragment τ' α' χ' :=
  ⟨f.owner, f.joins.map fun j => ⟨j.kind, table j.table, source j.source, condition j.condition⟩⟩

/-- What a query is built by. -/
inductive BuildStep (τ α ε χ : Type) where
  | addFragment (fragment : Fragment τ α χ)
  | project (name : String) (expr : ε)
  | filter (condition : χ)
  | orderBy (expr : ε)
  | setLimit (limit : Int64)

namespace BuildStep

/-- The query after the step. -/
def apply (s : Select τ α ε χ) : BuildStep τ α ε χ → Select τ α ε χ
  | addFragment fragment => s.addFragment fragment
  | project name expr => s.project name expr
  | filter condition => s.filter condition
  | orderBy expr => s.orderBy expr
  | setLimit limit => s.setLimit limit

/-- The same step in other terms. -/
def map (table : τ → τ') (source : α → α') (expr : ε → ε') (condition : χ → χ') :
    BuildStep τ α ε χ → BuildStep τ' α' ε' χ'
  | addFragment fragment => .addFragment (fragment.map table source condition)
  | project name e => .project name (expr e)
  | filter c => .filter (condition c)
  | orderBy e => .orderBy (expr e)
  | setLimit limit => .setLimit limit

end BuildStep

namespace Select

/-- The query that the steps build. -/
def built (base : α) (steps : List (BuildStep τ α ε χ)) : Select τ α ε χ :=
  steps.foldl BuildStep.apply (ofBase base)

theorem built_concat (base : α) (steps : List (BuildStep τ α ε χ)) (step : BuildStep τ α ε χ) :
    built base (steps ++ [step]) = step.apply (built base steps) := by
  rw [built, List.foldl_append]
  rfl

theorem addFragment_eq_or (s : Select τ α ε χ) (f : Fragment τ α χ) :
    s.addFragment f = s ∨ s.addFragment f = { s with fragments := s.fragments ++ [f] } := by
  unfold addFragment
  split
  · exact .inl rfl
  · exact .inr rfl

/-! ## Other terms -/

variable (table : τ → τ') (source : α → α') (expr : ε → ε') (condition : χ → χ')
  (s : Select τ α ε χ)

@[simp] theorem owners_map : (s.map table source expr condition).owners = s.owners := by
  simp only [owners, map, List.map_map, Function.comp_def]

theorem map_addFragment (f : Fragment τ α χ) :
    (s.addFragment f).map table source expr condition =
      (s.map table source expr condition).addFragment (f.map table source condition) := by
  -- The owners decide whether the fragment is added, and they are no terms.
  have howner : (s.map table source expr condition).hasFragment f.owner =
      s.hasFragment f.owner := by
    rw [hasFragment, owners_map, hasFragment]
  unfold addFragment
  rw [show (f.map table source condition).owner = f.owner from rfl, howner]
  split
  · rfl
  · simp only [map, Fragment.map, List.map_append, List.map_cons, List.map_nil]

theorem map_project (name : String) (e : ε) :
    (s.project name e).map table source expr condition =
      (s.map table source expr condition).project name (expr e) := by
  simp only [map, project, List.map_append, List.map_cons, List.map_nil]

theorem map_filter (c : χ) :
    (s.filter c).map table source expr condition =
      (s.map table source expr condition).filter (condition c) := by
  simp only [map, filter, List.map_append, List.map_cons, List.map_nil]

theorem map_orderBy (e : ε) :
    (s.orderBy e).map table source expr condition =
      (s.map table source expr condition).orderBy (expr e) := by
  simp only [map, orderBy, List.map_append, List.map_cons, List.map_nil]

theorem map_setLimit (limit : Int64) :
    (s.setLimit limit).map table source expr condition =
      (s.map table source expr condition).setLimit limit :=
  rfl

end Select

theorem BuildStep.map_apply (table : τ → τ') (source : α → α') (expr : ε → ε')
    (condition : χ → χ') (s : Select τ α ε χ) (step : BuildStep τ α ε χ) :
    (step.apply s).map table source expr condition =
      (step.map table source expr condition).apply (s.map table source expr condition) := by
  cases step with
  | addFragment f => exact s.map_addFragment table source expr condition f
  | project name e => exact s.map_project table source expr condition name e
  | filter c => exact s.map_filter table source expr condition c
  | orderBy e => exact s.map_orderBy table source expr condition e
  | setLimit limit => exact s.map_setLimit table source expr condition limit

/-- **It makes no difference whether a query is built and then written in other terms, or built of
those terms.** -/
theorem Select.map_built (table : τ → τ') (source : α → α') (expr : ε → ε') (condition : χ → χ')
    (base : α) (steps : List (BuildStep τ α ε χ)) :
    (built base steps).map table source expr condition =
      built (source base) (steps.map (·.map table source expr condition)) := by
  rw [built, built, List.foldl_map]
  exact (List.foldl_hom (Select.map table source expr condition) fun s step =>
    (step.map_apply table source expr condition s).symm).symm

/-! ## Plans -/

namespace Plan

/-- The plan is built in steps. -/
def IsBuilt (plan : Plan) : Prop := ∃ steps, plan = .built .observation steps

namespace IsBuilt

variable {plan : Plan} {qualifiers : List Qualifier}

theorem apply (h : plan.IsBuilt) (step : BuildStep TableName Alias Expr Condition) :
    IsBuilt (step.apply plan) := by
  obtain ⟨steps, rfl⟩ := h
  exact ⟨steps ++ [step], (Select.built_concat _ _ step).symm⟩

theorem addFragment (h : plan.IsBuilt) (f : JoinFragment) : IsBuilt (plan.addFragment f) :=
  h.apply (.addFragment f)

theorem project (h : plan.IsBuilt) (name : String) (e : Expr) : IsBuilt (plan.project name e) :=
  h.apply (.project name e)

theorem filter (h : plan.IsBuilt) (c : Condition) : IsBuilt (plan.filter c) := h.apply (.filter c)

theorem orderBy (h : plan.IsBuilt) (e : Expr) : IsBuilt (plan.orderBy e) := h.apply (.orderBy e)

theorem setLimit (h : plan.IsBuilt) (limit : Int64) : IsBuilt (plan.setLimit limit) :=
  h.apply (.setLimit limit)

theorem addColumn (h : plan.IsBuilt) (column : String) :
    IsBuilt (plan.addColumn qualifiers column) := by
  unfold Plan.addColumn
  split
  · refine project ?_ column _
    split
    · exact h.addFragment subjectFragment
    · exact h
  · split
    · exact (h.addFragment _).project column _
    · exact h

theorem orSubject (h : plan.IsBuilt) : plan.orSubject.IsBuilt := by
  unfold Plan.orSubject
  split
  · exact h.project _ _
  · exact h

theorem addPlaces (h : plan.IsBuilt) (location : Option Qualifier) (places : PlaceFilter) :
    IsBuilt (plan.addPlaces location places) := by
  unfold Plan.addPlaces
  split
  · exact h.filter _
  · refine filter (List.foldlRecOn _ _ ?_ fun plan hplan level _ => hplan.addFragment _) _
    cases location with
    | none => exact h
    | some q => exact h.addFragment q.fragment

theorem addOrder (h : plan.IsBuilt) : IsBuilt (plan.addOrder qualifiers) := by
  unfold Plan.addOrder
  refine orderBy ?_ _
  split
  · split
    · exact (h.orderBy _).orderBy _
    · exact h.orderBy _
  · exact h.orderBy _

end IsBuilt

/-- A plan is built in steps, and its SQL is built by the same steps. -/
theorem exists_steps_of_ofRequest {property dataset : String} {qualifiers : List Qualifier}
    {columns : List String} {places : PlaceFilter} {limit : Int64} {plan : Plan}
    (h : ofRequest property dataset qualifiers columns places limit = .ok plan) :
    ∃ steps, plan = .built .observation steps ∧ plan.toSql = .built Alias.observation.sql
      (steps.map (·.map TableName.name Alias.sql Expr.sql Condition.sql)) := by
  have hbuilt : plan.IsBuilt := by
    rw [ofRequest] at h
    cases hcheck : checkQualifiers qualifiers with
    | error e => rw [hcheck] at h; exact nomatch h
    | ok =>
      rw [hcheck] at h
      obtain rfl := Except.ok.inj h
      have hbase : IsBuilt (Select.ofBase .observation) := ⟨[], rfl⟩
      have hcolumns := List.foldlRecOn (if columns.isEmpty then allColumns qualifiers else columns)
        (addColumn qualifiers) (hbase.addFragment baseFragment)
        fun plan hplan column _ => hplan.addColumn column
      exact ((((hcolumns.orSubject.filter _).filter _).addPlaces _ _).addOrder).setLimit limit
  obtain ⟨steps, rfl⟩ := hbuilt
  exact ⟨steps, rfl, Select.map_built ..⟩

end Plan

end FactGraph
