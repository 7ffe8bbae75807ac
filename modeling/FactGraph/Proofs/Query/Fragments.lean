import Mathlib.Data.List.Nodup
import FactGraph.Query.Observation

/-!
# What a plan is made of

A request asks for parts of a query: the quantity and the dataset always, the label of the subject
and the qualifiers where a column shows them, and the regions of a filtered place
(`Plan.needs`). Each part asks for its fragment. Of the fragments of one owner only the first is
joined (`Fragment.firsts`), so a plan is known from its parts (`Plan.ofRequest_eq`).
-/

namespace FactGraph

/-! ## The first fragment of each owner -/

namespace Fragment

variable {τ α χ : Type} {f g : Fragment τ α χ} {fs gs : List (Fragment τ α χ)}

/-- The fragments without those whose owner has an earlier one. -/
def firsts : List (Fragment τ α χ) → List (Fragment τ α χ)
  | [] => []
  | f :: fs => f :: (firsts fs).filter (·.owner ≠ f.owner)

theorem mem_of_mem_firsts (h : f ∈ firsts fs) : f ∈ fs := by
  induction fs with
  | nil => exact h
  | cons g fs ih =>
    rcases List.mem_cons.1 h with rfl | h
    · exact List.mem_cons_self
    · exact List.mem_cons_of_mem _ (ih (List.mem_of_mem_filter h))

theorem exists_mem_firsts (h : f ∈ fs) : ∃ g ∈ firsts fs, g.owner = f.owner := by
  induction fs with
  | nil => simp at h
  | cons g fs ih =>
    by_cases howner : g.owner = f.owner
    · exact ⟨g, List.mem_cons_self, howner⟩
    · rcases List.mem_cons.1 h with rfl | h
      · exact absurd rfl howner
      · obtain ⟨first, hfirst, hsame⟩ := ih h
        refine ⟨first, List.mem_cons_of_mem _ (List.mem_filter.2 ⟨hfirst, ?_⟩), hsame⟩
        simpa [hsame] using Ne.symm howner

theorem mem_owners_firsts {owner : String} :
    owner ∈ (firsts fs).map Fragment.owner ↔ owner ∈ fs.map Fragment.owner := by
  simp only [List.mem_map]
  constructor
  · rintro ⟨f, hf, rfl⟩
    exact ⟨f, mem_of_mem_firsts hf, rfl⟩
  · rintro ⟨f, hf, rfl⟩
    exact exists_mem_firsts hf

theorem nodup_owners_firsts (fs : List (Fragment τ α χ)) :
    ((firsts fs).map Fragment.owner).Nodup := by
  induction fs with
  | nil => exact .nil
  | cons f fs ih =>
    refine List.nodup_cons.2 ⟨fun hmem => ?_, ih.sublist (List.filter_sublist.map _)⟩
    obtain ⟨g, hg, howner⟩ := List.mem_map.1 hmem
    simp [howner] at hg

theorem eq_of_mem_firsts (hf : f ∈ firsts fs) (hg : g ∈ firsts fs) (h : f.owner = g.owner) :
    f = g :=
  List.inj_on_of_nodup_map (nodup_owners_firsts fs) hf hg h

theorem firsts_append (fs gs : List (Fragment τ α χ)) :
    firsts (fs ++ gs) =
      firsts fs ++ (firsts gs).filter (·.owner ∉ fs.map Fragment.owner) := by
  induction fs with
  | nil => simp [firsts]
  | cons f fs ih =>
    simp only [List.cons_append, firsts, ih, List.filter_append, List.filter_filter]
    congr 2
    refine List.filter_congr fun g _ => ?_
    simp [not_or]

theorem firsts_eq_self (h : (fs.map Fragment.owner).Nodup) : firsts fs = fs := by
  induction fs with
  | nil => rfl
  | cons f fs ih =>
    obtain ⟨hnew, hrest⟩ := List.nodup_cons.1 h
    rw [firsts, ih hrest, List.filter_eq_self.2]
    intro g hg
    have : g.owner ≠ f.owner := fun howner => hnew (List.mem_map.2 ⟨g, hg, howner⟩)
    simpa using this

end Fragment

namespace Select

variable {τ α ε χ : Type} {s : Select τ α ε χ} {fs : List (Fragment τ α χ)}

/-- **A plan holds the first fragment of each owner that was added.** -/
theorem addFragment_eq (h : s.fragments = Fragment.firsts fs) (f : Fragment τ α χ) :
    s.addFragment f = { s with fragments := Fragment.firsts (fs ++ [f]) } := by
  have howner : s.hasFragment f.owner = true ↔ f.owner ∈ fs.map Fragment.owner := by
    rw [hasFragment, decide_eq_true_iff, owners, h, Fragment.mem_owners_firsts]
  rw [addFragment, Fragment.firsts_append]
  by_cases hmem : f.owner ∈ fs.map Fragment.owner
  · rw [if_pos (howner.2 hmem), List.filter_eq_nil_iff.2]
    · rw [List.append_nil, ← h]
    · simpa [Fragment.firsts] using hmem
  · rw [if_neg (mt howner.1 hmem), List.filter_eq_self.2]
    · simp [Fragment.firsts, h]
    · simpa [Fragment.firsts] using hmem

end Select

/-! ## The parts of a request -/

namespace Plan

/-- A part of a query that a request asks for. -/
inductive Need where
  /-- The quantity and the dataset. -/
  | base
  /-- The label of the subject. -/
  | subject
  | qualifier (q : Qualifier)
  /-- The regions of a node at a level. -/
  | place (node : Operand) (level : AdminLevel)
  deriving DecidableEq, Repr

namespace Need

def fragment : Need → JoinFragment
  | base => baseFragment
  | subject => subjectFragment
  | qualifier q => q.fragment
  | place node level => placeFragment node level

/-- The owner of the fragment. -/
def owner (need : Need) : String := need.fragment.owner

/-- The part is the same whatever the qualifiers are called. -/
def isFixed : Need → Bool
  | qualifier _ => false
  | _ => true

def qualifier? : Need → Option Qualifier
  | qualifier q => some q
  | _ => none

end Need

/-- The first qualifier that has a column of this name, and what the column shows. -/
def ownerOf? (qualifiers : List Qualifier) (column : String) : Option (Qualifier × Expr) :=
  qualifiers.findSome? fun q => (q.field? column).map (q, ·)

/-- What a column shows. -/
def shown? (qualifiers : List Qualifier) (column : String) : Option Expr :=
  match BaseColumn.ofName? column with
  | some base => some base.expr
  | none => (ownerOf? qualifiers column).map (·.2)

/-- The part that a column needs beyond those of every query. -/
def columnNeed? (qualifiers : List Qualifier) (column : String) : Option Need :=
  match BaseColumn.ofName? column with
  | some base => if base = .subject then some .subject else none
  | none => (ownerOf? qualifiers column).map (.qualifier ·.1)

/-- The columns of a request; a request without any has all of them. -/
def requested (qualifiers : List Qualifier) (columns : List String) : List String :=
  if columns.isEmpty then allColumns qualifiers else columns

/-- The parts that the columns of a request need. -/
def columnNeeds (qualifiers : List Qualifier) (columns : List String) : List Need :=
  .base :: (requested qualifiers columns).filterMap (columnNeed? qualifiers)

/-- The node whose regions are filtered. -/
def locationNode (location : Option Qualifier) : Operand :=
  match location with
  | some q => q.node
  | none => ⟨.observation, .node1⟩

/-- The qualifier that tells the location, if places are filtered. -/
def regionNeeds (location : Option Qualifier) (places : PlaceFilter) : List Need :=
  if places.isEmpty then [] else location.toList.map .qualifier

/-- The regions at the levels that are filtered. -/
def levelNeeds (location : Option Qualifier) (places : PlaceFilter) : List Need :=
  places.levels.map (.place (locationNode location))

/-- The parts of a request, in the order in which they are asked for. -/
def needs (qualifiers : List Qualifier) (columns : List String) (places : PlaceFilter) :
    List Need :=
  let location := region? qualifiers
  columnNeeds qualifiers columns ++ regionNeeds location places ++ levelNeeds location places

/-- The qualifiers that a request needs. -/
def neededQualifiers (qualifiers : List Qualifier) (columns : List String)
    (places : PlaceFilter) : List Qualifier :=
  (needs qualifiers columns places).filterMap Need.qualifier?

/-- The fragments that a request joins: those of its parts, as far as their owners are new. -/
def joinedFragments (qualifiers : List Qualifier) (columns : List String)
    (places : PlaceFilter) : List JoinFragment :=
  Fragment.firsts ((needs qualifiers columns places).map Need.fragment)

/-- The columns of the requested names that are known. -/
def shownColumns (qualifiers : List Qualifier) (columns : List String) : List (String × Expr) :=
  let known := (requested qualifiers columns).filterMap fun column =>
    (shown? qualifiers column).map (column, ·)
  if known.isEmpty then [(BaseColumn.subjectId.name, BaseColumn.subjectId.expr)] else known

/-- Regions at each level that is filtered, and those that are asked for. -/
def placeAlternatives (places : PlaceFilter) : List (Operand × List String) :=
  places.levels.map fun level => (⟨.place level, .node2⟩, places.ids level)

/-- What rows are ordered by between subject and observation. -/
def timeOrder (qualifiers : List Qualifier) (owners : List String) : List Expr :=
  match qualifiers.find? (·.name = Qualifier.timeName) with
  | some time => if time.name ∈ owners then [time.valueExpr] else []
  | none => []

/-- The plan of a request, part by part. -/
def assembled (property dataset : String) (qualifiers : List Qualifier) (columns : List String)
    (places : PlaceFilter) (limit : Int64) : Plan where
  base := .observation
  fragments := joinedFragments qualifiers columns places
  columns := shownColumns qualifiers columns
  conditions :=
    [.equals ⟨.observation, .label⟩ property, .equals ⟨.dataset, .node2⟩ dataset,
      .anyIn (placeAlternatives places)]
  order :=
    .operand ⟨.observation, .node1⟩ ::
      timeOrder qualifiers ((needs qualifiers columns places).map Need.owner) ++
      [.operand ⟨.observation, .id⟩]
  limit := if 0 < limit.toInt then some limit.toInt.toNat else none

/-! ## Assembly -/

/-- The plan with the fragments of the parts that were asked for. -/
def withParts (plan : Plan) (asked : List Need) : Plan :=
  { plan with fragments := Fragment.firsts (asked.map Need.fragment) }

/-- The plan with an output column, if there is something to show. -/
def show? (plan : Plan) (column : String) : Option Expr → Plan
  | some expr => plan.project column expr
  | none => plan

variable (plan : Plan) (asked : List Need) (qualifiers : List Qualifier)

theorem addFragment_need (need : Need) :
    (plan.withParts asked).addFragment need.fragment = plan.withParts (asked ++ [need]) := by
  have hparts : (plan.withParts asked).fragments =
      Fragment.firsts (asked.map Need.fragment) := rfl
  rw [Select.addFragment_eq hparts]
  simp [withParts]

theorem hasFragment_withParts (owner : String) :
    (plan.withParts asked).hasFragment owner = decide (owner ∈ asked.map Need.owner) := by
  rw [Select.hasFragment, decide_eq_decide, Select.owners, withParts, Fragment.mem_owners_firsts,
    List.map_map]
  rfl

theorem addColumn_eq (column : String) :
    addColumn qualifiers (plan.withParts asked) column =
      (plan.show? column (shown? qualifiers column)).withParts
        (asked ++ (columnNeed? qualifiers column).toList) := by
  unfold addColumn columnNeed? shown? ownerOf?
  -- A column of every observation asks for nothing, unless it is the label of the subject. Any
  -- other asks for its qualifier, if it has one.
  cases BaseColumn.ofName? column with
  | some base =>
    by_cases hsubject : base = .subject
    · have hadd := addFragment_need plan asked .subject
      rw [Need.fragment] at hadd
      simp only [hsubject, if_true, hadd]
      rfl
    · simp only [hsubject, if_false, Option.toList_none, List.append_nil]
      rfl
  | none =>
    cases qualifiers.findSome? fun q => (q.field? column).map (q, ·) with
    | some found =>
      have hadd := addFragment_need plan asked (.qualifier found.1)
      rw [Need.fragment] at hadd
      simp only [hadd, Option.map_some]
      rfl
    | none => simp [show?]

theorem foldl_addColumn_eq (columns : List String) :
    columns.foldl (addColumn qualifiers) (plan.withParts asked) =
      (columns.foldl (fun plan column => plan.show? column (shown? qualifiers column))
        plan).withParts (asked ++ columns.filterMap (columnNeed? qualifiers)) := by
  induction columns generalizing plan asked with
  | nil => simp
  | cons column columns ih =>
    rw [List.foldl_cons, addColumn_eq, ih, List.foldl_cons]
    cases hneed : columnNeed? qualifiers column <;> simp [hneed]

theorem foldl_show?_eq (columns : List String) :
    columns.foldl (fun plan column => plan.show? column (shown? qualifiers column)) plan =
      { plan with columns := plan.columns ++ columns.filterMap fun column =>
          (shown? qualifiers column).map (column, ·) } := by
  induction columns generalizing plan with
  | nil => simp
  | cons column columns ih =>
    rw [List.foldl_cons, ih]
    cases hshown : shown? qualifiers column <;> simp [show?, hshown, Select.project]

theorem orSubject_eq :
    orSubject plan =
      { plan with
        columns :=
          if plan.columns.isEmpty then [(BaseColumn.subjectId.name, BaseColumn.subjectId.expr)]
          else plan.columns } := by
  unfold orSubject
  split
  next hempty => rw [Select.project, List.isEmpty_iff.1 hempty, List.nil_append]
  next => rfl

theorem filter_withParts (condition : Condition) :
    (plan.withParts asked).filter condition = withParts (plan.filter condition) asked := rfl

theorem foldl_addFragment_place (node : Operand) (levels : List AdminLevel) :
    levels.foldl (fun plan level => plan.addFragment (placeFragment node level))
        (plan.withParts asked) =
      plan.withParts (asked ++ levels.map (Need.place node)) := by
  induction levels generalizing asked with
  | nil => simp
  | cons level levels ih =>
    have hstep := addFragment_need plan asked (.place node level)
    rw [Need.fragment] at hstep
    rw [List.foldl_cons, hstep, ih]
    simp

theorem addPlaces_eq (location : Option Qualifier) (places : PlaceFilter) :
    addPlaces location places (plan.withParts asked) =
      withParts (plan.filter (.anyIn (placeAlternatives places)))
        (asked ++ regionNeeds location places ++ levelNeeds location places) := by
  unfold addPlaces regionNeeds levelNeeds
  split
  next hempty =>
    have hlevels : places.levels = [] := List.isEmpty_iff.1 hempty
    simp only [placeAlternatives, hlevels, List.map_nil, List.append_nil]
    rfl
  next =>
    cases location with
    | some q =>
      have hregion := addFragment_need plan asked (.qualifier q)
      rw [Need.fragment] at hregion
      simp only [hregion, foldl_addFragment_place, locationNode, Option.toList_some,
        List.map_singleton]
      rfl
    | none =>
      simp only [foldl_addFragment_place, locationNode, Option.toList_none, List.map_nil,
        List.append_nil]
      rfl

theorem addOrder_eq :
    addOrder qualifiers (plan.withParts asked) =
      withParts { plan with
        order := plan.order ++ Expr.operand ⟨.observation, .node1⟩ ::
          timeOrder qualifiers (asked.map Need.owner) ++
            [Expr.operand ⟨.observation, .id⟩] } asked := by
  unfold addOrder timeOrder
  simp only [hasFragment_withParts, decide_eq_true_eq]
  cases qualifiers.find? (·.name = Qualifier.timeName) with
  | none => simp [Select.orderBy, withParts]
  | some time => by_cases htime : time.name ∈ asked.map Need.owner <;>
      simp [Select.orderBy, withParts, htime]

/-- **The plan of a request is put together from its parts.** -/
theorem ofRequest_eq (property dataset : String) (columns : List String) (places : PlaceFilter)
    (limit : Int64) :
    ofRequest property dataset qualifiers columns places limit =
      (checkQualifiers qualifiers).map fun _ =>
        assembled property dataset qualifiers columns places limit := by
  have hstart : (Select.ofBase .observation : Plan).addFragment baseFragment =
      withParts (Select.ofBase .observation) [.base] :=
    addFragment_need (Select.ofBase .observation) [] .base
  unfold ofRequest
  cases checkQualifiers qualifiers with
  | error cause => rfl
  | ok _ =>
    have hjoined : orSubject ((requested qualifiers columns).foldl (addColumn qualifiers)
        ((Select.ofBase .observation).addFragment baseFragment)) =
        withParts { Select.ofBase .observation with columns := shownColumns qualifiers columns }
          (columnNeeds qualifiers columns) := by
      rw [hstart, foldl_addColumn_eq, foldl_show?_eq, orSubject_eq]
      rfl
    show Except.ok _ = Except.ok _
    rw [show (if columns.isEmpty = true then allColumns qualifiers else columns) =
      requested qualifiers columns from rfl, hjoined, filter_withParts, filter_withParts,
      addPlaces_eq, addOrder_eq]
    rfl

theorem ofRequest_eq_ok_iff {property dataset : String} {columns : List String}
    {places : PlaceFilter} {limit : Int64} {plan : Plan} :
    ofRequest property dataset qualifiers columns places limit = .ok plan ↔
      checkQualifiers qualifiers = .ok () ∧
        plan = assembled property dataset qualifiers columns places limit := by
  rw [ofRequest_eq]
  cases checkQualifiers qualifiers with
  | error cause => simp [Except.map]
  | ok _ => simp [Except.map, eq_comm]

end Plan

end FactGraph
