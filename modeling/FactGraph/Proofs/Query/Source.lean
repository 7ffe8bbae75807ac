import FactGraph.Proofs.Query.Alias
import FactGraph.Proofs.Query.Fragments
import FactGraph.Query.Evaluate

/-!
# The names of parts

Each part of a request joins its tables under names of its own (`Plan.Need.origin?_of_mem_sources`)
and uses no others, the observation apart; only a region is about a node that another part may have
joined (`Plan.Need.scoped`). An output column uses the names of the part that it asks for
(`Plan.mem_sources_of_shown?`).
-/

namespace FactGraph

/-! ## Names of parts -/

/-- The names under which a fragment joins tables. -/
def Fragment.sources {τ α χ : Type} (f : Fragment τ α χ) : List α := f.joins.map (·.source)

namespace Plan.Need

variable {need : Need} {a : Alias}

theorem sources_base :
    base.fragment.sources = [.amount, .dataset, .unitLabel, .unitText] := rfl
theorem sources_subject : subject.fragment.sources = [.subjectLabel, .subjectText] := rfl
theorem sources_place (node : Operand) (level : AdminLevel) :
    (place node level).fragment.sources = [.place level] := rfl

/-- The four tables of a qualifier are as many as its kind needs. -/
theorem sources_qualifier (q : Qualifier) :
    (qualifier q).fragment.sources =
      q.source .edge :: match q.kind with
        | .stored .quantity => [q.source .value, q.source .labelEdge, q.source .labelText]
        | .stored .symbol | .location => [q.source .labelEdge, q.source .labelText]
        | .stored _ => [q.source .value] := by
  obtain ⟨name, predicate, kind, isOptional, isRegion⟩ := q
  cases kind with
  | location => rfl
  | stored kind => cases kind <;> rfl

theorem exists_eq_source {q : Qualifier} (h : a ∈ (qualifier q).fragment.sources) :
    ∃ part, a = q.source part := by
  rw [sources_qualifier, List.mem_cons] at h
  rcases h with h | h
  · exact ⟨_, h⟩
  · split at h
    · rcases List.mem_cons.1 h with h | h
      · exact ⟨_, h⟩
      · rcases List.mem_pair.1 h with h | h <;> exact ⟨_, h⟩
    · rcases List.mem_pair.1 h with h | h <;> exact ⟨_, h⟩
    · rcases List.mem_pair.1 h with h | h <;> exact ⟨_, h⟩
    · exact ⟨_, List.mem_singleton.1 h⟩

/-- **Every name tells the part that it belongs to.** -/
theorem origin?_of_mem_sources (h : a ∈ need.fragment.sources) :
    a.origin? = some (need.isFixed, need.owner) := by
  cases need with
  | base =>
    rw [sources_base] at h
    simp only [List.mem_cons, List.not_mem_nil, or_false] at h
    rcases h with rfl | rfl | rfl | rfl <;> rfl
  | subject =>
    rw [sources_subject] at h
    simp only [List.mem_cons, List.not_mem_nil, or_false] at h
    rcases h with rfl | rfl <;> rfl
  | place node level =>
    rw [sources_place, List.mem_singleton] at h
    rw [h]
    rfl
  | qualifier q =>
    obtain ⟨part, rfl⟩ := exists_eq_source h
    rfl

theorem nodup_sources (need : Need) : need.fragment.sources.Nodup := by
  cases need with
  | base => rw [sources_base]; decide
  | subject => rw [sources_subject]; decide
  | place node level => rw [sources_place]; exact List.nodup_singleton _
  | qualifier q =>
    rw [sources_qualifier]
    split <;> simp [Qualifier.source]

end Plan.Need

/-! ## Conditions -/

section Conditions

variable {joined wider : List Alias} {as bs : List PlanJoin}

theorem joinsScoped_append :
    joinsScoped joined (as ++ bs) =
      (joinsScoped joined as && joinsScoped ((as.map (·.source)).reverse ++ joined) bs) := by
  induction as generalizing joined with
  | nil => rfl
  | cons j as ih => simp [joinsScoped, ih, Bool.and_assoc]

theorem joinsScoped_mono (hsub : joined ⊆ wider) (h : joinsScoped joined as = true) :
    joinsScoped wider as = true := by
  induction as generalizing joined wider with
  | nil => rfl
  | cons j as ih =>
    have hsub' : j.source :: joined ⊆ j.source :: wider := List.cons_subset_cons _ hsub
    simp only [joinsScoped, Bool.and_eq_true, List.all_eq_true, decide_eq_true_eq] at h ⊢
    exact ⟨fun a ha => hsub' (h.1 a ha), ih hsub' h.2⟩

theorem joinsScoped_flatMap {fs : List JoinFragment}
    (h : ∀ f ∈ fs, joinsScoped joined f.joins = true) :
    joinsScoped joined (fs.flatMap (·.joins)) = true := by
  induction fs generalizing joined with
  | nil => rfl
  | cons f fs ih =>
    rw [List.flatMap_cons, joinsScoped_append, Bool.and_eq_true]
    exact ⟨h f List.mem_cons_self, ih fun g hg =>
      joinsScoped_mono (List.subset_append_right _ _) (h g (List.mem_cons_of_mem _ hg))⟩

theorem mem_of_joinsScoped (h : joinsScoped joined as = true) {j : PlanJoin} (hj : j ∈ as)
    {a : Alias} (ha : a ∈ j.condition.sources) : a ∈ joined ∨ a ∈ as.map (·.source) := by
  induction as generalizing joined with
  | nil => simp at hj
  | cons first as ih =>
    simp only [joinsScoped, Bool.and_eq_true, List.all_eq_true, decide_eq_true_eq] at h
    rw [List.map_cons, List.mem_cons]
    rcases List.mem_cons.1 hj with rfl | hj
    · exact (List.mem_cons.1 (h.1 a ha)).elim (.inr ∘ .inl) .inl
    · rcases ih h.2 hj with hjoined | hlater
      · exact (List.mem_cons.1 hjoined).elim (.inr ∘ .inl) .inl
      · exact .inr (.inr hlater)

end Conditions

/-- A part uses its own names and the observation, or the node whose regions it is about. -/
theorem Plan.Need.scoped {joined : List Alias} (need : Need) (hobs : .observation ∈ joined)
    (hnode : ∀ node level, need = .place node level → node.source ∈ joined) :
    joinsScoped joined need.fragment.joins = true := by
  cases need with
  | base => simp [fragment, baseFragment, labelJoins, joinsScoped, Condition.sources, hobs]
  | subject => simp [fragment, subjectFragment, labelJoins, joinsScoped, Condition.sources, hobs]
  | place node level =>
    simp [fragment, placeFragment, joinsScoped, Condition.sources, hnode node level rfl]
  | qualifier q =>
    obtain ⟨name, predicate, kind, isOptional, isRegion⟩ := q
    cases kind with
    | location =>
      simp [fragment, Qualifier.fragment, Qualifier.edgeJoin, Qualifier.labelled, labelJoins,
        Qualifier.node, joinsScoped, Condition.sources, hobs]
    | stored kind =>
      cases kind <;> simp [fragment, Qualifier.fragment, Qualifier.edgeJoin, Qualifier.valueJoin,
        Qualifier.labelled, labelJoins, Qualifier.node, Qualifier.unit, joinsScoped,
        Condition.sources, hobs]

/-! ## Columns -/

theorem Expr.exists_mem_sources (expr : Expr) : ∃ a, a ∈ expr.sources := by
  cases expr <;> exact ⟨_, List.mem_cons_self⟩

namespace Qualifier

variable {q : Qualifier} {column : String} {expr : Expr}

theorem sources_subset_of_mem_fields (h : (column, expr) ∈ q.fields) :
    expr.sources ⊆ (Plan.Need.qualifier q).fragment.sources := by
  have hall : ∀ field ∈ q.fields, field.2.sources ⊆ (Plan.Need.qualifier q).fragment.sources := by
    rw [Plan.Need.sources_qualifier]
    obtain ⟨name, predicate, kind, isOptional, isRegion⟩ := q
    cases kind with
    | location => simp [fields, valueExpr, Expr.sources, labelText, node]
    | stored kind =>
      cases kind <;> simp [fields, valueExpr, Expr.sources, labelText, node, unit]
  exact hall _ h

theorem mem_fields_of_field? (h : q.field? column = some expr) : (column, expr) ∈ q.fields := by
  obtain ⟨field, hfield, rfl⟩ := Option.map_eq_some_iff.1 h
  have hname : field.1 = column := by simpa using List.find?_some hfield
  exact hname ▸ List.mem_of_find?_eq_some hfield

end Qualifier

namespace BaseColumn

theorem sources_expr (base : BaseColumn) :
    ∀ a ∈ base.expr.sources, a = .observation ∨ a ∈ Plan.Need.base.fragment.sources ∨
      base = .subject ∧ a ∈ Plan.Need.subject.fragment.sources := by
  cases base <;> decide

end BaseColumn

namespace Plan

variable {qualifiers : List Qualifier} {column : String} {expr : Expr} {need : Need} {a : Alias}

theorem mem_of_ownerOf? {q : Qualifier} (h : ownerOf? qualifiers column = some (q, expr)) :
    q ∈ qualifiers ∧ (column, expr) ∈ q.fields := by
  obtain ⟨found, hfound, hfield⟩ := List.exists_of_findSome?_eq_some h
  obtain ⟨shown, hshown, heq⟩ := Option.map_eq_some_iff.1 hfield
  obtain ⟨rfl, rfl⟩ := Prod.mk.injEq .. ▸ heq
  exact ⟨hfound, Qualifier.mem_fields_of_field? hshown⟩

/-- A column uses the observation, what every query has, and what it asks for. -/
theorem mem_sources_of_shown? (h : shown? qualifiers column = some expr)
    (ha : a ∈ expr.sources) :
    a = .observation ∨ a ∈ Need.base.fragment.sources ∨
      ∃ need, columnNeed? qualifiers column = some need ∧ a ∈ need.fragment.sources := by
  unfold shown? at h
  unfold columnNeed?
  cases hbase : BaseColumn.ofName? column with
  | some base =>
    simp only [hbase, Option.some.injEq] at h
    subst h
    rcases base.sources_expr a ha with hobs | hplain | ⟨hsubject, hmem⟩
    · exact .inl hobs
    · exact .inr (.inl hplain)
    · exact .inr (.inr ⟨.subject, by simp [hsubject], hmem⟩)
  | none =>
    simp only [hbase, Option.map_eq_some_iff] at h ⊢
    obtain ⟨⟨q, shown⟩, howner, rfl⟩ := h
    exact .inr (.inr ⟨.qualifier q, ⟨_, howner, rfl⟩,
      Qualifier.sources_subset_of_mem_fields (mem_of_ownerOf? howner).2 ha⟩)

theorem exists_source_of_columnNeed? (h : columnNeed? qualifiers column = some need) :
    ∃ expr a, shown? qualifiers column = some expr ∧ a ∈ expr.sources ∧
      a ∈ need.fragment.sources := by
  unfold columnNeed? at h
  unfold shown?
  cases hbase : BaseColumn.ofName? column with
  | some base =>
    simp only [hbase, Option.ite_none_right_eq_some, Option.some.injEq] at h
    obtain ⟨rfl, rfl⟩ := h
    exact ⟨_, .subjectText, rfl, by decide, by decide⟩
  | none =>
    simp only [hbase, Option.map_eq_some_iff] at h ⊢
    obtain ⟨⟨q, expr⟩, howner, rfl⟩ := h
    obtain ⟨a, ha⟩ := expr.exists_mem_sources
    exact ⟨expr, a, ⟨_, howner, rfl⟩, ha,
      Qualifier.sources_subset_of_mem_fields (mem_of_ownerOf? howner).2 ha⟩

end Plan

end FactGraph
