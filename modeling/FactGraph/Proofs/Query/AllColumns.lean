import Mathlib.Data.List.Pairwise
import FactGraph.Proofs.Qualifier.Name
import FactGraph.Proofs.Query.Scope

/-!
# Queries for all columns

A request without columns gets all of them: those of every observation, then those of each
qualifier (`Plan.columnNames_assembled_nil`). A qualifier is exposed if the plan joins it and shows
each of its fields, and nothing else, under the name of the field (`Plan.Exposes`).

The names of the fields are the names of the qualifiers with suffixes, and only the names of whole
qualifiers are told apart. So a field can be called like a column of every observation, or like a
field of an earlier qualifier, which is then shown in its place. And a qualifier that is called
`base` has no joins, since every plan has an owner of that name. **All qualifiers are exposed, under
different names, exactly where none of this happens** (`Plan.exposes_all_iff`).
-/

namespace FactGraph

/-! ## Fields -/

namespace Qualifier

variable {q r : Qualifier} {column : String} {expr : Expr}

theorem name_ne_append {suffix : String} (h : suffix ≠ "") : q.name ≠ q.name ++ suffix := by
  intro heq
  have hlist := congrArg String.toList heq
  rw [String.toList_append, List.self_eq_append_right, String.toList_eq_nil_iff] at hlist
  exact h hlist

theorem nodup_fieldNames (q : Qualifier) : q.fieldNames.Nodup := by
  unfold fieldNames fields
  split
  · simpa using name_ne_append (by decide)
  · have hunits : q.name ++ "_unit_id" ≠ q.name ++ "_unit" := by
      simp [String.append_right_inj]
    simpa [hunits] using ⟨name_ne_append (by decide), name_ne_append (by decide)⟩
  · simpa using name_ne_append (by decide)
  · simpa using name_ne_append (by decide)
  · simp
  · simp

theorem mem_fieldNames_of_mem_fields (h : (column, expr) ∈ q.fields) : column ∈ q.fieldNames :=
  List.mem_map.2 ⟨_, h, rfl⟩

theorem name_mem_fieldNames (q : Qualifier) : q.name ∈ q.fieldNames := List.mem_cons_self

theorem isSome_field?_iff : (q.field? column).isSome = true ↔ column ∈ q.fieldNames := by
  simp only [field?, Option.isSome_map, List.find?_isSome, fieldNames, List.mem_map,
    decide_eq_true_eq]

theorem field?_eq_some_iff : q.field? column = some expr ↔ (column, expr) ∈ q.fields := by
  constructor
  · exact mem_fields_of_field?
  · intro h
    obtain ⟨field, hfield⟩ := Option.isSome_iff_exists.1 (List.find?_isSome.2
      ⟨_, h, decide_eq_true rfl⟩ : (q.fields.find? (·.1 = column)).isSome)
    have hname : field.1 = column := by simpa using List.find?_some hfield
    have heq := List.inj_on_of_nodup_map q.nodup_fieldNames (List.mem_of_find?_eq_some hfield) h
      hname
    rw [field?, hfield, heq]
    rfl

end Qualifier

namespace BaseColumn

theorem isSome_ofName?_iff {column : String} :
    (ofName? column).isSome = true ↔ column ∈ all.map (·.name) := by
  simp only [ofName?, List.find?_isSome, List.mem_map, decide_eq_true_eq]

theorem nodup_names : (all.map (·.name)).Nodup := by decide

end BaseColumn

namespace Plan

variable {qualifiers : List Qualifier} {q : Qualifier} {column property dataset : String}
  {expr : Expr} {places : PlaceFilter} {limit : Int64} {plan : Plan}

/-- The columns that show something are those of every observation and the fields. -/
theorem isSome_shown?_iff :
    (shown? qualifiers column).isSome = true ↔ column ∈ allColumns qualifiers := by
  rw [allColumns, List.mem_append, ← BaseColumn.isSome_ofName?_iff, List.mem_flatMap]
  unfold shown?
  cases BaseColumn.ofName? column with
  | some base => simp
  | none => simp [ownerOf?, List.findSome?_isSome_iff, Qualifier.isSome_field?_iff]

theorem columns_assembled_nil :
    (assembled property dataset qualifiers [] places limit).columns =
      (allColumns qualifiers).filterMap fun column =>
        (shown? qualifiers column).map (column, ·) := by
  show shownColumns qualifiers [] = _
  rw [shownColumns]
  refine if_neg fun hempty => ?_
  have hnone := List.filterMap_eq_nil_iff.1 (List.isEmpty_iff.1 hempty) BaseColumn.subjectId.name
    (List.mem_append_left _ (by decide))
  exact Option.some_ne_none _ hnone

/-- **A request without columns gets all of them.** -/
theorem columnNames_assembled_nil :
    (assembled property dataset qualifiers [] places limit).columnNames =
      allColumns qualifiers := by
  rw [Select.columnNames, columns_assembled_nil, List.map_filterMap,
    List.filterMap_congr (g := some) fun column hcolumn => ?_, List.filterMap_some]
  obtain ⟨expr, hexpr⟩ := Option.isSome_iff_exists.1 (isSome_shown?_iff.2 hcolumn)
  rw [hexpr]
  rfl

/-! ## Fields that are told apart -/

/-- No field is called like a column of every observation, or like a field of another qualifier. -/
structure TellsFieldsApart (qualifiers : List Qualifier) : Prop where
  unlike_base : ∀ q ∈ qualifiers, ∀ column ∈ q.fieldNames, column ∉ BaseColumn.all.map (·.name)
  disjoint : qualifiers.Pairwise fun q r => q.fieldNames.Disjoint r.fieldNames

theorem nodup_allColumns_iff : (allColumns qualifiers).Nodup ↔ TellsFieldsApart qualifiers := by
  rw [allColumns, List.nodup_append', List.nodup_flatMap]
  constructor
  · rintro ⟨-, ⟨-, hdisjoint⟩, hbase⟩
    exact ⟨fun q hq column hcolumn hmem =>
      hbase hmem (List.mem_flatMap.2 ⟨q, hq, hcolumn⟩), hdisjoint⟩
  · rintro ⟨hbase, hdisjoint⟩
    refine ⟨BaseColumn.nodup_names, ⟨fun q _ => q.nodup_fieldNames, hdisjoint⟩,
      fun column hmem hcolumn => ?_⟩
    obtain ⟨q, hq, hfield⟩ := List.mem_flatMap.1 hcolumn
    exact hbase q hq column hfield hmem

namespace TellsFieldsApart

theorem eq_of_mem_fieldNames (h : TellsFieldsApart qualifiers) {r : Qualifier}
    (hq : q ∈ qualifiers) (hr : r ∈ qualifiers) (hcolumn : column ∈ q.fieldNames)
    (hmem : column ∈ r.fieldNames) : q = r := by
  by_contra hne
  have hsymm : Std.Symm fun q r : Qualifier => q.fieldNames.Disjoint r.fieldNames :=
    ⟨fun _ _ => List.disjoint_symm⟩
  exact h.disjoint.forall hq hr hne hcolumn hmem

theorem ownerOf?_eq (h : TellsFieldsApart qualifiers) (hq : q ∈ qualifiers)
    (hfield : (column, expr) ∈ q.fields) : ownerOf? qualifiers column = some (q, expr) := by
  have hname := Qualifier.mem_fieldNames_of_mem_fields hfield
  have howner : (ownerOf? qualifiers column).isSome = true := by
    rw [ownerOf?, List.findSome?_isSome_iff]
    exact ⟨q, hq, by simpa using Qualifier.isSome_field?_iff.2 hname⟩
  obtain ⟨⟨r, other⟩, hfound⟩ := Option.isSome_iff_exists.1 howner
  obtain ⟨hr, hother⟩ := mem_of_ownerOf? hfound
  obtain rfl := h.eq_of_mem_fieldNames hq hr hname (Qualifier.mem_fieldNames_of_mem_fields hother)
  have heq := (Qualifier.field?_eq_some_iff.2 hother).symm.trans
    (Qualifier.field?_eq_some_iff.2 hfield)
  rw [hfound, Option.some.inj heq]

theorem ofName?_eq_none (h : TellsFieldsApart qualifiers) (hq : q ∈ qualifiers)
    (hcolumn : column ∈ q.fieldNames) : BaseColumn.ofName? column = none := by
  rw [← Option.not_isSome_iff_eq_none, BaseColumn.isSome_ofName?_iff]
  exact h.unlike_base q hq column hcolumn

theorem shown?_eq (h : TellsFieldsApart qualifiers) (hq : q ∈ qualifiers)
    (hfield : (column, expr) ∈ q.fields) : shown? qualifiers column = some expr := by
  rw [shown?, h.ofName?_eq_none hq (Qualifier.mem_fieldNames_of_mem_fields hfield),
    h.ownerOf?_eq hq hfield]
  rfl

/-- Each qualifier is asked for by its first column. -/
theorem qualifier_mem_columnNeeds (h : TellsFieldsApart qualifiers) (hq : q ∈ qualifiers) :
    .qualifier q ∈ columnNeeds qualifiers [] := by
  have hfield : (q.name, q.valueExpr) ∈ q.fields := List.mem_cons_self
  refine List.mem_cons_of_mem _ (List.mem_filterMap.2 ⟨q.name, ?_, ?_⟩)
  · exact List.mem_append_right _ (List.mem_flatMap.2 ⟨q, hq, q.name_mem_fieldNames⟩)
  · rw [columnNeed?, h.ofName?_eq_none hq q.name_mem_fieldNames, h.ownerOf?_eq hq hfield]
    rfl

end TellsFieldsApart

/-! ## Qualifiers that are exposed -/

/-- The plan joins the qualifier and shows each of its fields, and nothing else, under the name of
the field. -/
structure Exposes (plan : Plan) (q : Qualifier) : Prop where
  joined : q.fragment ∈ plan.fragments
  shown : ∀ column expr, (column, expr) ∈ q.fields →
    ∀ other, (column, other) ∈ plan.columns ↔ other = expr

theorem mem_columns_assembled_nil {other : Expr} (hcolumn : column ∈ allColumns qualifiers)
    (h : shown? qualifiers column = some expr) :
    (column, other) ∈ (assembled property dataset qualifiers [] places limit).columns ↔
      other = expr := by
  constructor
  · intro hmem
    exact Option.some.inj ((shown?_of_mem_columns hmem).symm.trans h)
  · rintro rfl
    rw [columns_assembled_nil, List.mem_filterMap]
    exact ⟨column, hcolumn, by rw [h]; rfl⟩

/-- The joins of a qualifier are left out only where it is called like what every plan has: the
label of the subject has the name of a column, and places are joined later. -/
theorem fragment_mem_assembled_nil (h : TellsFieldsApart qualifiers)
    (hnames : (qualifiers.map (·.name)).Nodup) (hq : q ∈ qualifiers) :
    q.fragment ∈ (assembled property dataset qualifiers [] places limit).fragments ↔
      q.name ≠ "base" := by
  have hfirst : Fragment.firsts ((columnNeeds qualifiers []).map Need.fragment) ⊆
      (assembled property dataset qualifiers [] places limit).fragments := by
    show _ ⊆ Fragment.firsts ((needs qualifiers [] places).map Need.fragment)
    rw [needs, List.append_assoc, List.map_append, Fragment.firsts_append]
    exact List.subset_append_left _ _
  constructor
  · intro hjoined hname
    have hbase : baseFragment ∈ (assembled property dataset qualifiers [] places limit).fragments :=
      hfirst List.mem_cons_self
    have heq : q.fragment = baseFragment := Fragment.eq_of_mem_firsts hjoined hbase hname
    have hsource : some (q.source .edge) = some Alias.amount :=
      congrArg (fun f => f.joins.head?.map (·.source)) heq
    cases hsource
  · intro hname
    have hneeded : q.fragment ∈ (columnNeeds qualifiers []).map Need.fragment :=
      List.mem_map.2 ⟨.qualifier q, h.qualifier_mem_columnNeeds hq, rfl⟩
    obtain ⟨f, hf, howner⟩ := Fragment.exists_mem_firsts hneeded
    obtain ⟨need, hneed, rfl⟩ := List.mem_map.1 (Fragment.mem_of_mem_firsts hf)
    -- The fragment that was joined first for this owner belongs to a column, and only the qualifier
    -- itself has the name.
    suffices hsame : need = .qualifier q by
      subst hsame
      exact hfirst hf
    rcases List.mem_cons.1 hneed with rfl | hneed
    · exact absurd howner.symm hname
    · obtain ⟨column, -, hcolumn⟩ := List.mem_filterMap.1 hneed
      obtain rfl | ⟨r, hr, rfl⟩ := columnNeed?_cases hcolumn
      · have hsubject : q.name ∈ BaseColumn.all.map (·.name) := by
          rw [← show BaseColumn.subject.name = q.name from howner]
          decide
        exact absurd hsubject (h.unlike_base q hq q.name q.name_mem_fieldNames)
      · rw [List.inj_on_of_nodup_map hnames hr hq howner]

/-- **A plan for all columns shows them under different names and exposes all qualifiers, exactly
if their fields are told apart and none is called like what every plan has.** -/
theorem exposes_all_iff
    (hplan : ofRequest property dataset qualifiers [] places limit = .ok plan) :
    (plan.columnNames.Nodup ∧ ∀ q ∈ qualifiers, plan.Exposes q) ↔
      TellsFieldsApart qualifiers ∧ ∀ q ∈ qualifiers, q.name ≠ "base" := by
  obtain ⟨hcheck, rfl⟩ := (ofRequest_eq_ok_iff qualifiers).1 hplan
  have hnames := nodup_names_of_checkQualifiers hcheck
  rw [columnNames_assembled_nil, nodup_allColumns_iff]
  refine and_congr_right fun hfields => forall₂_congr fun q hq => ?_
  rw [← fragment_mem_assembled_nil hfields hnames hq]
  constructor
  · exact Exposes.joined
  · intro hjoined
    refine ⟨hjoined, fun column expr hfield other => ?_⟩
    refine mem_columns_assembled_nil ?_ (hfields.shown?_eq hq hfield)
    exact List.mem_append_right _ (List.mem_flatMap.2
      ⟨q, hq, Qualifier.mem_fieldNames_of_mem_fields hfield⟩)

/-- Two qualifiers with fields of their own are both shown, though none was asked for. -/
theorem exposes_all_iff_sourced :
    let time : Qualifier := ⟨"time", "P585", .stored .dateAndTime, false, false⟩
    let source : Qualifier := ⟨"source", "P9999", .stored .string, true, false⟩
    Qualifier.resolve "P585" none "point in time" none = .ok time ∧
    Qualifier.resolve "P9999" none "Source" none = .ok source ∧
    ∃ plan, ofRequest "P10" "Q99" [time, source] [] ⟨["Q30"], [], [], []⟩ 0 = .ok plan ∧
      plan.columnNames.Nodup ∧ ∀ q ∈ [time, source], plan.Exposes q := by
  intro time source
  obtain ⟨plan, hplan⟩ : ∃ plan, ofRequest "P10" "Q99" [time, source] [] ⟨["Q30"], [], [], []⟩ 0 =
      .ok plan := ⟨_, rfl⟩
  have hfields : TellsFieldsApart [time, source] :=
    nodup_allColumns_iff.1 (by decide +kernel)
  exact ⟨by decide +kernel, by decide +kernel, plan, hplan,
    (exposes_all_iff hplan).2 ⟨hfields, by decide⟩⟩

/-- A qualifier that is labelled `Value` is called like a column of every observation: both columns
show the amount, and the qualifier is not even joined. -/
theorem not_exposes_value :
    let value : Qualifier := ⟨"value", "P77", .stored .string, true, false⟩
    Qualifier.resolve "P77" none "Value" none = .ok value ∧
    ∃ plan, ofRequest "P10" "Q99" [value] [] ⟨[], [], [], []⟩ 0 = .ok plan ∧
      ¬plan.columnNames.Nodup ∧ (value.name, value.valueExpr) ∉ plan.columns ∧
      value.fragment ∉ plan.fragments := by
  intro value
  exact ⟨by decide +kernel, _, rfl, by decide +kernel, by decide +kernel, by decide +kernel⟩

end Plan

end FactGraph
