import FactGraph.Proofs.Query.AllColumns
import FactGraph.Proofs.Query.Places

/-!
# Plans with no join too many

A plan grows column by column, and once more for the places. Which joins it has in the end depends
neither on the order of the columns nor on how often one of them is named: **it joins what every
query has, what its columns show and what its places are told by, each once**
(`Plan.ofRequest_minimal`). The owners that a request needs are told by `Plan.NeedsOwner`, without
the plan. Two parts whose owners have the same name have one owner here; whether this is one too few
is the subject of `Plan.wellScoped_ofRequest_iff`.
-/

namespace FactGraph

namespace Qualifier

/-- The qualifier is the first that has a field of this name. -/
def IsFirstOwner (qualifiers : List Qualifier) (column : String) (q : Qualifier) : Prop :=
  ∃ before after, qualifiers = before ++ q :: after ∧ column ∈ q.fieldNames ∧
    ∀ r ∈ before, column ∉ r.fieldNames

theorem IsFirstOwner.mem {qualifiers : List Qualifier} {column : String} {q : Qualifier}
    (h : q.IsFirstOwner qualifiers column) : q ∈ qualifiers := by
  obtain ⟨before, after, rfl, -⟩ := h
  exact List.mem_append_right _ List.mem_cons_self

end Qualifier

namespace Plan

variable {qualifiers : List Qualifier} {columns : List String} {places : PlaceFilter}
  {property dataset column owner : String} {limit : Int64} {plan : Plan} {q : Qualifier}

/-- A request needs joins of this owner. -/
inductive NeedsOwner (qualifiers : List Qualifier) (columns : List String)
    (places : PlaceFilter) : String → Prop where
  | base : NeedsOwner qualifiers columns places "base"
  /-- The label of the subject is shown. -/
  | subject (h : "main_subject" ∈ requested qualifiers columns) :
    NeedsOwner qualifiers columns places "main_subject"
  /-- A column that not every observation has is a field of the qualifier. -/
  | field (q : Qualifier) (column : String) (hcolumn : column ∈ requested qualifiers columns)
    (hbase : column ∉ BaseColumn.all.map (·.name))
    (howner : Qualifier.IsFirstOwner qualifiers column q) :
    NeedsOwner qualifiers columns places q.name
  /-- Places are filtered, and the qualifier tells them. -/
  | region (q : Qualifier) (hplaces : places.isEmpty = false) (hq : q ∈ qualifiers)
    (hregion : q.isRegion = true) : NeedsOwner qualifiers columns places q.name
  /-- Regions are named at the level. -/
  | level (level : AdminLevel) (hlevel : places.ids level ≠ []) :
    NeedsOwner qualifiers columns places ("place_" ++ level.name)

/-! ## Columns -/

/-- The names of the columns that are shown: those that are known, or that of the subject. -/
theorem map_fst_shownColumns :
    let known := (requested qualifiers columns).filter (· ∈ allColumns qualifiers)
    (shownColumns qualifiers columns).map (·.1) =
      if known = [] then ["main_subject_id"] else known := by
  intro known
  have hknown : ((requested qualifiers columns).filterMap fun column =>
      (shown? qualifiers column).map (column, ·)).map (·.1) = known := by
    show _ = (requested qualifiers columns).filter (· ∈ allColumns qualifiers)
    rw [List.map_filterMap, ← List.filterMap_eq_filter]
    refine List.filterMap_congr fun column _ => ?_
    by_cases hmem : column ∈ allColumns qualifiers
    · obtain ⟨expr, hexpr⟩ := Option.isSome_iff_exists.1 (isSome_shown?_iff.2 hmem)
      simp [hexpr, hmem]
    · have hnone := Option.not_isSome_iff_eq_none.1 (mt isSome_shown?_iff.1 hmem)
      rw [hnone, Option.guard, if_neg (by simpa using hmem)]
      rfl
  rw [shownColumns]
  simp only [List.isEmpty_iff, ← hknown, List.map_eq_nil_iff]
  split <;> rfl

/-! ## Owners -/

theorem exists_ownerOf?_iff :
    (∃ expr, ownerOf? qualifiers column = some (q, expr)) ↔
      q.IsFirstOwner qualifiers column := by
  have hnone (r : Qualifier) : (r.field? column).map (r, ·) = none ↔ column ∉ r.fieldNames := by
    rw [Option.map_eq_none_iff, ← Option.not_isSome_iff_eq_none, Qualifier.isSome_field?_iff]
  have hsome (r : Qualifier) (expr : Expr) :
      (r.field? column).map (r, ·) = some (q, expr) ↔ r = q ∧ q.field? column = some expr := by
    rw [Option.map_eq_some_iff]
    constructor
    · rintro ⟨_, hfield, heq⟩
      obtain ⟨rfl, rfl⟩ := Prod.mk.inj heq
      exact ⟨rfl, hfield⟩
    · rintro ⟨rfl, hfield⟩
      exact ⟨expr, hfield, rfl⟩
  simp only [ownerOf?, List.findSome?_eq_some_iff, hnone, hsome]
  constructor
  · rintro ⟨expr, before, _, after, hsplit, ⟨rfl, hfield⟩, hbefore⟩
    refine ⟨before, after, hsplit, ?_, hbefore⟩
    exact Qualifier.isSome_field?_iff.1 (Option.isSome_iff_exists.2 ⟨expr, hfield⟩)
  · rintro ⟨before, after, hsplit, hmem, hbefore⟩
    obtain ⟨expr, hfield⟩ := Option.isSome_iff_exists.1 (Qualifier.isSome_field?_iff.2 hmem)
    exact ⟨expr, before, q, after, hsplit, ⟨rfl, hfield⟩, hbefore⟩

/-- A column asks for a qualifier if it is no column of every observation and the qualifier is the
first that has it. -/
theorem columnNeed?_eq_qualifier_iff :
    columnNeed? qualifiers column = some (.qualifier q) ↔
      column ∉ BaseColumn.all.map (·.name) ∧ q.IsFirstOwner qualifiers column := by
  rw [← BaseColumn.isSome_ofName?_iff, ← exists_ownerOf?_iff, columnNeed?]
  cases BaseColumn.ofName? column with
  | some base => simp
  | none => simp

theorem columnNeed?_eq_subject_iff :
    columnNeed? qualifiers column = some .subject ↔ column = "main_subject" := by
  constructor
  · intro h
    obtain ⟨base, hbase, hsubject⟩ : ∃ base, BaseColumn.ofName? column = some base ∧
        base = .subject := by
      unfold columnNeed? at h
      cases hbase : BaseColumn.ofName? column with
      | some base => exact ⟨base, rfl, by simpa [hbase] using h⟩
      | none => simp [hbase] at h
    have hname : base.name = column := by simpa using List.find?_some hbase
    rw [← hname, hsubject]
    rfl
  · rintro rfl
    rfl

theorem region?_eq_some_iff (h : checkQualifiers qualifiers = .ok ()) :
    region? qualifiers = some q ↔ q ∈ qualifiers ∧ q.isRegion = true := by
  have hhead : region? qualifiers = (qualifiers.filter (·.isRegion)).head? :=
    List.head?_filter.symm
  rw [← List.mem_filter, hhead]
  unfold checkQualifiers at h
  split at h
  next => exact nomatch h
  next hmost =>
    rcases hregions : qualifiers.filter (·.isRegion) with _ | ⟨first, _ | ⟨second, rest⟩⟩
    · rw [hregions]
      simp
    · rw [hregions, List.head?_cons, List.mem_singleton, Option.some.injEq, eq_comm]
    · exact (hmost first second rest hregions).elim

theorem mem_owners_assembled :
    owner ∈ (assembled property dataset qualifiers columns places limit).owners ↔
      ∃ need ∈ needs qualifiers columns places, need.owner = owner := by
  show owner ∈ (Fragment.firsts ((needs qualifiers columns places).map Need.fragment)).map
    Fragment.owner ↔ _
  rw [Fragment.mem_owners_firsts, List.map_map, List.mem_map]
  rfl

theorem needsOwner_of_mem_needs (hcheck : checkQualifiers qualifiers = .ok ()) {need : Need}
    (h : need ∈ needs qualifiers columns places) :
    NeedsOwner qualifiers columns places need.owner := by
  rcases mem_needs.1 h with rfl | ⟨column, hcolumn, hneed⟩ | hregion | hlevel
  · exact .base
  · obtain rfl | ⟨q, -, rfl⟩ := columnNeed?_cases hneed
    · exact .subject (columnNeed?_eq_subject_iff.1 hneed ▸ hcolumn)
    · obtain ⟨hbase, howner⟩ := columnNeed?_eq_qualifier_iff.1 hneed
      exact .field q column hcolumn hbase howner
  · obtain ⟨hplaces, q, hq, rfl⟩ := mem_regionNeeds.1 hregion
    obtain ⟨hmem, hregion⟩ := (region?_eq_some_iff hcheck).1 hq
    exact .region q hplaces hmem hregion
  · obtain ⟨level, hmem, rfl⟩ := List.mem_map.1 hlevel
    exact .level level (PlaceFilter.mem_levels.1 hmem)

theorem exists_need_of_needsOwner (hcheck : checkQualifiers qualifiers = .ok ())
    (h : NeedsOwner qualifiers columns places owner) :
    ∃ need ∈ needs qualifiers columns places, need.owner = owner := by
  cases h with
  | base => exact ⟨.base, mem_needs.2 (.inl rfl), rfl⟩
  | subject hsubject =>
    exact ⟨.subject, mem_needs.2 (.inr (.inl ⟨_, hsubject, rfl⟩)), rfl⟩
  | field q column hcolumn hbase howner =>
    have hneed := columnNeed?_eq_qualifier_iff.2 ⟨hbase, howner⟩
    exact ⟨.qualifier q, mem_needs.2 (.inr (.inl ⟨column, hcolumn, hneed⟩)), rfl⟩
  | region q hplaces hq hregion =>
    have hfound := (region?_eq_some_iff hcheck).2 ⟨hq, hregion⟩
    exact ⟨.qualifier q, qualifier_mem_needs.2 (.inr ⟨hplaces, hfound⟩), rfl⟩
  | level level hlevel =>
    exact ⟨_, place_mem_needs.2 ⟨PlaceFilter.mem_levels.2 hlevel, rfl⟩, rfl⟩

/-- **A plan shows the known columns as they are requested and has each owner that the request needs
once, and no other.** -/
theorem ofRequest_minimal
    (h : ofRequest property dataset qualifiers columns places limit = .ok plan) :
    let known := (requested qualifiers columns).filter (· ∈ allColumns qualifiers)
    plan.columnNames = (if known = [] then ["main_subject_id"] else known) ∧
    plan.owners.Nodup ∧ plan.owners.head? = some "base" ∧
    ∀ owner, owner ∈ plan.owners ↔ NeedsOwner qualifiers columns places owner := by
  obtain ⟨hcheck, rfl⟩ := (ofRequest_eq_ok_iff qualifiers).1 h
  refine ⟨map_fst_shownColumns, Fragment.nodup_owners_firsts _, rfl, fun owner => ?_⟩
  rw [mem_owners_assembled]
  constructor
  · rintro ⟨need, hneed, rfl⟩
    exact needsOwner_of_mem_needs hcheck hneed
  · exact exists_need_of_needsOwner hcheck

/-- The columns of the time ask for it once, and the places for the location, which no column
shows. -/
theorem ofRequest_minimal_repeated :
    let time : Qualifier := ⟨"time", "P585", .stored .dateAndTime, false, false⟩
    let source : Qualifier := ⟨"stated_in", "P248", .stored .symbol, true, false⟩
    let location : Qualifier := ⟨"location", "P276", .location, true, true⟩
    let qualifiers := [time, source, location]
    ∃ plan, ofRequest "P10" "Q99" qualifiers ["time", "color", "value", "time_precision", "time"]
        ⟨["Q30"], [], [], ["Q40"]⟩ 0 = .ok plan ∧
      plan.columnNames = ["time", "value", "time_precision", "time"] ∧
      "time" ∈ plan.owners ∧ "location" ∈ plan.owners ∧ "place_admin3" ∈ plan.owners ∧
      "main_subject" ∉ plan.owners := by
  intro time source location qualifiers
  obtain ⟨plan, hplan⟩ : ∃ plan, ofRequest "P10" "Q99" qualifiers
      ["time", "color", "value", "time_precision", "time"] ⟨["Q30"], [], [], ["Q40"]⟩ 0 =
        .ok plan := ⟨_, rfl⟩
  obtain ⟨hnames, -, -, howners⟩ := ofRequest_minimal hplan
  refine ⟨plan, hplan, hnames.trans (by decide +kernel), ?_, ?_, ?_, ?_⟩
  · exact (howners _).2 (.field time "time" (by decide) (by decide)
      ⟨[], [source, location], rfl, by decide, by simp⟩)
  · exact (howners _).2 (.region location (by decide) (by decide) rfl)
  · exact (howners _).2 (.level .admin3 (by decide))
  · intro hmem
    generalize howner : "main_subject" = owner at hmem
    have hnames : ∀ q ∈ qualifiers, "main_subject" ≠ q.name := by decide
    cases (howners owner).1 hmem with
    | base => exact absurd howner (by decide)
    | subject hrequested => exact absurd hrequested (by decide)
    | field q column hcolumn hbase hfirst => exact hnames q hfirst.mem howner
    | region q hplaces hq hregion => exact hnames q hq howner
    | level level hlevel => exact (place_owner_ne level).2.1 howner.symm

end Plan

end FactGraph
