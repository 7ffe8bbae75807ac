import FactGraph.Proofs.Query.Determined
import FactGraph.Proofs.Query.Extension
import FactGraph.Proofs.Query.Label
import FactGraph.Proofs.Query.Minimality

/-!
# Labels and units keep rows as they are

Nodes may have any number of labels, and observations any number of links to datasets. Which of the
columns that every observation has are shown makes no difference for the rows: the label of the
subject is the only part that is joined for one of them, and it follows from the observation.

So **requests that differ in such columns only have rows that can be matched, and under each name
that both show matched rows show the same** (`Plan.rows_matched`). Where nothing else is requested
and no place is filtered, there is one row for each observation with a quantity and each of its
links to the dataset: the amount follows from the observation, and the label of the unit from the
amount.
-/

namespace FactGraph

namespace Tables

/-- The links of an edge to the dataset, if it is an observation of the property with a quantity. -/
def linksOf (t : Tables) (property dataset : String) (e : Edge) : List Edge :=
  if e.label = t.kept property ∧ (t.values .quantity).contains e.id then
    (t.edgesAbout e.id Vocabulary.dataset).filter (·.node2 = t.kept dataset)
  else []

/-- The observations of the property with a quantity, each with each of its links to the dataset. -/
def linkedObservations (t : Tables) (property dataset : String) : List (Edge × Edge) :=
  t.edges.rows.flatMap fun e => (t.linksOf property dataset e).map (e, ·)

variable {t : Tables} {property dataset : String} {e link : Edge}

theorem mem_linksOf :
    link ∈ t.linksOf property dataset e ↔
      e.label = t.kept property ∧ (∃ row ∈ (t.values .quantity).rows, row.edgeId = e.id) ∧
        link ∈ t.edgesAbout e.id Vocabulary.dataset ∧ link.node2 = t.kept dataset := by
  rw [← Table.contains_iff, linksOf]
  split
  next h => simp [h.1, h.2]
  next h =>
    refine iff_of_false List.not_mem_nil ?_
    rintro ⟨hlabel, hquantity, -⟩
    exact h ⟨hlabel, hquantity⟩

theorem nodup_linksOf : (t.linksOf property dataset e).Nodup := by
  unfold linksOf
  split
  · exact (t.edges.nodup_rows.filter _).filter _
  · exact List.nodup_nil

end Tables

namespace Plan

/-- Under each name that both rows have, they show the same. -/
def SameShown (names names' : List String) (row row' : List Cell) : Prop :=
  ∀ name cell cell', (name, cell) ∈ names.zip row → (name, cell') ∈ names'.zip row' → cell = cell'

/-- But for labels, the row shows under the names that every observation has what the observation,
its amount and its link to the dataset tell. -/
def ShowsObservation (t : Tables) (names : List String) (row : List Cell) (pair : Edge × Edge) :
    Prop :=
  ∃ amount ∈ (t.values .quantity).rows, amount.edgeId = pair.1.id ∧
    ∀ base : BaseColumn, base ≠ .subject → base ≠ .unit →
      ∀ cell, (base.name, cell) ∈ names.zip row →
        cell = base.expr.eval [(.observation, some (.edge pair.1)),
          (.amount, some (.value amount)), (.dataset, some (.edge pair.2))]

variable {t : Tables} {property dataset : String} {qualifiers : List Qualifier}
  {columns other : List String} {places : PlaceFilter} {limit : Int64} {e link : Edge}
  {env env' : Environment} {need : Need} {a : Alias}

/-! ## The label of the subject -/

/-- The names of the label of the subject. -/
def subjectNames : List Alias := [.subjectLabel, .subjectText]

theorem eq_subject_of_mem_sources (h : a ∈ need.fragment.sources) (ha : a ∈ subjectNames) :
    need = .subject := by
  have hsubject : a.origin? = some (Need.subject.isFixed, Need.subject.owner) :=
    Need.origin?_of_mem_sources ha
  have horigin := (Need.origin?_of_mem_sources h).symm.trans hsubject
  simp only [Option.some.injEq, Prod.mk.injEq] at horigin
  cases need with
  | base => exact absurd horigin.2 (by decide)
  | subject => rfl
  | qualifier q => exact nomatch horigin.1
  | place node level => exact absurd horigin.2 (place_owner_ne level).2.1

theorem not_mem_subjectNames_of_mem_joins (hneed : need ∈ needs qualifiers columns places)
    (hne : need ≠ .subject) {j : PlanJoin} (hj : j ∈ need.fragment.joins) :
    ∀ a ∈ j.condition.sources, a ∉ subjectNames := by
  have hlocation : (locationNode (region? qualifiers)).source ∉ subjectNames := by
    unfold locationNode
    split <;> simp [subjectNames, Qualifier.node, Qualifier.source]
  -- A part that is not the label of the subject uses its own names, the observation, or the node of
  -- the places.
  have hscoped : joinsScoped [.observation, (locationNode (region? qualifiers)).source]
      need.fragment.joins = true := by
    refine need.scoped List.mem_cons_self fun node level hplace => ?_
    subst hplace
    rw [(place_mem_needs.1 hneed).2]
    exact List.mem_cons_of_mem _ List.mem_cons_self
  intro a ha hmem
  rcases mem_of_joinsScoped hscoped hj ha with hjoined | hsource
  · rcases List.mem_pair.1 hjoined with rfl | rfl
    · exact absurd hmem (by decide)
    · exact hlocation hmem
  · exact hne (eq_subject_of_mem_sources hsource hmem)

/-- **The label of the subject follows from everything else.** -/
theorem determines_assembled (t : Tables) :
    (assembled property dataset qualifiers columns places limit).Determines t subjectNames where
  base := show Alias.observation ∉ subjectNames by decide
  left := by
    intro j hj hsource
    obtain ⟨need, -, hmem⟩ := exists_need_of_mem_joins hj
    obtain rfl := eq_subject_of_mem_sources (List.mem_map.2 ⟨j, hmem, rfl⟩) hsource
    exact kind_eq_left (by decide) (by simp) j hmem
  determined := by
    intro j hj hsource
    obtain ⟨need, -, hmem⟩ := exists_need_of_mem_joins hj
    obtain rfl := eq_subject_of_mem_sources (List.mem_map.2 ⟨j, hmem, rfl⟩) hsource
    exact Tables.determines_labelJoins (by decide) (by decide) j hmem
  joins := by
    intro j hj hsource
    obtain ⟨need, hneed, hmem⟩ := exists_need_of_mem_joins hj
    refine not_mem_subjectNames_of_mem_joins hneed ?_ hmem
    rintro rfl
    exact hsource (List.mem_map.2 ⟨j, hmem, rfl⟩)
  conditions := by
    intro condition hcondition a ha
    simp only [assembled, List.mem_cons, List.not_mem_nil, or_false] at hcondition
    rcases hcondition with rfl | rfl | rfl
    · rw [List.mem_singleton.1 ha]
      decide
    · rw [List.mem_singleton.1 ha]
      decide
    · obtain ⟨alternative, halternative, rfl⟩ := List.mem_map.1 ha
      obtain ⟨level, -, rfl⟩ := List.mem_map.1 halternative
      simp [subjectNames]

/-! ## Requests that differ in columns of every observation -/

section Requests

variable (hcolumns : columns ≠ []) (hother : other ≠ [])
  (hdiffer : ∀ column, column ∉ BaseColumn.all.map (·.name) → (column ∈ columns ↔ column ∈ other))

include hcolumns hother hdiffer

theorem mem_needs_iff_of_differ (hne : need ≠ .subject) :
    need ∈ needs qualifiers columns places ↔ need ∈ needs qualifiers other places := by
  rw [mem_needs, mem_needs, requested_of_ne_nil hcolumns, requested_of_ne_nil hother]
  refine or_congr_right (or_congr_left (exists_congr fun column => and_congr_left fun hneed => ?_))
  obtain rfl | ⟨q, -, rfl⟩ := columnNeed?_cases hneed
  · exact absurd rfl hne
  · exact hdiffer column (columnNeed?_eq_qualifier_iff.1 hneed).1

/-- **The plans are the same apart from the label of the subject and what they show.** -/
theorem sameBut_assembled (hall : JoinsAll qualifiers columns places)
    (hall' : JoinsAll qualifiers other places) :
    SameBut subjectNames (assembled property dataset qualifiers columns places limit)
      (assembled property dataset qualifiers other places limit) where
  base := rfl
  conditions := rfl
  joins := by
    intro j hsource
    have hneed {columns : List String}
        (hj : j ∈ (assembled property dataset qualifiers columns places limit).joins) :
        ∃ need ∈ needs qualifiers columns places, need ≠ .subject ∧ j ∈ need.fragment.joins := by
      obtain ⟨need, hneed, hmem⟩ := exists_need_of_mem_joins hj
      refine ⟨need, hneed, ?_, hmem⟩
      rintro rfl
      exact hsource (List.mem_map.2 ⟨j, hmem, rfl⟩)
    have hiff (need : Need) (hne : need ≠ .subject) :
        need ∈ needs qualifiers columns places ↔ need ∈ needs qualifiers other places :=
      mem_needs_iff_of_differ hcolumns hother hdiffer hne
    constructor
    · intro hj
      obtain ⟨need, hmem, hne, hjoin⟩ := hneed hj
      exact mem_joins hall' ((hiff need hne).1 hmem) hjoin
    · intro hj
      obtain ⟨need, hmem, hne, hjoin⟩ := hneed hj
      exact mem_joins hall ((hiff need hne).2 hmem) hjoin

end Requests

theorem settles_subject_of_mem_sources (hscoped : (assembled property dataset qualifiers columns
      places limit).IsScoped)
    (henv : env ∈ (assembled property dataset qualifiers columns places limit).environmentsOf t e)
    (ha : a ∈ (assembled property dataset qualifiers columns places limit).sources)
    (hsubject : a ∈ subjectNames) : ∀ j ∈ subjectFragment.joins, t.Settles j env := by
  intro j hj
  have hnot : a ≠ .observation := by
    rintro rfl
    exact absurd hsubject (by decide)
  obtain ⟨f, hf, hmem⟩ := (mem_sources.1 ha).resolve_left hnot
  obtain ⟨need, -, rfl⟩ := exists_need_of_mem_joinedFragments hf
  obtain rfl := eq_subject_of_mem_sources hmem hsubject
  exact hscoped.settles (List.mem_filter.1 henv).1 (List.mem_flatMap.2 ⟨_, hf, hj⟩)

theorem sameShown_rowOf
    (hscoped : (assembled property dataset qualifiers columns places limit).IsScoped)
    (hscoped' : (assembled property dataset qualifiers other places limit).IsScoped)
    (henv : env ∈ (assembled property dataset qualifiers columns places limit).environmentsOf t e)
    (henv' : env' ∈ (assembled property dataset qualifiers other places limit).environmentsOf t e)
    (hagree : ∀ a ∈ (assembled property dataset qualifiers columns places limit).sourcesBut
      subjectNames, env.lookup a = env'.lookup a) :
    SameShown (assembled property dataset qualifiers columns places limit).columnNames
      (assembled property dataset qualifiers other places limit).columnNames
      ((assembled property dataset qualifiers columns places limit).rowOf env)
      ((assembled property dataset qualifiers other places limit).rowOf env') := by
  intro name cell cell' hcell hcell'
  obtain ⟨expr, hexpr, rfl⟩ := mem_zip_rowOf.1 hcell
  obtain ⟨expr', hexpr', rfl⟩ := mem_zip_rowOf.1 hcell'
  obtain rfl := Option.some.inj ((shown?_of_mem_columns hexpr).symm.trans
    (shown?_of_mem_columns hexpr'))
  refine Expr.eval_congr fun a ha => ?_
  have hsource := hscoped.sources_column hexpr ha
  -- The names of the subject's label are not among those that were matched, but what they bind
  -- follows from the observation.
  by_cases hsubject : a ∈ subjectNames
  · have hobservation : env.lookup .observation = env'.lookup .observation := by
      rw [lookup_observation (List.mem_filter.1 henv).1,
        lookup_observation (List.mem_filter.1 henv').1]
    exact Tables.lookup_eq_of_labelJoins (by decide) (by decide)
      (settles_subject_of_mem_sources hscoped henv hsource hsubject)
      (settles_subject_of_mem_sources hscoped' henv' (hscoped'.sources_column hexpr' ha) hsubject)
      hobservation a hsubject
  · exact hagree a (mem_sourcesBut.2 ⟨hsource, hsubject⟩)

/-! ## Observations and their links -/

/-- But for the link to the dataset, what every query has follows from the observation. -/
theorem determines_base : ∀ j ∈ baseFragment.joins, j.source ≠ .dataset → t.Determines j := by
  simp only [baseFragment, List.cons_append, List.nil_append, List.forall_mem_cons]
  refine ⟨fun _ => Tables.determines_valueOf (by decide), fun h => absurd rfl h, fun j hj _ => ?_⟩
  exact Tables.determines_labelJoins (by decide) (by decide) j hj

/-- Without columns of qualifiers and without places, only the label of the subject is added to what
every query has. -/
theorem need_cases_of_plain (hcolumns : columns ≠ []) (hplaces : places.isEmpty = true)
    (hplain : ∀ column ∈ columns, column ∈ BaseColumn.all.map (·.name) ∨
      ∀ q ∈ qualifiers, column ∉ q.fieldNames)
    (hneed : need ∈ needs qualifiers columns places) : need = .base ∨ need = .subject := by
  rcases mem_needs.1 hneed with hbase | ⟨column, hcolumn, hasked⟩ | hregion | hlevel
  · exact .inl hbase
  · rw [requested_of_ne_nil hcolumns] at hcolumn
    obtain hsubject | ⟨q, hq, rfl⟩ := columnNeed?_cases hasked
    · exact .inr hsubject
    · obtain ⟨hnot, before, after, -, hfield, -⟩ := columnNeed?_eq_qualifier_iff.1 hasked
      exact absurd hfield ((hplain column hcolumn).resolve_left hnot q hq)
  · exact nomatch (mem_regionNeeds.1 hregion).1.symm.trans hplaces
  · rw [levelNeeds, List.isEmpty_iff.1 (show places.levels.isEmpty = true from hplaces)] at hlevel
    exact absurd hlevel List.not_mem_nil

section Plain

variable (hall : JoinsAll qualifiers columns places)

include hall

theorem exists_linksOf_of_mem_environmentsOf
    (henv : env ∈ (assembled property dataset qualifiers columns places limit).environmentsOf t e) :
    ∃ link ∈ t.linksOf property dataset e,
      env.lookup .dataset = some (some (.edge link)) := by
  obtain ⟨hjoined, hmeets⟩ := List.mem_filter.1 henv
  simp only [assembled, List.all_cons, Bool.and_eq_true] at hmeets
  obtain ⟨hlabel, hquantity, -, -⟩ := isObservation_of_joined hall hjoined hmeets.1 hmeets.2.1
  obtain ⟨link, hlink, hnode2, hlookup⟩ := exists_link hall hjoined hmeets.2.1
  exact ⟨link, Tables.mem_linksOf.2 ⟨hlabel, hquantity, hlink, hnode2⟩, hlookup⟩

theorem showsObservation_rowOf
    (henv : env ∈ (assembled property dataset qualifiers columns places limit).environmentsOf t e)
    (hlink : env.lookup .dataset = some (some (.edge link))) :
    ShowsObservation t (assembled property dataset qualifiers columns places limit).columnNames
      ((assembled property dataset qualifiers columns places limit).rowOf env) (e, link) := by
  obtain ⟨amount, hamount, hid, hlookup⟩ := exists_amount hall (List.mem_filter.1 henv).1
  refine ⟨amount, hamount, hid, fun base hsubject hunit cell hcell => ?_⟩
  obtain ⟨expr, hexpr, rfl⟩ := mem_zip_rowOf.1 hcell
  obtain rfl := Option.some.inj ((shown?_of_mem_columns hexpr).symm.trans (shown?_name base))
  have hsources : ∀ a ∈ base.expr.sources, a = .observation ∨ a = .amount ∨ a = .dataset := by
    revert hsubject hunit
    cases base <;> decide
  refine Expr.eval_congr fun a ha => ?_
  rcases hsources a ha with rfl | rfl | rfl
  · exact lookup_observation (List.mem_filter.1 henv).1
  · exact hlookup
  · exact hlink

/-- **Where nothing else is joined, an edge has one environment for each of its links.** -/
theorem environmentsOf_rel_linksOf (hnames : (qualifiers.map (·.name)).Nodup)
    (hneeds : ∀ need ∈ needs qualifiers columns places, need = .base ∨ need = .subject)
    (hplaces : places.isEmpty = true) (e : Edge) :
    Multiset.Rel (fun (env : Environment) link => env.lookup .dataset = some (some (.edge link)))
      ((assembled property dataset qualifiers columns places limit).environmentsOf t e :
        Multiset Environment) (t.linksOf property dataset e) := by
  have hscoped : (assembled property dataset qualifiers columns places limit).IsScoped :=
    isScoped_assembled hnames hall
  -- Environments and links are matched by the link that an environment has joined: each has one,
  -- each link is joined, and no two environments join the same.
  refine rel_of_partners hscoped.nodup_environmentsOf Tables.nodup_linksOf
    (fun env henv => exists_linksOf_of_mem_environmentsOf hall henv) (fun link hlink => ?_)
    (fun env henv env' henv' link _ hlookup hlookup' => ?_)
    fun env _ link _ link' _ hlookup hlookup' => ?_
  · obtain ⟨hlabel, hquantity, habout, hdataset⟩ := Tables.mem_linksOf.1 hlink
    have hqualified : ∀ q ∈ neededQualifiers qualifiers columns places, q.isOptional = false →
        ∃ x, x ∈ t.edgesAbout e.id q.predicate := by
      intro q hq
      obtain h | h := hneeds _ (mem_neededQualifiers.1 hq) <;> exact nomatch h
    obtain ⟨env, hjoined, hfulfils⟩ : ∃ env ∈ t.joined (assembled property dataset qualifiers
        columns places limit).joins [(.observation, some (.edge e))],
        Tables.Fulfils (wish e link none none)
          (sources (assembled property dataset qualifiers columns places limit)) env :=
      exists_fulfils property dataset limit hall hquantity habout hqualified (by simp) (by simp)
    refine ⟨env, mem_environmentsOf_of_fulfils hall hjoined hfulfils hlabel hdataset ?_, ?_⟩
    · simp [hplaces]
    · refine hfulfils .dataset (mem_sources.2 (.inr ⟨_, hall .base (mem_needs.2 (.inl rfl)), ?_⟩)) _
        rfl
      decide
  · refine hscoped.eq_of_mem_environmentsOf henv henv' fun j hj => ?_
    obtain ⟨need, hneed, hmem⟩ := exists_need_of_mem_joins hj
    rcases hneeds need hneed with rfl | rfl
    · by_cases hsource : j.source = .dataset
      · rw [hsource]
        exact .inr (hlookup.trans hlookup'.symm)
      · exact .inl (determines_base j hmem hsource)
    · exact .inl (Tables.determines_labelJoins (by decide) (by decide) j hmem)
  · exact Record.edge.inj (Option.some.inj (Option.some.inj (hlookup.symm.trans hlookup')))

end Plain

/-! ## Queries -/

variable {db : Database} {plan plan' : Plan} {rows rows' : List (List Cell)}

/-- **Requests that differ only in columns that every observation has are answered with as many
rows, which can be matched so that matched rows show the same under each name that both have.** If
no column of a qualifier is requested and no place is filtered, there is one row for each
observation with a quantity and each of its links to the dataset. -/
theorem rows_matched (hlimit : limit.toInt ≤ 0) (hcolumns : columns ≠ []) (hother : other ≠ [])
    (hdiffer : ∀ column, column ∉ BaseColumn.all.map (·.name) →
      (column ∈ columns ↔ column ∈ other))
    (hplan : ofRequest property dataset qualifiers columns places limit = .ok plan)
    (hplan' : ofRequest property dataset qualifiers other places limit = .ok plan')
    (hrows : db.query plan = .ok rows) (hrows' : db.query plan' = .ok rows') :
    let t := db.tables
    rows.length = rows'.length ∧
    Multiset.Rel (SameShown plan.columnNames plan'.columnNames) rows rows' ∧
    (places.isEmpty = true →
      (∀ column ∈ columns, column ∈ BaseColumn.all.map (·.name) ∨
        ∀ q ∈ qualifiers, column ∉ q.fieldNames) →
      Multiset.Rel (ShowsObservation t plan.columnNames) rows
        (t.linkedObservations property dataset)) := by
  intro t
  obtain ⟨hnames, hall, rfl, hperm⟩ := of_ofRequest_query hplan hlimit hrows
  obtain ⟨-, hall', rfl, hperm'⟩ := of_ofRequest_query hplan' hlimit hrows'
  have hscoped : (assembled property dataset qualifiers columns places limit).IsScoped :=
    isScoped_assembled hnames hall
  have hscoped' : (assembled property dataset qualifiers other places limit).IsScoped :=
    isScoped_assembled hnames hall'
  rw [← Multiset.coe_eq_coe] at hperm hperm'
  -- Rows are matched edge by edge, since both queries have the rows that each edge contributes.
  have hmatched : Multiset.Rel (SameShown
      (assembled property dataset qualifiers columns places limit).columnNames
      (assembled property dataset qualifiers other places limit).columnNames) rows rows' := by
    rw [hperm, hperm']
    refine rel_flatMap _ fun e => ?_
    rw [rowsOf, rowsOf, ← Multiset.map_coe, ← Multiset.map_coe, Multiset.rel_map]
    have hsame : SameBut subjectNames
        (assembled property dataset qualifiers columns places limit)
        (assembled property dataset qualifiers other places limit) :=
      sameBut_assembled hcolumns hother hdiffer hall hall'
    refine (hsame.environmentsOf_rel hscoped hscoped' (determines_assembled t)
      (determines_assembled t) e).mono ?_
    exact fun env henv env' henv' hagree => sameShown_rowOf hscoped hscoped' henv henv' hagree
  refine ⟨Multiset.card_eq_card_of_rel hmatched, hmatched, fun hplaces hplain => ?_⟩
  rw [hperm, Tables.linkedObservations]
  refine rel_flatMap _ fun e => ?_
  rw [rowsOf, ← Multiset.map_coe, ← Multiset.map_coe, Multiset.rel_map]
  have hneeds : ∀ need ∈ needs qualifiers columns places, need = .base ∨ need = .subject :=
    fun need => need_cases_of_plain hcolumns hplaces hplain
  refine (environmentsOf_rel_linksOf hall hnames hneeds hplaces e).mono ?_
  exact fun env henv link _ hlookup => showsObservation_rowOf hall henv hlookup

/-- An observation with two links to the dataset has two rows, although its subject has two labels,
whether or not the subject is shown. -/
theorem rows_matched_twice :
    let source : Qualifier := ⟨"source", "P9999", .stored .string, true, false⟩
    let db := sampleDatabase [⟨"e", "Q1", "P10", "5", .quantity⟩,
      ⟨"one", "e", Vocabulary.dataset, "Q99", .symbol⟩,
      ⟨"two", "e", Vocabulary.dataset, "Q99", .symbol⟩,
      ⟨"elsewhere", "e", Vocabulary.dataset, "Q98", .symbol⟩,
      ⟨"l1", "Q1", Vocabulary.label, "North", .string⟩,
      ⟨"l2", "Q1", Vocabulary.label, "Norte", .string⟩]
    ∃ plan plan' rows rows',
      ofRequest "P10" "Q99" [source] ["main_subject", "value"] .everywhere 0 = .ok plan ∧
      ofRequest "P10" "Q99" [source] ["value", "value_unit"] .everywhere 0 = .ok plan' ∧
      db.query plan = .ok rows ∧ db.query plan' = .ok rows' ∧
      Multiset.Rel (SameShown plan.columnNames plan'.columnNames) rows rows' ∧
      rows.length = 2 ∧ rows'.length = 2 := by
  intro source db
  have hanswered (columns : List String)
      (h : columns ∈ [["main_subject", "value"], ["value", "value_unit"]]) :
      ∃ plan rows, ofRequest "P10" "Q99" [source] columns .everywhere 0 = .ok plan ∧
        db.query plan = .ok rows := by
    have hscoped : ∀ columns ∈ [["main_subject", "value"], ["value", "value_unit"]],
        (assembled "P10" "Q99" [source] columns .everywhere 0).wellScoped = true ∧
          (assembled "P10" "Q99" [source] columns .everywhere 0).fits = true := by decide +kernel
    exact ⟨_, _, (ofRequest_eq_ok_iff _).2 ⟨by decide +kernel, rfl⟩,
      query_sampleDatabase (hscoped columns h).1 (hscoped columns h).2⟩
  obtain ⟨plan, rows, hplan, hrows⟩ := hanswered ["main_subject", "value"] (by decide)
  obtain ⟨plan', rows', hplan', hrows'⟩ := hanswered ["value", "value_unit"] (by decide)
  have hbase : ∀ column ∈ ["main_subject", "value"], column ∈ BaseColumn.all.map (·.name) := by
    decide
  have hbase' : ∀ column ∈ ["value", "value_unit"], column ∈ BaseColumn.all.map (·.name) := by
    decide
  have hdiffer : ∀ column, column ∉ BaseColumn.all.map (·.name) →
      (column ∈ ["main_subject", "value"] ↔ column ∈ ["value", "value_unit"]) :=
    fun column hnot => iff_of_false (mt (hbase column) hnot) (mt (hbase' column) hnot)
  obtain ⟨hlength, hmatched, hplain⟩ := rows_matched (by decide) (by decide) (by decide) hdiffer
    hplan hplan' hrows hrows'
  have hlinked : (db.tables.linkedObservations "P10" "Q99").length = 2 := by decide +kernel
  have htwo := Multiset.card_eq_card_of_rel (hplain rfl fun column hmem => .inl (hbase column hmem))
  rw [Multiset.coe_card, Multiset.coe_card, hlinked] at htwo
  exact ⟨plan, plan', rows, rows', hplan, hplan', hrows, hrows', hmatched, htwo, hlength ▸ htwo⟩

end Plan

end FactGraph
