import FactGraph.Proofs.Query.Places
import FactGraph.Proofs.Store.Encoded
import FactGraph.Proofs.Store.Removal
import FactGraph.Query.Request

/-!
# Queries after a deletion

Deletion and queries each have a way of their own to find the observations of a dataset: a deletion
looks for an edge that links the observation to the dataset, and names what it finds by ids; a query
joins such an edge. Both find the same (`Tables.mem_observations`), as the ids of stored edges are
as they are written.

**After the observations of properties have been deleted from a dataset, no query finds one, and
every other edge is read as before** (`Store.Reachable.deletion_exact`). This holds in every
reachable store, whatever the encoding or the engine, also where an observation is linked to several
datasets, linked twice, or the subject of others.
-/

namespace FactGraph

/-! ## Observations of a dataset -/

namespace Tables

/-- The edge is an observation of the property that is linked to the dataset. It may lack a
quantity. -/
structure IsLinked (t : Tables) (dataset property : String) (e : Edge) : Prop where
  label : e.label = t.kept property
  link : ∃ link ∈ t.edgesAbout e.id Vocabulary.dataset, link.node2 = t.kept dataset

/-- The edge is none of the observations of the properties that are linked to the dataset, and is
not about one. -/
def IsApart (t : Tables) (dataset : String) (properties : List String) (e : Edge) : Prop :=
  ∀ property ∈ properties, ¬t.IsLinked dataset property e ∧
    ∀ x ∈ t.edges.rows, t.IsLinked dataset property x → e.node1 ≠ x.id

variable {t : Tables} {dataset property : String} {properties : List String} {e : Edge}

theorem mem_lookup {node label : String} :
    e ∈ t.lookup node label ↔ e ∈ t.edgesAbout (t.kept node) label := by
  simp only [lookup, edgesAbout, List.mem_filter, t.edgeList_perm.mem_iff]

/-- **What is deleted as an observation is what is linked to the dataset.** -/
theorem mem_observations (h : t.Encoded) :
    e ∈ t.observations dataset property ↔ e ∈ t.edges.rows ∧ t.IsLinked dataset property e := by
  simp only [observations, List.mem_filter, decide_eq_true_eq, inDataset, List.any_eq_true]
  constructor
  · rintro ⟨he, hlabel, link, hlink, hnode2⟩
    rw [mem_lookup, h.kept_id he] at hlink
    exact ⟨he, hlabel, link, hlink, hnode2⟩
  · rintro ⟨he, hlabel, link, hlink, hnode2⟩
    rw [← h.kept_id he] at hlink
    exact ⟨he, hlabel, link, mem_lookup.2 hlink, hnode2⟩

theorem mem_observationIds (h : t.Encoded) {id : String} :
    id ∈ t.observationIds dataset properties ↔
      ∃ property ∈ properties, ∃ x ∈ t.edges.rows, t.IsLinked dataset property x ∧ x.id = id := by
  simp only [observationIds, List.mem_map, List.mem_flatMap, mem_observations h, and_assoc]

/-- **A deletion spares the edges that are apart, and only those.** -/
theorem isNamed_observationIds (h : t.Encoded) (he : e ∈ t.edges.rows) :
    e.isNamed (t.observationIds dataset properties) = false ↔
      t.IsApart dataset properties e := by
  rw [Edge.isNamed_eq_false_iff, mem_observationIds h, mem_observationIds h]
  constructor
  · rintro ⟨hid, hnode1⟩ property hproperty
    exact ⟨fun hlinked => hid ⟨property, hproperty, e, he, hlinked, rfl⟩,
      fun x hx hlinked hsame => hnode1 ⟨property, hproperty, x, hx, hlinked, hsame.symm⟩⟩
  · intro hapart
    constructor
    · rintro ⟨property, hproperty, x, hx, hlinked, hsame⟩
      obtain rfl := Table.eq_of_key_eq hx he hsame
      exact (hapart property hproperty).1 hlinked
    · rintro ⟨property, hproperty, x, hx, hlinked, hsame⟩
      exact (hapart property hproperty).2 x hx hlinked hsame.symm

theorem IsLinked.of_removeEdges {p : Edge → Bool}
    (h : (t.removeEdges p).IsLinked dataset property e) : t.IsLinked dataset property e := by
  obtain ⟨hlabel, link, hlink, hnode2⟩ := h
  refine ⟨hlabel, link, ?_, hnode2⟩
  obtain ⟨hmem, habout⟩ := mem_edgesAbout.1 hlink
  exact mem_edgesAbout.2 ⟨(mem_edges_removeEdges.1 hmem).1, habout⟩

end Tables

/-! ## Queries -/

theorem Plan.rows_eq_nil {db : Database} {property dataset : String} {qualifiers : List Qualifier}
    {columns : List String} {places : PlaceFilter} {limit : Int64} {plan : Plan}
    {rows : List (List Cell)}
    (hplan : ofRequest property dataset qualifiers columns places limit = .ok plan)
    (hrows : db.query plan = .ok rows)
    (hnone : ∀ e ∈ db.tables.edges.rows, ¬db.tables.IsLinked dataset property e) : rows = [] := by
  obtain ⟨hcheck, rfl⟩ := (ofRequest_eq_ok_iff qualifiers).1 hplan
  obtain ⟨hwell, rfl⟩ := Database.of_query_eq_ok hrows
  have hnames := nodup_names_of_checkQualifiers hcheck
  have hall := joinsAll_of_wellScoped hnames hwell
  refine List.eq_nil_iff_forall_not_mem.2 fun row hrow => ?_
  obtain ⟨e, he, env, henv, -⟩ := exists_environmentsOf _ _ hrow
  obtain ⟨hobservation, -⟩ := (environmentsOf_ne_nil_iff hnames hall).1 (List.ne_nil_of_mem henv)
  exact hnone e he ⟨hobservation.label, hobservation.linked⟩

theorem Database.of_observationPlan_eq_ok {db : Database} {property dataset : String}
    {columns : List String} {places : PlaceFilter} {limit : Int64} {plan : Plan}
    (h : db.observationPlan property dataset columns places limit = .ok plan) :
    ∃ qualifiers, Plan.ofRequest property dataset qualifiers columns places limit = .ok plan := by
  obtain ⟨qualifiers, -, h⟩ := exists_of_bind_eq_ok h
  exact ⟨qualifiers, h⟩

/-! ## Deletions -/

namespace Store

variable {s s' : Store} {dataset : String} {properties : List String} {n : Nat}

/-- A deletion that succeeds leaves the tables without the observations, and no other difference
that reading could notice. -/
theorem of_run_deleteObservations_ok (hne : properties ≠ [])
    (h : s.run (StoreM.deleteObservations dataset properties) = (.ok n, s')) :
    let t := s.database.tables
    ∃ pages, s' = { s with database :=
      { s.database.without (t.observationIds dataset properties) with pages := pages } } := by
  intro t
  have hempty : ¬properties.isEmpty = true := by simpa [List.isEmpty_iff] using hne
  rw [StoreM.deleteObservations, if_neg hempty] at h
  obtain ⟨changed, pages, hrun, rfl⟩ := of_run_transact_ok h
  obtain rfl := Update.of_apply_purgeObservations_ok hrun
  exact ⟨pages, rfl⟩

theorem of_run_deleteObservations_nil
    (h : s.run (StoreM.deleteObservations dataset []) = (.ok n, s')) : s' = s :=
  (Prod.mk.inj h).2.symm

/-- A store with an observation of two datasets, `Q98` and `Q99`, another of `Q98` about the same
subject, and one of `Q98` about the first observation. -/
def observed : Store :=
  let amount (id node1 : String) : Statement :=
    ⟨⟨id, node1, "P10", "5", .quantity⟩, .quantity ⟨.int 5, none, none, none, none⟩⟩
  let link (id node1 dataset : String) : Statement :=
    ⟨⟨id, node1, Vocabulary.dataset, dataset, .symbol⟩, .symbol dataset⟩
  (fresh false false .standard .idempotent "now").afterSteps [.write (.insert .idempotent
    [amount "e1" "Q1", link "d1" "e1" "Q99", link "d2" "e1" "Q98", amount "e2" "Q1",
      link "d3" "e2" "Q98", amount "e3" "e1", link "d4" "e3" "Q98"])]

theorem reachable_observed : observed.Reachable :=
  ⟨.empty, _, "now", _, _, .empty, openDatabase_empty false false .standard .idempotent "now", rfl⟩

/-- **A deletion of observations that succeeds is exact**: no query for one of the properties in the
dataset finds anything any more, and every edge that is no such observation, and not about one, is
there and is read as before, with its value. -/
theorem Reachable.deletion_exact (hs : s.Reachable)
    (hrun : s.run (StoreM.deleteObservations dataset properties) = (.ok n, s')) :
    let db := s.database
    let db' := s'.database
    (∀ property ∈ properties, ∀ columns places limit plan rows,
      db'.observationPlan property dataset columns places limit = .ok plan →
      db'.query plan = .ok rows → rows = []) ∧
    ∀ e ∈ db.tables.edges.rows, db.tables.IsApart dataset properties e →
      e ∈ db'.tables.edges.rows ∧ db'.statement e.id = db.statement e.id ∧
        db'.value e.id = db.value e.id := by
  intro db db'
  have hencoded : db.tables.Encoded := hs.encoded
  by_cases hne : properties = []
  · subst hne
    obtain rfl := of_run_deleteObservations_nil hrun
    exact ⟨fun _ hproperty => absurd hproperty List.not_mem_nil, fun e he _ => ⟨he, rfl, rfl⟩⟩
  obtain ⟨pages, rfl⟩ := of_run_deleteObservations_ok hne hrun
  constructor
  · intro property hproperty columns places limit plan rows hplan hrows
    obtain ⟨qualifiers, hplan⟩ := Database.of_observationPlan_eq_ok hplan
    refine Plan.rows_eq_nil hplan hrows fun e he hlinked => ?_
    obtain ⟨hmem, hspared⟩ := Tables.mem_edges_removeEdges.1 he
    have hapart := (Tables.isNamed_observationIds hencoded hmem).1 hspared
    exact (hapart property hproperty).1 hlinked.of_removeEdges
  · intro e he hapart
    have hspared := (Tables.isNamed_observationIds hencoded he).2 hapart
    have hreads := Database.reads_without he (hencoded.kept_id he) hspared
    exact ⟨Tables.mem_edges_removeEdges.2 ⟨he, hspared⟩, hreads⟩

/-- The observation of `Q98` about the same subject stays, while that about the deleted observation
goes with it. -/
theorem Reachable.deletion_exact_shared :
    let answer (db : Database) : Except StoreError (List (List Cell)) :=
      (db.observationPlan "P10" "Q99" ["main_subject_id"] .everywhere 0).bind db.query
    ∃ s', observed.run (StoreM.deleteObservations "Q99" ["P10"]) = (.ok 4, s') ∧
      answer observed.database = .ok [[.text "Q1"]] ∧
      (∀ rows, answer s'.database = .ok rows → rows = []) ∧
      s'.database.value "e2" = .ok (some (.quantity ⟨.int 5, none, none, none, none⟩)) := by
  intro answer
  have hcount : (observed.run (StoreM.deleteObservations "Q99" ["P10"])).1 = .ok 4 := by
    decide +kernel
  rcases hrun : observed.run (StoreM.deleteObservations "Q99" ["P10"]) with ⟨outcome, s'⟩
  rw [hrun] at hcount
  obtain rfl : outcome = .ok 4 := hcount
  obtain ⟨hnone, hothers⟩ := reachable_observed.deletion_exact hrun
  let e : Edge := ⟨"e2", "Q1", "P10", "5", .quantity⟩
  have hlinks : ∀ link ∈ observed.database.tables.edgesAbout e.id Vocabulary.dataset,
      link.node2 ≠ observed.database.tables.kept "Q99" := by decide +kernel
  have habout : ∀ x ∈ observed.database.tables.edges.rows, e.node1 ≠ x.id := by decide +kernel
  have hapart : observed.database.tables.IsApart "Q99" ["P10"] e := by
    intro property _
    constructor
    · intro hlinked
      obtain ⟨link, hlink, hnode2⟩ := hlinked.link
      exact hlinks link hlink hnode2
    · exact fun x hx _ => habout x hx
  obtain ⟨-, -, hvalue⟩ := hothers e (by decide +kernel) hapart
  have hbefore : observed.database.value "e2" =
      .ok (some (.quantity ⟨.int 5, none, none, none, none⟩)) := by decide +kernel
  refine ⟨s', rfl, by decide +kernel, ?_, hvalue.trans hbefore⟩
  intro rows hrows
  obtain ⟨plan, hplan, hquery⟩ := exists_of_bind_eq_ok hrows
  exact hnone "P10" List.mem_cons_self _ _ _ plan rows hplan hquery

end Store

end FactGraph
