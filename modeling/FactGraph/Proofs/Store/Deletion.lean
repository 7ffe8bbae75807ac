import FactGraph.Proofs.Query.Deletion
import FactGraph.Proofs.Store.Integrity

/-!
# Deletions are exact

A deletion names edges by ids, those that it is given or those of the observations of a dataset. It
takes out the edges that have one of the ids and the edges about those, each once, with the values
of all of them, and nothing else (`Database.Loses`). What an earlier deletion has left on the list
of edges to be removed does not matter.

**Whatever the store, its encoding and its engine, as long as it is sound, both kinds of deletions
are exact, tell how many edges are gone, and find nothing to do when they are repeated**
(`Store.deletions_exact`). In a store that is ready they succeed.
-/

namespace FactGraph

/-! ## Tables without some edges -/

namespace Tables

variable {t : Tables} {p : Edge → Bool} {e : Edge}

theorem encoded_of_utf8 (h : t.encoding = .utf8) : t.Encoded := fun e _ => keptEdge_of_utf8 h e

theorem removeEdges_of_none (h : ∀ e ∈ t.edges.rows, p e = false) : t.removeEdges p = t := by
  have hremoved : t.edges.rows.filter p = [] :=
    List.filter_eq_nil_iff.2 fun e he => by simp [h e he]
  have hedges : t.edges.filter (!p ·) = t.edges :=
    Table.rows_injective (List.filter_eq_self.2 fun e he => by simp [h e he])
  have hvalues {α : Type} {key : α → String} (v : Table α key) : v.filter (fun _ => true) = v :=
    Table.rows_injective (List.filter_eq_self.2 fun _ _ => rfl)
  simp [removeEdges, detachEdges, filterValues, hremoved, hedges, hvalues]

/-- The values that stay are those of the edges that stay. -/
theorem Sound.mem_values_removeEdges_iff (h : t.Sound) {kind : ValueKind} {row : ValueRow kind} :
    row ∈ ((t.removeEdges p).values kind).rows ↔
      row ∈ (t.values kind).rows ∧ ∃ e ∈ (t.removeEdges p).edges.rows, e.id = row.edgeId := by
  rw [values_removeEdges, Table.rows_filter, List.mem_filter, decide_eq_true_iff]
  refine and_congr_right fun hrow => ?_
  obtain ⟨owner, howner, hid, -⟩ := h.owned kind row hrow
  rw [← hid, mem_removedIds howner, Bool.not_eq_true]
  constructor
  · exact fun hstays => ⟨owner, mem_edges_removeEdges.2 ⟨howner, hstays⟩, rfl⟩
  · rintro ⟨e, he, hsame⟩
    obtain ⟨he, hstays⟩ := mem_edges_removeEdges.1 he
    rwa [← Table.eq_of_key_eq he howner hsame]

theorem size_removeEdges (t : Tables) (p : Edge → Bool) :
    t.edges.size = (t.removeEdges p).edges.size + t.edges.rows.countP p := by
  have hcount := t.edges.rows.length_eq_countP_add_countP p
  rw [edges_removeEdges, Table.size, Table.size, Table.rows_filter, ← List.countP_eq_length_filter,
    hcount, Nat.add_comm]
  congr 1
  exact List.countP_congr fun e _ => by simp

end Tables

/-! ## Databases without some edges -/

namespace Database

/-- The database `other` is `db` without the edges that are named by their id or by that of the edge
which they are about. Their values have gone with them; what stays is read as before; and `n` edges
have gone. -/
structure Loses (db : Database) (named : String → Prop) (n : Nat) (other : Database) : Prop where
  edges : ∀ e, e ∈ other.tables.edges.rows ↔
    e ∈ db.tables.edges.rows ∧ ¬named e.id ∧ ¬named e.node1
  values : ∀ kind (row : ValueRow kind), row ∈ (other.tables.values kind).rows ↔
    row ∈ (db.tables.values kind).rows ∧ ∃ e ∈ other.tables.edges.rows, e.id = row.edgeId
  reads : ∀ e ∈ other.tables.edges.rows,
    other.statement e.id = db.statement e.id ∧ other.value e.id = db.value e.id
  count : db.tables.edges.size = other.tables.edges.size + n

variable {db : Database}

/-- **A removal loses what the ids name**, whatever becomes of the list of edges to be removed and
of the pages. -/
theorem loses_removeEdges (hsound : db.tables.Sound) (hencoded : db.tables.Encoded)
    (ids : List String) (doomed : Option (List String)) (pages : Option Pages) :
    db.Loses (· ∈ ids) (db.tables.edges.rows.countP (Edge.isNamed ids))
      { db with tables := db.tables.removeEdges (Edge.isNamed ids), doomed, pages } where
  edges := fun e =>
    Tables.mem_edges_removeEdges.trans (and_congr_right fun _ => Edge.isNamed_eq_false_iff)
  values := fun kind row => hsound.mem_values_removeEdges_iff
  reads := by
    intro e he
    obtain ⟨he, hstays⟩ := Tables.mem_edges_removeEdges.1 he
    exact reads_without he (hencoded.kept_id he) hstays
  count := db.tables.size_removeEdges _

end Database

/-! ## Operations that remove edges by id -/

namespace Store

/-- The operation removes what is named by the ids that the tables tell, or has nothing to do. -/
def Removes (deletion : StoreM Nat) (ids : Tables → List String) : Prop :=
  ∀ s : Store, (ids s.database.tables = [] ∧ s.run deletion = (.ok 0, s)) ∨
    ∃ order list f, s.run deletion = s.run (StoreM.transact order (Update.purgeListed list)) ∧
      Update.Lists list f ∧ f s.database.tables [] = ids s.database.tables

/-- Ids are named as they are written. -/
theorem removes_deleteIds (ids : List String) :
    Removes (StoreM.deleteIds ids) fun t => ids.map t.kept := by
  intro s
  by_cases hempty : ids = []
  · subst hempty
    exact .inl ⟨rfl, rfl⟩
  · rw [StoreM.deleteIds, if_neg (by simpa [List.isEmpty_iff] using hempty)]
    exact .inr ⟨_, _, _, rfl, Update.lists_ids ids, rfl⟩

theorem removes_deleteObservations (dataset : String) (properties : List String) :
    Removes (StoreM.deleteObservations dataset properties)
      fun t => t.observationIds dataset properties := by
  intro s
  by_cases hempty : properties = []
  · subst hempty
    exact .inl ⟨rfl, rfl⟩
  · rw [StoreM.deleteObservations, if_neg (by simpa [List.isEmpty_iff] using hempty)]
    exact .inr ⟨_, _, _, rfl, Update.lists_observations dataset properties, rfl⟩

/-- The edges that are named by the ids of tables. -/
def namedBy (ids : Tables → List String) (t : Tables) : Edge → Bool :=
  Edge.isNamed (ids t)

/-- The operation deletes exactly what is named. It succeeds in a store that is ready; if it
succeeds, its answer tells how many edges are gone; and if it succeeds again, it finds none. -/
structure Deletes (s : Store) (deletion : StoreM Nat) (named : String → Prop) : Prop where
  succeeds : s.Ready → ∃ n s', s.run deletion = (.ok n, s') ∧ s'.run deletion = (.ok 0, s')
  loses : ∀ n s', s.run deletion = (.ok n, s') → s.database.Loses named n s'.database
  again : ∀ n s', s.run deletion = (.ok n, s') → ∀ m s'', s'.run deletion = (.ok m, s'') →
    m = 0 ∧ s''.database.tables = s'.database.tables

variable {s s' : Store} {deletion : StoreM Nat} {ids : Tables → List String} {n : Nat}

theorem Ready.without (h : s.Ready) (ids : List String) : (s.without ids).Ready :=
  ⟨h.complete, h.encoding, h.unlimited, h.writable, h.undoes, h.idle⟩

theorem without_of_none {names : List String} (hlist : s.database.doomed = some [])
    (h : ∀ e ∈ s.database.tables.edges.rows, e.isNamed names = false) : s.without names = s := by
  rw [Store.without, Database.without, Tables.removeEdges_of_none h, ← hlist]

namespace Removes

/-- **What an operation that removes edges has done, if it succeeds.** -/
theorem of_run_ok (h : Removes deletion ids) (hrun : s.run deletion = (.ok n, s')) :
    n = s.database.tables.edges.rows.countP (namedBy ids s.database.tables) ∧
      ∃ doomed pages, s'.database = { s.database with
        tables := s.database.tables.removeEdges (namedBy ids s.database.tables)
        doomed, pages } := by
  rcases h s with ⟨hnone, hnothing⟩ | ⟨order, list, f, htransact, hlist, hids⟩
  · obtain ⟨hn, rfl⟩ := Prod.mk.inj (hnothing.symm.trans hrun)
    have hspared : ∀ e ∈ s.database.tables.edges.rows, namedBy ids s.database.tables e = false :=
      fun e _ => by simp [namedBy, hnone, Edge.isNamed]
    rw [Tables.removeEdges_of_none hspared,
      List.countP_eq_zero.2 fun e he => by simp [hspared e he]]
    exact ⟨(Except.ok.inj hn).symm, s.database.doomed, s.database.pages, rfl⟩
  · obtain ⟨changed, pages, hchange, rfl⟩ := of_run_transact_ok (htransact.symm.trans hrun)
    obtain ⟨-, hn, rfl⟩ := hlist.apply_purgeListed_eq_ok_iff.1 hchange
    rw [hids] at hn
    refine ⟨hn, some [], pages, ?_⟩
    rw [hids]
    rfl

/-- In a store that is ready, an operation that removes edges succeeds. -/
theorem run_of_ready (h : Removes deletion ids) (hready : s.Ready) :
    let t := s.database.tables
    ∃ s', s.run deletion = (.ok (t.edges.rows.countP (namedBy ids t)), s') ∧
      (ids t = [] ∧ s' = s ∨ s' = s.without (ids t)) := by
  intro t
  rcases h s with ⟨hnone, hnothing⟩ | ⟨order, list, f, htransact, hlist, hids⟩
  · refine ⟨s, ?_, .inl ⟨hnone, rfl⟩⟩
    have hspared (e : Edge) : namedBy ids t e = false := by simp [namedBy, t, hnone, Edge.isNamed]
    rw [hnothing, List.countP_eq_zero.2 fun e _ => by simp [hspared e]]
  · refine ⟨_, ?_, .inr rfl⟩
    have hrun := hlist.apply_purgeListed (hready.complete .edges)
    rw [hids] at hrun
    rw [htransact, run_transact_without hready hrun]
    rfl

/-- **An operation that removes edges deletes exactly what its ids name**, if after it they name
nothing that is left. -/
theorem deletes (h : Removes deletion ids) (hsound : s.database.tables.Sound)
    (hencoded : s.database.tables.Encoded)
    (hagain : let t := s.database.tables
      let left := t.removeEdges (namedBy ids t)
      ∀ e ∈ left.edges.rows, namedBy ids left e = false) :
    s.Deletes deletion (· ∈ ids s.database.tables) where
  succeeds := by
    intro hready
    obtain ⟨s', hrun, ⟨hnone, rfl⟩ | rfl⟩ := h.run_of_ready hready
    · have hzero : s'.database.tables.edges.rows.countP (namedBy ids s'.database.tables) = 0 :=
        List.countP_eq_zero.2 fun e _ => by simp [namedBy, hnone, Edge.isNamed]
      rw [hzero] at hrun
      exact ⟨0, s', hrun, hrun⟩
    · obtain ⟨s'', hrun', hsame⟩ := h.run_of_ready (hready.without _)
      have hzero := List.countP_eq_zero.2 fun e he =>
        Bool.eq_false_iff.1 (hagain e he)
      refine ⟨_, _, hrun, hrun'.trans (Prod.ext (congrArg Except.ok hzero) ?_)⟩
      rcases hsame with ⟨-, rfl⟩ | rfl
      · rfl
      · exact without_of_none rfl hagain
  loses := by
    intro n s' hrun
    obtain ⟨rfl, doomed, pages, hdatabase⟩ := h.of_run_ok hrun
    rw [hdatabase]
    exact Database.loses_removeEdges hsound hencoded _ doomed pages
  again := by
    intro n s' hrun m s'' hrun'
    obtain ⟨-, doomed, pages, hdatabase⟩ := h.of_run_ok hrun
    obtain ⟨rfl, doomed', pages', hdatabase'⟩ := h.of_run_ok hrun'
    rw [hdatabase', hdatabase]
    exact ⟨List.countP_eq_zero.2 fun e he => Bool.eq_false_iff.1 (hagain e he),
      Tables.removeEdges_of_none hagain⟩

end Removes

theorem namedBy_observationIds_removeEdges {t : Tables} (h : t.Encoded) (dataset : String)
    (properties : List String) {e : Edge}
    (he : e ∈ (t.removeEdges (namedBy (·.observationIds dataset properties) t)).edges.rows) :
    namedBy (·.observationIds dataset properties)
      (t.removeEdges (namedBy (·.observationIds dataset properties) t)) e = false := by
  -- An observation that is linked after the removal was linked before it, so it was named and is
  -- gone.
  have hunlinked {x : Edge} {property : String} (hproperty : property ∈ properties)
      (hx : x ∈ (t.removeEdges (namedBy (·.observationIds dataset properties) t)).edges.rows) :
      ¬(t.removeEdges (namedBy (·.observationIds dataset properties) t)).IsLinked dataset
        property x := by
    intro hlinked
    obtain ⟨hmem, hspared⟩ := Tables.mem_edges_removeEdges.1 hx
    have hapart := (Tables.isNamed_observationIds h hmem).1 hspared
    exact (hapart property hproperty).1 hlinked.of_removeEdges
  refine (Tables.isNamed_observationIds (h.removeEdges _) he).2 fun property hproperty => ?_
  exact ⟨hunlinked hproperty he, fun x hx hlinked => absurd hlinked (hunlinked hproperty hx)⟩

/-- **Deletions are exact.** A deletion by ids names the ids, as they are written; a deletion of
observations names the ids of the edges of the properties that are linked to the dataset. -/
theorem deletions_exact (s : Store) (hsound : s.database.tables.Sound)
    (hencoded : s.database.tables.Encoded) :
    let t := s.database.tables
    (∀ ids : List String, s.Deletes (StoreM.deleteIds ids) fun id => id ∈ ids.map t.kept) ∧
    ∀ dataset properties, s.Deletes (StoreM.deleteObservations dataset properties) fun id =>
      ∃ property ∈ properties, ∃ x ∈ t.edges.rows, t.IsLinked dataset property x ∧ x.id = id := by
  intro t
  constructor
  · intro ids
    refine (removes_deleteIds ids).deletes hsound hencoded fun e he => ?_
    exact (Tables.mem_edges_removeEdges.1 he).2
  · intro dataset properties
    have hdeletes := (removes_deleteObservations dataset properties).deletes hsound hencoded
      fun e he => namedBy_observationIds_removeEdges hencoded dataset properties he
    simpa only [Tables.mem_observationIds hencoded] using hdeletes

/-- The statement that an edge with this id makes about two nodes. -/
def relation (id node1 label node2 : String) : Statement :=
  ⟨⟨id, node1, label, node2, .symbol⟩, .symbol node2⟩

/-- A store with an observation of `Q99`, its link to the dataset, an edge about the link, and one
about that. -/
def chained : Store :=
  (fresh false false .standard .idempotent "now").after [.insert .idempotent
    [⟨⟨"e1", "Q1", "P10", "5", .quantity⟩, .quantity ⟨.int 5, none, none, none, none⟩⟩,
      relation "d1" "e1" Vocabulary.dataset "Q99", relation "x1" "d1" "P7" "a",
      relation "x2" "x1" "P7" "b"]]

theorem intact_chained : chained.Intact :=
  (intact_fresh false false .standard .idempotent "now").after _

/-- An edge that is named twice, or both by its id and by its node, counts once, and an unknown id
does not count; the edge about an edge about a named one stays. -/
theorem deletions_exact_overlapping :
    let ids := ["d1", "e1", "d1", "e9"]
    (∃ s', chained.run (StoreM.deleteIds ids) = (.ok 3, s') ∧
      s'.run (StoreM.deleteIds ids) = (.ok 0, s') ∧
      ∀ id, (∃ e ∈ s'.database.tables.edges.rows, e.id = id) ↔ id = "x2") ∧
    ∃ s', chained.run (StoreM.deleteObservations "Q99" ["P10"]) = (.ok 2, s') ∧
      s'.run (StoreM.deleteObservations "Q99" ["P10"]) = (.ok 0, s') := by
  intro ids
  have hintact := intact_chained
  obtain ⟨hids, hobservations⟩ := deletions_exact chained hintact.sound
    (Tables.encoded_of_utf8 hintact.encoding)
  obtain ⟨n, s', hrun, hagain⟩ := (hids ids).succeeds hintact.toReady
  obtain ⟨m, s'', hrun', hagain'⟩ := (hobservations "Q99" ["P10"]).succeeds hintact.toReady
  have hn : (chained.run (StoreM.deleteIds ids)).1 = .ok 3 := by decide +kernel
  have hm : (chained.run (StoreM.deleteObservations "Q99" ["P10"])).1 = .ok 2 := by
    decide +kernel
  rw [hrun] at hn
  rw [hrun'] at hm
  obtain rfl := Except.ok.inj hn
  obtain rfl := Except.ok.inj hm
  have hspared : ∀ e ∈ chained.database.tables.edges.rows,
      e.id ∉ ids.map chained.database.tables.kept ∧
        e.node1 ∉ ids.map chained.database.tables.kept ↔ e.id = "x2" := by decide +kernel
  have hstored : ∃ e ∈ chained.database.tables.edges.rows, e.id = "x2" := by decide +kernel
  have hleft := ((hids ids).loses _ _ hrun).edges
  refine ⟨⟨s', hrun, hagain, fun id => ⟨?_, ?_⟩⟩, s'', hrun', hagain'⟩
  · rintro ⟨e, he, rfl⟩
    obtain ⟨he, hnamed⟩ := (hleft e).1 he
    exact (hspared e he).1 hnamed
  · rintro rfl
    obtain ⟨e, he, hid⟩ := hstored
    exact ⟨e, (hleft e).2 ⟨he, (hspared e he).2 hid⟩, hid⟩

end Store

end FactGraph
