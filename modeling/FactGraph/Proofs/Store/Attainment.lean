import FactGraph.Proofs.Store.Deletion
import FactGraph.Proofs.Store.Order
import FactGraph.Proofs.Store.Replacement

/-!
# Replacements are exact

A replacement removes the edges of a node with some predicates, unless a statement of the list has
their id, together with the edges about them. Then it inserts the statements whose ids are not
stored. Both steps may meet: what is removed may be the edge of a statement that is about a removed
one, and this statement is inserted again.

**What there is after a replacement is told by what there was before** (`Database.Attains`): the
edges that are neither stale nor about a stale edge, and of the ids that are then not stored the
first statement each. So all ids of the statements are stored, what the node says under the
predicates has one of these ids, and **the same replacement finds nothing to do again**
(`Store.replacement_exact`).
-/

namespace FactGraph

/-! ## What there is to be -/

namespace Tables

/-- The id is that of a stale edge: the node says it under one of the predicates, and none of the
statements has it. -/
def IsStale (t : Tables) (node : String) (predicates : List String) (statements : List Statement)
    (id : String) : Prop :=
  id ∉ Statement.ids statements ∧
    ∃ e ∈ t.edges.rows, e.id = id ∧ e.node1 = node ∧ e.label ∈ predicates

/-- The edge is neither stale nor about a stale one. -/
def Spares (t : Tables) (node : String) (predicates : List String) (statements : List Statement)
    (e : Edge) : Prop :=
  ¬t.IsStale node predicates statements e.id ∧ ¬t.IsStale node predicates statements e.node1

/-- The statement comes in: it is the first of its id, and no edge of the id stays. -/
def TakesIn (t : Tables) (node : String) (predicates : List String) (statements : List Statement)
    (x : Statement) : Prop :=
  x.IsFirst statements ∧
    ∀ e ∈ t.edges.rows, t.Spares node predicates statements e → e.id ≠ x.edge.id

end Tables

/-- The database `other` is what `db` becomes if the statements are put in the place of what the
node says under the predicates. -/
structure Database.Attains (db : Database) (node : String) (predicates : List String)
    (statements : List Statement) (other : Database) : Prop where
  edges : ∀ e, e ∈ other.tables.edges.rows ↔
    (e ∈ db.tables.edges.rows ∧ db.tables.Spares node predicates statements e) ∨
      ∃ x, db.tables.TakesIn node predicates statements x ∧ x.edge = e
  values : ∀ kind (row : ValueRow kind), row ∈ (other.tables.values kind).rows ↔
    (row ∈ (db.tables.values kind).rows ∧ ∃ e ∈ db.tables.edges.rows,
      e.id = row.edgeId ∧ db.tables.Spares node predicates statements e) ∨
      ∃ x, db.tables.TakesIn node predicates statements x ∧ x.row? = some ⟨kind, row⟩
  stores : ∀ x, db.tables.TakesIn node predicates statements x → other.tables.Stores x
  reads : ∀ e ∈ db.tables.edges.rows, db.tables.Spares node predicates statements e →
    other.statement e.id = db.statement e.id ∧ other.value e.id = db.value e.id

section Attained

variable {db other : Database} {node : String} {predicates : List String}
  {statements : List Statement} {x : Statement} {e : Edge}

theorem Database.Attains.said (h : db.Attains node predicates statements other)
    (hx : x ∈ statements) : ∃ e ∈ other.tables.edges.rows, e.id = x.edge.id := by
  obtain ⟨y, hfirst, hid⟩ := Statement.exists_isFirst hx
  by_cases hstays : ∃ e ∈ db.tables.edges.rows,
      db.tables.Spares node predicates statements e ∧ e.id = y.edge.id
  · obtain ⟨e, he, hspared, heId⟩ := hstays
    exact ⟨e, (h.edges e).2 (.inl ⟨he, hspared⟩), heId.trans hid⟩
  · have htaken : db.tables.TakesIn node predicates statements y :=
      ⟨hfirst, fun e he hspared heId => hstays ⟨e, he, hspared, heId⟩⟩
    exact ⟨y.edge, (h.edges _).2 (.inr ⟨y, htaken, rfl⟩), hid⟩

theorem Database.Attains.own (h : db.Attains node predicates statements other)
    (he : e ∈ other.tables.edges.rows) (hnode : e.node1 = node) (hlabel : e.label ∈ predicates) :
    e.id ∈ Statement.ids statements := by
  rcases (h.edges e).1 he with ⟨hmem, hspared, -⟩ | ⟨x, ⟨hfirst, -⟩, rfl⟩
  · by_contra hnone
    exact hspared ⟨hnone, e, hmem, rfl, hnode, hlabel⟩
  · exact List.mem_map.2 ⟨x, hfirst.mem, rfl⟩

end Attained

/-! ## What a replacement makes -/

namespace Tables

variable {t u : Tables} {node : String} {predicates : List String} {statements : List Statement}
  {x : Statement} {e : Edge}

theorem isNamed_staleIds (h : t.encoding = .utf8) :
    e.isNamed (t.staleIds node predicates (Statement.ids statements)) = false ↔
      t.Spares node predicates statements e := by
  rw [Edge.isNamed_eq_false_iff, mem_staleIds h, mem_staleIds h]
  rfl

theorem mem_edges_cleared (h : t.encoding = .utf8) :
    e ∈ (t.cleared node predicates statements).edges.rows ↔
      e ∈ t.edges.rows ∧ t.Spares node predicates statements e := by
  rw [cleared, mem_edges_removeEdges, isNamed_staleIds h]

theorem cleared_of_none (h : t.encoding = .utf8)
    (hnone : ∀ id, ¬t.IsStale node predicates statements id) :
    t.cleared node predicates statements = t :=
  removeEdges_of_none fun e _ => (isNamed_staleIds h).2 ⟨hnone e.id, hnone e.node1⟩

/-- What is new after clearing is what a replacement takes in. -/
theorem mem_news_cleared (h : t.encoding = .utf8) :
    x ∈ (t.cleared node predicates statements).news statements ↔
      t.TakesIn node predicates statements x := by
  have hencoding : (t.cleared node predicates statements).encoding = .utf8 := h
  rw [mem_news_iff, containsEdge_of_utf8 hencoding, ← Bool.not_eq_true, Table.contains_iff,
    and_comm, TakesIn]
  refine and_congr_right fun _ => ?_
  simp only [mem_edges_cleared h, not_exists, not_and, and_imp, ne_eq]

theorem Adds.find?_values {added : List Statement} (hadds : t.Adds added u)
    (hadded : ∀ x ∈ added, x.edge.id ≠ e.id) (kind : ValueKind) :
    (u.values kind).find? e.id = (t.values kind).find? e.id := by
  ext row
  rw [Table.find?_eq_some_iff, Table.find?_eq_some_iff, hadds.values]
  refine and_congr_left fun hid => or_iff_left ?_
  rintro ⟨x, hx, hrow⟩
  exact hadded x hx ((Statement.of_row?_eq_some hrow).2.symm.trans hid)

theorem withNews_of_contains (h : ∀ x ∈ statements, t.containsEdge x.edge.id = true) :
    t.news statements = [] ∧ t.withNews statements = t := by
  have hnone : t.news statements = [] := by
    refine List.eq_nil_iff_forall_not_mem.2 fun x hx => ?_
    obtain ⟨hnew, hfirst⟩ := mem_news_iff.1 hx
    exact nomatch hnew.symm.trans (h x hfirst.mem)
  refine ⟨hnone, ?_⟩
  rw [withNews, hnone, withEdges_of_contains h]
  rfl

end Tables

/-- **Clearing what is stale and adding what is new attains what there is to be.** -/
theorem Database.attains_of_adds {db : Database} {node : String} {predicates : List String}
    {statements : List Statement} {t : Tables} (hencoding : db.tables.encoding = .utf8)
    (hsound : db.tables.Sound)
    (hstorable : ∀ x ∈ (db.tables.cleared node predicates statements).news statements,
      Update.Storable x)
    (hadds : (db.tables.cleared node predicates statements).Adds
      ((db.tables.cleared node predicates statements).news statements) t)
    (doomed : Option (List String)) (pages : Option Pages) :
    db.Attains node predicates statements { db with tables := t, doomed, pages } where
  edges := by
    intro e
    refine (hadds.edges e).trans (or_congr (Tables.mem_edges_cleared hencoding) ?_)
    simp only [Tables.mem_news_cleared hencoding]
  values := by
    intro kind row
    refine (hadds.values kind row).trans (or_congr ?_ ?_)
    · refine hsound.mem_values_removeEdges_iff.trans (and_congr_right fun _ => ?_)
      refine exists_congr fun e => ?_
      rw [← Tables.cleared, Tables.mem_edges_cleared hencoding, and_assoc, and_comm (a := _ = _)]
    · simp only [Tables.mem_news_cleared hencoding]
  stores := by
    intro x hx
    have hnew := (Tables.mem_news_cleared hencoding).2 hx
    exact hadds.stores hnew (hstorable x hnew)
  reads := by
    intro e he hspared
    have hstays := (Tables.isNamed_staleIds hencoding).2 hspared
    have hid : db.tables.kept e.id = e.id := Tables.kept_of_utf8 hencoding _
    have hleft := (Tables.mem_edges_cleared hencoding).2 ⟨he, hspared⟩
    have hfind := hadds.find?_values (e := e) (fun x hx heq =>
      ((Tables.mem_news_cleared hencoding).1 hx).2 e he hspared heq.symm) e.kind
    obtain ⟨hstatement, hvalue⟩ := reads_without he hid hstays
    rw [← hstatement, ← hvalue]
    exact reads_congr (fun _ => rfl) (by rw [Tables.kept, hadds.encoding]; rfl) hid hleft
      ((hadds.edges e).2 (.inl hleft)) (by rw [Tables.unknownTag?, hadds.unknownTags]; rfl) hfind

namespace Store

variable {s s' : Store} {node : String} {predicates : List String} {statements : List Statement}
  {stats : ImportStats}

/-- A replacement that succeeds attains what there is to be, and keeps the tables sound. -/
theorem attains_of_run_replace (hcomplete : s.database.Complete)
    (hencoding : s.database.tables.encoding = .utf8) (hsound : s.database.tables.Sound)
    (hrun : s.run (StoreM.replace node predicates statements) = (.ok stats, s')) :
    s.database.Attains node predicates statements s'.database ∧ s'.database.Complete ∧
      s'.database.tables.encoding = .utf8 ∧ s'.database.tables.Sound := by
  obtain ⟨hnews, -, pages, rfl⟩ := of_run_replace_ok hcomplete hencoding hsound hrun
  have hcleared : (s.database.tables.cleared node predicates statements).Sound :=
    hsound.removeEdges _
  have hadds := Tables.adds_withNews hcleared hencoding statements
  refine ⟨Database.attains_of_adds hencoding hsound (fun x hx => (hnews x hx).2) hadds _ pages,
    hcomplete, hadds.encoding.trans hencoding, hadds.sound hcleared ?_ fun x hx => (hnews x hx).2⟩
  exact fun x hx => Statement.kind_eq_of_check (hnews x hx).1

/-- Where the statements have been put in, none is stale and none is new. -/
theorem cleared_of_attains {db : Database}
    (h : db.Attains node predicates statements s.database)
    (hencoding : s.database.tables.encoding = .utf8) :
    let t := s.database.tables
    t.cleared node predicates statements = t ∧
      t.news statements = [] ∧ t.withNews statements = t := by
  intro t
  refine ⟨Tables.cleared_of_none hencoding ?_, Tables.withNews_of_contains fun x hx => ?_⟩
  · rintro id ⟨hnone, e, he, rfl, hnode, hlabel⟩
    exact hnone (h.own he hnode hlabel)
  · obtain ⟨e, he, hid⟩ := h.said hx
    rw [Tables.containsEdge_of_utf8 hencoding, ← hid]
    exact Table.contains_key he

/-- **Replacements are exact.** One that succeeds attains what there is to be, and made again it has
nothing to insert and changes no table. In a store that is ready, statements that are in order and
hold no NaN can always be put in. -/
theorem replacement_exact (s : Store) (hcomplete : s.database.Complete)
    (hencoding : s.database.tables.encoding = .utf8) (hsound : s.database.tables.Sound)
    (node : String) (predicates : List String) (statements : List Statement) :
    let replacement := StoreM.replace node predicates statements
    (∀ stats s', s.run replacement = (.ok stats, s') →
      s.database.Attains node predicates statements s'.database ∧
      (∀ x ∈ statements, ∃ e ∈ s'.database.tables.edges.rows, e.id = x.edge.id) ∧
      (∀ e ∈ s'.database.tables.edges.rows, e.node1 = node → e.label ∈ predicates →
        ∃ x ∈ statements, x.edge.id = e.id) ∧
      ∀ stats' s'', s'.run replacement = (.ok stats', s'') →
        stats' = ⟨0, statements.length, 0⟩ ∧ s''.database.tables = s'.database.tables) ∧
    (s.Ready → (∀ x ∈ statements, x.check = .ok ()) →
      (∀ x ∈ statements, x.value.hasNaN = false) →
      ∃ stats s', s.run replacement = (.ok stats, s') ∧
        s'.run replacement = (.ok ⟨0, statements.length, 0⟩, s')) := by
  intro replacement
  constructor
  · intro stats s' hrun
    obtain ⟨hattains, hcomplete', hencoding', hsound'⟩ :=
      attains_of_run_replace hcomplete hencoding hsound hrun
    refine ⟨hattains, fun x => hattains.said, fun e he hnode hlabel => ?_, ?_⟩
    · exact List.mem_map.1 (hattains.own he hnode hlabel)
    · intro stats' s'' hrun'
      obtain ⟨-, rfl, pages, rfl⟩ := of_run_replace_ok hcomplete' hencoding' hsound' hrun'
      obtain ⟨hstays, hnews, hwith⟩ := cleared_of_attains hattains hencoding'
      rw [hstays, hnews]
      exact ⟨rfl, hwith⟩
  · intro hready hcheck hnumbers
    have hstorable : ∀ x ∈ statements, Update.Storable x := fun x hx =>
      Update.storable_of_hasNaN (hnumbers x hx)
    have hrun := hready.run_replace hsound node predicates hcheck hstorable
    refine ⟨_, _, hrun, ?_⟩
    obtain ⟨hattains, hcomplete', hencoding', hsound'⟩ :=
      attains_of_run_replace hcomplete hencoding hsound hrun
    obtain ⟨hstays, hnews, hwith⟩ := cleared_of_attains hattains hencoding'
    have hready' := Ready.mk hcomplete' hencoding' hready.unlimited hready.writable hready.undoes
      hready.idle
    -- The second call clears nothing and adds nothing, so it is a run with empty news.
    rw [hready'.run_replace hsound' node predicates hcheck hstorable, hstays, hnews, hwith]
    rfl

/-- A store in which `Q1` says two things under `P10`, one of them with a link to a dataset. -/
def twofold : Store :=
  (fresh false false .standard .idempotent "now").after [.insert .idempotent
    [relation "e1" "Q1" "P10" "a", relation "e2" "Q1" "P10" "b",
      relation "d1" "e1" Vocabulary.dataset "Q99"]]

theorem intact_twofold : twofold.Intact :=
  (intact_fresh false false .standard .idempotent "now").after _

/-- The edge `e1` goes, and the link `d1` with it, which comes in again as it is in the list. The
edge `e2` stays as it was, and of the two statements with the id `e3` the first comes in. -/
theorem replacement_exact_shared :
    let statements : List Statement := [relation "d1" "e2" Vocabulary.dataset "Q98",
      relation "e2" "Q1" "P10" "c", relation "e3" "Q1" "P10" "d", relation "e3" "Q1" "P10" "e"]
    let replacement := StoreM.replace "Q1" ["P10"] statements
    ∃ s', twofold.run replacement = (.ok ⟨2, 2, 2⟩, s') ∧
      twofold.database.Attains "Q1" ["P10"] statements s'.database ∧
      s'.run replacement = (.ok ⟨0, 4, 0⟩, s') ∧
      s'.database.tables.edges.rows.map (fun e => (e.id, e.node2)) =
        [("d1", "Q98"), ("e2", "b"), ("e3", "d")] := by
  intro statements replacement
  have hintact := intact_twofold
  obtain ⟨hattains, hsucceeds⟩ := replacement_exact twofold hintact.complete hintact.encoding
    hintact.sound "Q1" ["P10"] statements
  obtain ⟨stats, s', hrun, hagain⟩ := hsucceeds hintact.toReady (by decide +kernel)
    (by decide +kernel)
  have hstats : (twofold.run replacement).1 = .ok ⟨2, 2, 2⟩ := by decide +kernel
  have hedges : (twofold.run replacement).2.database.tables.edges.rows.map
      (fun e => (e.id, e.node2)) = [("d1", "Q98"), ("e2", "b"), ("e3", "d")] := by decide +kernel
  have hafter : (twofold.run replacement).2 = s' := congrArg Prod.snd hrun
  rw [hrun] at hstats
  obtain rfl := Except.ok.inj hstats
  exact ⟨s', hrun, (hattains _ _ hrun).1, hagain, hafter ▸ hedges⟩

end Store

end FactGraph
