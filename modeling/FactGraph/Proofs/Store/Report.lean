import Mathlib.Algebra.BigOperators.Group.List.Lemmas
import Mathlib.Data.List.Dedup
import FactGraph.Proofs.Store.Integrity

/-!
# What the integrity report counts

The report is put together from counts for each kind. Taken together they tell, for any contents
whatever: the edges without a value in the table of their kind, the values whose edge is of another
kind, the values without an edge, and for each id the values beyond its first.

**The report finds no fault exactly if every edge has one value over all tables, in the table of its
kind, and every value has an edge** (`Database.checks_exact`). No fault hides another: a value in a
wrong table is counted whether or not the edge has its own value too, and values without an edge
count as such and also as values beyond the first, if there are several.
-/

namespace FactGraph

theorem ValueKind.mem_all (kind : ValueKind) : kind ∈ ValueKind.all := by
  cases kind <;> decide

namespace Tables

/-- The values of all tables, each by its kind and its id. -/
def valueKeys (t : Tables) : List (ValueKind × String) :=
  ValueKind.all.flatMap fun kind => (t.valueIds kind).map (kind, ·)

/-- The ids of the values of all tables. -/
def allValueIds (t : Tables) : List String := ValueKind.all.flatMap t.valueIds

/-- The tag of every edge names a kind. -/
def Tagged (t : Tables) : Prop := ∀ e ∈ t.edges.rows, t.kindOf? e = some e.kind

variable {t : Tables} {kind : ValueKind} {id : String}

theorem mem_valueKeys : (kind, id) ∈ t.valueKeys ↔ id ∈ t.valueIds kind := by
  simp [valueKeys, ValueKind.mem_all]

theorem mem_allValueIds : id ∈ t.allValueIds ↔ ∃ kind, id ∈ t.valueIds kind := by
  simp [allValueIds, ValueKind.mem_all]

/-! ## Sums over the kinds -/

theorem sumOverKinds_eq (count : ValueKind → Nat) :
    sumOverKinds count = count .string + count .dateAndTime + count .quantity +
      count .coordinate + count .symbol := by
  simp [sumOverKinds, ValueKind.all]
  omega

theorem sumOverKinds_countP_edges (p : ValueKind → Edge → Bool) (edges : List Edge) :
    sumOverKinds (fun kind => edges.countP fun e => e.kind = kind ∧ p kind e) =
      edges.countP fun e => p e.kind e := by
  induction edges with
  | nil => rfl
  | cons e edges ih =>
    rw [sumOverKinds_eq] at ih ⊢
    simp only [List.countP_cons, ← ih]
    cases e.kind <;> simp <;> omega

theorem sumOverKinds_countP_values (t : Tables) (p : ValueKind → String → Bool) :
    sumOverKinds (fun kind => (t.valueIds kind).countP (p kind)) =
      t.valueKeys.countP fun key => p key.1 key.2 := by
  have hkind (kind : ValueKind) :
      ((t.valueIds kind).map (kind, ·)).countP (fun key => p key.1 key.2) =
        (t.valueIds kind).countP (p kind) := List.countP_map ..
  rw [valueKeys, List.countP_flatMap, sumOverKinds]
  exact congrArg List.sum (List.map_congr_left fun kind _ => (hkind kind).symm)

/-! ## Counts -/

theorem sumOverKinds_missingValues (htags : t.Tagged) :
    sumOverKinds t.missingValues = t.edges.rows.countP fun e => e.id ∉ t.valueIds e.kind := by
  rw [← sumOverKinds_countP_edges fun kind e => e.id ∉ t.valueIds kind]
  refine congrArg sumOverKinds (funext fun kind => List.countP_congr fun e he => ?_)
  rw [htags e he]
  simp [mem_valueIds]

theorem sumOverKinds_mismatchedValues (htags : t.Tagged) :
    sumOverKinds t.mismatchedValues =
      t.valueKeys.countP fun key => ∃ e ∈ t.edges.rows, e.id = key.2 ∧ e.kind ≠ key.1 := by
  rw [← sumOverKinds_countP_values t fun kind id => ∃ e ∈ t.edges.rows, e.id = id ∧ e.kind ≠ kind]
  refine congrArg sumOverKinds (funext fun kind => List.countP_congr fun id _ => ?_)
  rw [Option.any_eq_true, decide_eq_true_iff]
  constructor
  · rintro ⟨e, hfind, hkind⟩
    obtain ⟨he, hid⟩ := Table.find?_eq_some_iff.1 hfind
    rw [htags e he] at hkind
    exact ⟨e, he, hid, by simpa using hkind⟩
  · rintro ⟨e, he, hid, hkind⟩
    refine ⟨e, Table.find?_eq_some_iff.2 ⟨he, hid⟩, ?_⟩
    rw [htags e he]
    simpa using hkind

theorem sumOverKinds_orphanValues (t : Tables) :
    sumOverKinds t.orphanValues =
      t.valueKeys.countP fun key => ∀ e ∈ t.edges.rows, e.id ≠ key.2 := by
  rw [← sumOverKinds_countP_values t fun _ id => ∀ e ∈ t.edges.rows, e.id ≠ id]
  refine congrArg sumOverKinds (funext fun kind => List.countP_congr fun id _ => ?_)
  rw [Bool.not_eq_true', ← Bool.not_eq_true, Table.contains_iff, decide_eq_true_iff]
  simp

theorem length_sortedTexts_eq (texts : List String) :
    (sortedTexts texts).length = texts.dedup.length := by
  have hsorted : (sortedTexts texts).Nodup :=
    (Table.pairwise_sortedTexts texts).imp fun h => ne_of_lt h
  refine ((List.perm_ext_iff_of_nodup hsorted texts.nodup_dedup).2 fun text => ?_).length_eq
  rw [Table.mem_sortedTexts, List.mem_dedup]

theorem duplicateValues_eq_sub (t : Tables) :
    t.duplicateValues = t.allValueIds.length - t.allValueIds.dedup.length := by
  rw [← length_sortedTexts_eq]
  rfl

/-- For each id, the values beyond its first. -/
theorem duplicateValues_eq (t : Tables) :
    t.duplicateValues =
      (t.allValueIds.dedup.map fun id => t.allValueIds.count id - 1).sum := by
  have hcounts : (t.allValueIds.dedup.map fun id => t.allValueIds.count id - 1 + 1).sum =
      t.allValueIds.length := by
    rw [← List.sum_map_count_dedup_eq_length]
    refine congrArg List.sum (List.map_congr_left fun id hid => ?_)
    exact Nat.sub_add_cancel (List.count_pos_iff.2 (List.mem_dedup.1 hid))
  rw [List.sum_map_add, List.map_const', List.sum_replicate, nsmul_one, Nat.cast_id] at hcounts
  rw [duplicateValues_eq_sub, ← hcounts, Nat.add_sub_cancel]

/-! ## Faults -/

theorem count_allValueIds (t : Tables) (id : String) :
    t.allValueIds.count id = ValueKind.all.countP fun kind => id ∈ t.valueIds kind := by
  have hkind (kind : ValueKind) :
      (t.valueIds kind).count id = if id ∈ t.valueIds kind then 1 else 0 :=
    (nodup_valueIds t kind).count
  simp [allValueIds, ValueKind.all, hkind, List.countP_cons]
  omega

/-- Every edge has one value over all tables, in the table of its kind. -/
def EachValued (t : Tables) : Prop :=
  ∀ e ∈ t.edges.rows, t.allValueIds.count e.id = 1 ∧ e.id ∈ t.valueIds e.kind

/-- Every value has an edge. -/
def EachOwned (t : Tables) : Prop := ∀ kind, ∀ id ∈ t.valueIds kind, ∃ e ∈ t.edges.rows, e.id = id

theorem sumOverKinds_missingValues_eq_zero_iff (htags : t.Tagged) :
    sumOverKinds t.missingValues = 0 ↔ ∀ e ∈ t.edges.rows, e.id ∈ t.valueIds e.kind := by
  simp [sumOverKinds_missingValues htags, List.countP_eq_zero]

theorem sumOverKinds_mismatchedValues_eq_zero_iff (htags : t.Tagged) :
    sumOverKinds t.mismatchedValues = 0 ↔
      ∀ kind, ∀ e ∈ t.edges.rows, e.id ∈ t.valueIds kind → e.kind = kind := by
  rw [sumOverKinds_mismatchedValues htags, List.countP_eq_zero]
  constructor
  · intro h kind e he hid
    by_contra hkind
    exact h (kind, e.id) (mem_valueKeys.2 hid) (decide_eq_true ⟨e, he, rfl, hkind⟩)
  · rintro h ⟨kind, id⟩ hid hmismatched
    obtain ⟨e, he, rfl, hkind⟩ := of_decide_eq_true hmismatched
    exact hkind (h kind e he (mem_valueKeys.1 hid))

theorem sumOverKinds_orphanValues_eq_zero_iff :
    sumOverKinds t.orphanValues = 0 ↔ t.EachOwned := by
  rw [sumOverKinds_orphanValues, List.countP_eq_zero]
  constructor
  · intro h kind id hid
    simpa using h (kind, id) (mem_valueKeys.2 hid)
  · rintro h ⟨kind, id⟩ hid
    simpa using h kind id (mem_valueKeys.1 hid)

theorem duplicateValues_eq_zero_iff : t.duplicateValues = 0 ↔ t.allValueIds.Nodup := by
  rw [duplicateValues_eq_sub, Nat.sub_eq_zero_iff_le, ← List.dedup_eq_self]
  exact ⟨t.allValueIds.dedup_sublist.eq_of_length_le, fun h => by rw [h]⟩

theorem EachValued.kind_eq (h : t.EachValued) {e : Edge} (he : e ∈ t.edges.rows)
    (hid : e.id ∈ t.valueIds kind) : e.kind = kind := by
  obtain ⟨hcount, hown⟩ := h e he
  rw [count_allValueIds, List.countP_eq_length_filter, List.length_eq_one_iff] at hcount
  obtain ⟨only, hfilter⟩ := hcount
  have honly (kind : ValueKind) (hid : e.id ∈ t.valueIds kind) : kind = only := by
    have hmem : kind ∈ ValueKind.all.filter fun kind => e.id ∈ t.valueIds kind :=
      List.mem_filter.2 ⟨kind.mem_all, decide_eq_true hid⟩
    rw [hfilter] at hmem
    exact List.mem_singleton.1 hmem
  rw [honly _ hown, honly _ hid]

/-- **No fault is found exactly if every edge has one value, of its kind, and every value has an
edge.** -/
theorem hasIssues_integrityReport_iff (htags : t.Tagged) :
    t.integrityReport.hasIssues = false ↔ t.EachValued ∧ t.EachOwned := by
  have hzero : t.integrityReport.hasIssues = false ↔ sumOverKinds t.missingValues = 0 ∧
      sumOverKinds t.mismatchedValues = 0 ∧ sumOverKinds t.orphanValues = 0 ∧
      t.duplicateValues = 0 := by
    simp [IntegrityReport.hasIssues, integrityReport, presenceReport, orphanReport,
      duplicateReport, IntegrityReport.merge, IntegrityReport.empty, and_assoc]
  rw [hzero, sumOverKinds_missingValues_eq_zero_iff htags,
    sumOverKinds_mismatchedValues_eq_zero_iff htags, sumOverKinds_orphanValues_eq_zero_iff,
    duplicateValues_eq_zero_iff]
  constructor
  · rintro ⟨hvalued, -, howned, hdistinct⟩
    exact ⟨fun e he => ⟨List.count_eq_one_of_mem hdistinct
      (mem_allValueIds.2 ⟨e.kind, hvalued e he⟩), hvalued e he⟩, howned⟩
  · rintro ⟨hvalued, howned⟩
    refine ⟨fun e he => (hvalued e he).2, fun kind e he => hvalued.kind_eq he, howned, ?_⟩
    rw [List.nodup_iff_count_le_one]
    intro id
    by_cases hid : id ∈ t.allValueIds
    · obtain ⟨kind, hid⟩ := mem_allValueIds.1 hid
      obtain ⟨e, he, rfl⟩ := howned kind id hid
      exact (hvalued e he).1.le
    · rw [List.count_eq_zero.2 hid]
      exact Nat.zero_le 1

end Tables

namespace Database

variable {db : Database}

theorem checked_eq_ok (hedges : db.has .edges = true)
    (hvalues : ∀ kind, db.has (.values kind) = true) (check : Tables → IntegrityReport) :
    db.checked check = .ok (check db.tables) := by
  simp [checked, require, hedges, hvalues, ValueKind.all, bind, Except.bind, pure, Except.pure]

/-- **The report is exact**, whatever the tables of edges and values contain: it finds no fault
exactly if every edge has one value over all tables, in the table of its kind, and every value has
an edge; and it tells how many edges have no value in their table, how many values have an edge of
another kind or none, and how many values there are beyond the first of each id. -/
theorem checks_exact (db : Database) (hedges : db.has .edges = true)
    (hvalues : ∀ kind, db.has (.values kind) = true) (htags : db.tables.Tagged) :
    let t := db.tables
    ∃ report, db.checked Tables.integrityReport = .ok report ∧
      (report.hasIssues = false ↔ t.EachValued ∧ t.EachOwned) ∧
      report.edges = t.edges.rows.length ∧
      report.faults.missing = t.edges.rows.countP (fun e => e.id ∉ t.valueIds e.kind) ∧
      report.faults.mismatched =
        t.valueKeys.countP (fun key => ∃ e ∈ t.edges.rows, e.id = key.2 ∧ e.kind ≠ key.1) ∧
      report.faults.orphan = t.valueKeys.countP (fun key => ∀ e ∈ t.edges.rows, e.id ≠ key.2) ∧
      report.faults.duplicate =
        (t.allValueIds.dedup.map fun id => t.allValueIds.count id - 1).sum := by
  intro t
  refine ⟨_, checked_eq_ok hedges hvalues _, Tables.hasIssues_integrityReport_iff htags, ?_⟩
  rw [← Tables.sumOverKinds_missingValues htags, ← Tables.sumOverKinds_mismatchedValues htags,
    ← Tables.sumOverKinds_orphanValues, ← Tables.duplicateValues_eq]
  simp [Tables.integrityReport, Tables.presenceReport, Tables.orphanReport, Tables.duplicateReport,
    IntegrityReport.merge, IntegrityReport.empty, Table.size, t]

/-- An edge with a value in a wrong table beside its own, another without any, and two values under
an id without an edge. -/
theorem checks_exact_damaged :
    let db : Database := { Database.base with tables := { Tables.empty with
      edges := .ofList [⟨"a", "n", "l", "s", .symbol⟩, ⟨"b", "n", "l", "5", .quantity⟩]
      strings := .ofList [⟨"a", .string "s" none⟩, ⟨"x", .string "t" none⟩]
      dates := .ofList [⟨"x", .pointInTime "2020-01-01T00:00:00Z" none none⟩]
      symbols := .ofList [⟨"a", .symbol "s"⟩] } }
    ∃ report, db.checked Tables.integrityReport = .ok report ∧ report.hasIssues = true ∧
      report = ⟨2, ⟨1, 1, 2, 2⟩⟩ := by
  intro db
  have hvalues : ∀ kind, db.has (.values kind) = true := fun kind => complete_base (.values kind)
  have htags : db.tables.Tagged := fun e _ => rfl
  obtain ⟨report, hchecked, hissues, hedges, hmissing, hmismatched, horphan, hduplicate⟩ :=
    checks_exact db rfl hvalues htags
  have hunvalued : ¬db.tables.EachValued := by
    intro h
    have hvalued := (h ⟨"b", "n", "l", "5", .quantity⟩ (by decide)).2
    exact absurd hvalued (by decide)
  refine ⟨report, hchecked, ?_, ?_⟩
  · rw [← Bool.not_eq_false]
    exact fun h => hunvalued (hissues.1 h).1
  · rcases report with ⟨edges, missing, mismatched, orphan, duplicate⟩
    dsimp only at hedges hmissing hmismatched horphan hduplicate
    subst hedges hmissing hmismatched horphan hduplicate
    decide +kernel

end Database

end FactGraph
