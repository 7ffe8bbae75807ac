import FactGraph.Integrity
import FactGraph.Proofs.Store.Table

/-!
# Sound tables

Tables are **sound** (`Tables.Sound`) if every edge has its value in the table of its kind and every
value has an edge of that kind. Ids are distinct in each table by its type, so an edge of sound
tables has exactly one value, and the integrity report of sound tables finds no fault.

Removing edges keeps tables sound whatever is removed (`Sound.removeEdges`). What insertion does is
the subject of a module of its own.
-/

namespace FactGraph

namespace Tables

variable {t : Tables}

/-- Every edge has its value in the table of its kind, and every value has such an edge. -/
structure Sound (t : Tables) : Prop where
  tagged : t.unknownTags = []
  valued : ∀ e ∈ t.edges.rows, (t.values e.kind).contains e.id = true
  owned : ∀ kind, ∀ row ∈ (t.values kind).rows,
    ∃ e ∈ t.edges.rows, e.id = row.edgeId ∧ e.kind = kind

/-- Every row of values can be read. -/
def Readable (t : Tables) : Prop :=
  ∀ kind, ∀ row ∈ (t.values kind).rows, ∃ v, row.stored.toValue = .ok v

/-! ## Parts of tables -/

@[simp] theorem setValues_edges (t : Tables) (kind : ValueKind) (v : ValueTable kind) :
    (t.setValues kind v).edges = t.edges := by
  cases kind <;> rfl

@[simp] theorem setValues_encoding (t : Tables) (kind : ValueKind) (v : ValueTable kind) :
    (t.setValues kind v).encoding = t.encoding := by
  cases kind <;> rfl

@[simp] theorem setValues_unknownTags (t : Tables) (kind : ValueKind) (v : ValueTable kind) :
    (t.setValues kind v).unknownTags = t.unknownTags := by
  cases kind <;> rfl

theorem rows_empty (kind : ValueKind) : (empty.values kind).rows = [] := by
  cases kind <;> rfl

theorem mem_valueIds {kind : ValueKind} {id : String} :
    id ∈ t.valueIds kind ↔ (t.values kind).contains id = true := by
  simp [valueIds, Table.contains_iff]

theorem sound_empty : empty.Sound where
  tagged := rfl
  valued := fun e he => absurd he (Table.not_mem_rows_empty e)
  owned := fun kind row hr => by simp [rows_empty] at hr

theorem readable_empty : empty.Readable := fun kind row hr => by simp [rows_empty] at hr

/-! ## Removal -/

/-- The ids of the edges that satisfy `p`. -/
def removedIds (t : Tables) (p : Edge → Bool) : List String := (t.edges.rows.filter p).map Edge.id

theorem edges_removeEdges (t : Tables) (p : Edge → Bool) :
    (t.removeEdges p).edges = t.edges.filter (!p ·) := rfl

theorem values_removeEdges (t : Tables) (p : Edge → Bool) (kind : ValueKind) :
    (t.removeEdges p).values kind =
      (t.values kind).filter (fun row => row.edgeId ∉ t.removedIds p) := by
  cases kind <;> rfl

/-- An id is distinct, so of a stored edge it tells whether the edge goes. -/
theorem mem_removedIds {p : Edge → Bool} {e : Edge} (he : e ∈ t.edges.rows) :
    e.id ∈ t.removedIds p ↔ p e = true := by
  simp only [removedIds, List.mem_map, List.mem_filter]
  constructor
  · rintro ⟨other, ⟨hother, hp⟩, hid⟩
    rwa [Table.eq_of_key_eq hother he hid] at hp
  · exact fun hp => ⟨e, ⟨he, hp⟩, rfl⟩

/-- **Removal keeps tables sound**: values go with their edges and only with them. -/
theorem Sound.removeEdges (h : t.Sound) (p : Edge → Bool) : (t.removeEdges p).Sound where
  tagged := by
    show t.unknownTags.filter _ = []
    rw [h.tagged, List.filter_nil]
  valued := by
    intro e he
    rw [edges_removeEdges, Table.rows_filter, List.mem_filter] at he
    obtain ⟨he, hp⟩ := he
    obtain ⟨row, hrow, hid⟩ := Table.contains_iff.1 (h.valued e he)
    have hstays : e.id ∉ t.removedIds p := by
      rw [mem_removedIds he]
      simpa using hp
    rw [values_removeEdges]
    exact Table.contains_iff.2
      ⟨row, List.mem_filter.2 ⟨hrow, decide_eq_true (hid ▸ hstays)⟩, hid⟩
  owned := by
    intro kind row hrow
    rw [values_removeEdges, Table.rows_filter, List.mem_filter, decide_eq_true_eq] at hrow
    obtain ⟨hrow, hstays⟩ := hrow
    obtain ⟨e, he, hid, hkind⟩ := h.owned kind row hrow
    rw [← hid, mem_removedIds he] at hstays
    exact ⟨e, List.mem_filter.2 ⟨he, by simpa using hstays⟩, hid, hkind⟩

theorem Readable.removeEdges (h : t.Readable) (p : Edge → Bool) : (t.removeEdges p).Readable := by
  intro kind row hrow
  rw [values_removeEdges, Table.rows_filter, List.mem_filter] at hrow
  exact h kind row hrow.1

/-! ## What sound tables are good for -/

theorem Sound.kind_eq (h : t.Sound) {kind : ValueKind} {e : Edge} (he : e ∈ t.edges.rows)
    (hid : e.id ∈ t.valueIds kind) : kind = e.kind := by
  obtain ⟨row, hrow, hrowId⟩ := Table.contains_iff.1 (mem_valueIds.1 hid)
  obtain ⟨owner, howner, hownerId, rfl⟩ := h.owned kind row hrow
  rw [Table.eq_of_key_eq howner he (hownerId.trans hrowId)]

theorem nodup_valueIds (t : Tables) (kind : ValueKind) : (t.valueIds kind).Nodup :=
  (t.values kind).nodup_keys

/-- **An edge has one value over all tables.** -/
theorem Sound.count_valueIds (h : t.Sound) {e : Edge} (he : e ∈ t.edges.rows) :
    (ValueKind.all.flatMap t.valueIds).count e.id = 1 := by
  have hown : (t.valueIds e.kind).count e.id = 1 :=
    List.count_eq_one_of_mem (nodup_valueIds t e.kind) (mem_valueIds.2 (h.valued e he))
  have hother (kind : ValueKind) (hne : kind ≠ e.kind) : (t.valueIds kind).count e.id = 0 :=
    List.count_eq_zero.2 fun hid => hne (h.kind_eq he hid)
  cases hk : e.kind <;> rw [hk] at hown hother <;>
    simp [ValueKind.all, hown, hother]

theorem Sound.nodup_allValueIds (h : t.Sound) : (ValueKind.all.flatMap t.valueIds).Nodup := by
  rw [List.nodup_iff_count_le_one]
  intro id
  by_cases hid : id ∈ ValueKind.all.flatMap t.valueIds
  · obtain ⟨kind, -, hid⟩ := List.mem_flatMap.1 hid
    obtain ⟨row, hrow, rfl⟩ := Table.contains_iff.1 (mem_valueIds.1 hid)
    obtain ⟨e, he, hrowId, -⟩ := h.owned kind row hrow
    rw [← hrowId, h.count_valueIds he]
  · rw [List.count_eq_zero.2 hid]
    exact Nat.zero_le 1

theorem Sound.kindOf?_eq (h : t.Sound) (e : Edge) : t.kindOf? e = some e.kind := by
  simp [kindOf?, unknownTag?, h.tagged]

theorem Sound.missingValues_eq_zero (h : t.Sound) (kind : ValueKind) :
    t.missingValues kind = 0 := by
  refine List.countP_eq_zero.2 ?_
  intro e he
  have hvalue := h.valued e he
  rw [h.kindOf?_eq e]
  intro hmissing
  obtain ⟨hkind, hnone⟩ := of_decide_eq_true hmissing
  cases hkind
  simp [hvalue] at hnone

theorem Sound.mismatchedValues_eq_zero (h : t.Sound) (kind : ValueKind) :
    t.mismatchedValues kind = 0 := by
  refine List.countP_eq_zero.2 ?_
  intro id hid
  rw [Bool.not_eq_true, Option.any_eq_false]
  intro e hfind
  obtain ⟨he, rfl⟩ := Table.find?_eq_some_iff.1 hfind
  simp [h.kindOf?_eq e, h.kind_eq he hid]

theorem Sound.orphanValues_eq_zero (h : t.Sound) (kind : ValueKind) : t.orphanValues kind = 0 := by
  refine List.countP_eq_zero.2 ?_
  intro id hid
  obtain ⟨row, hrow, rfl⟩ := Table.contains_iff.1 (mem_valueIds.1 hid)
  obtain ⟨e, he, hrowId, -⟩ := h.owned kind row hrow
  simp [← hrowId, Table.contains_key he]

theorem Sound.duplicateValues_eq_zero (h : t.Sound) : t.duplicateValues = 0 := by
  show _ - _ = 0
  rw [Table.length_sortedTexts h.nodup_allValueIds, Nat.sub_self]

/-- **The report on sound tables finds no fault.** -/
theorem Sound.integrityReport_eq (h : t.Sound) :
    t.integrityReport = ⟨t.edges.size, ⟨0, 0, 0, 0⟩⟩ := by
  simp [integrityReport, presenceReport, orphanReport, duplicateReport, IntegrityReport.merge,
    IntegrityReport.empty, sumOverKinds, ValueKind.all, h.missingValues_eq_zero,
    h.mismatchedValues_eq_zero, h.orphanValues_eq_zero, h.duplicateValues_eq_zero]

end Tables

end FactGraph
