import Mathlib.Data.List.Nodup
import Mathlib.Data.String.Basic
import Mathlib.Tactic.Tauto
import FactGraph.Store.Table

/-!
# What a table holds

A table is seen as the set of its rows, or as the set of the keys that it contains. The lemmas say
what insertion and filtering do to either view; with them no proof has to look at how the rows are
arranged.
-/

namespace FactGraph.Table

variable {α : Type} {key : α → String}

theorem rows_injective {t u : Table α key} (h : t.rows = u.rows) : t = u := by
  cases t
  cases u
  subst h
  rfl

@[simp] theorem not_mem_rows_empty (row : α) : row ∉ (empty : Table α key).rows :=
  List.not_mem_nil

/-! ## Keys -/

theorem contains_iff {t : Table α key} {k : String} :
    t.contains k = true ↔ ∃ row ∈ t.rows, key row = k := by
  simp [contains, find?, List.find?_isSome]

theorem contains_key {t : Table α key} {row : α} (h : row ∈ t.rows) :
    t.contains (key row) = true :=
  contains_iff.2 ⟨row, h, rfl⟩

/-- **Keys are distinct.** -/
theorem nodup_keys (t : Table α key) : (t.rows.map key).Nodup :=
  List.pairwise_map.2 (t.ascending.imp fun h => ne_of_lt h)

theorem nodup_rows (t : Table α key) : t.rows.Nodup := t.nodup_keys.of_map _

theorem eq_of_key_eq {t : Table α key} {a b : α} (ha : a ∈ t.rows) (hb : b ∈ t.rows)
    (h : key a = key b) : a = b :=
  List.inj_on_of_nodup_map t.nodup_keys ha hb h

/-- Tables with the same rows are equal: the keys tell their order. -/
theorem eq_of_mem_iff {t u : Table α key} (h : ∀ row, row ∈ t.rows ↔ row ∈ u.rows) : t = u := by
  have hperm : t.rows.Perm u.rows :=
    (List.perm_ext_iff_of_nodup t.nodup_rows u.nodup_rows).2 h
  refine rows_injective (hperm.eq_of_pairwise ?_ t.ascending u.ascending)
  exact fun a b _ _ hab hba => absurd hba (lt_asymm hab)

theorem find?_eq_some_iff {t : Table α key} {k : String} {row : α} :
    t.find? k = some row ↔ row ∈ t.rows ∧ key row = k := by
  constructor
  · intro h
    exact ⟨List.mem_of_find?_eq_some h, by simpa using List.find?_some h⟩
  · rintro ⟨hmem, rfl⟩
    obtain ⟨found, hfound⟩ := Option.isSome_iff_exists.1 (contains_key hmem)
    have hkey : key found = key row := by simpa using List.find?_some hfound
    rw [hfound, eq_of_key_eq (List.mem_of_find?_eq_some hfound) hmem hkey]

/-! ## Insertion -/

theorem insertRow_of_mem {row r : α} {rows : List α}
    (h : rows.Pairwise fun a b => key a < key b) (hr : r ∈ rows) (hk : key r = key row) :
    insertRow key row rows = rows := by
  induction rows with
  | nil => cases hr
  | cons a rest ih =>
    obtain ⟨head, tail⟩ := List.pairwise_cons.1 h
    rcases List.mem_cons.1 hr with rfl | hr
    · simp [insertRow, hk]
    · have hlt : key a < key row := hk ▸ head r hr
      simp [insertRow, lt_asymm hlt, hlt, ih tail hr]

theorem mem_insertRow_of_new {row x : α} {rows : List α} (h : ∀ r ∈ rows, key r ≠ key row) :
    x ∈ insertRow key row rows ↔ x = row ∨ x ∈ rows := by
  induction rows with
  | nil => simp [insertRow]
  | cons a rest ih =>
    have hne : key a ≠ key row := h a (List.mem_cons_self ..)
    have ih := ih fun r hr => h r (List.mem_cons_of_mem a hr)
    rcases lt_or_gt_of_ne hne with hlt | hlt
    · simp only [insertRow, lt_asymm hlt, hlt, if_true, if_false, List.mem_cons, ih]
      tauto
    · simp [insertRow, hlt]

/-- **The first row of a key wins**: a row whose key is there changes nothing. -/
theorem insert_of_contains {t : Table α key} {row : α} (h : t.contains (key row) = true) :
    t.insert row = t := by
  obtain ⟨r, hr, hk⟩ := contains_iff.1 h
  exact rows_injective (insertRow_of_mem t.ascending hr hk)

theorem mem_insert_of_new {t : Table α key} {row x : α} (h : t.contains (key row) = false) :
    x ∈ (t.insert row).rows ↔ x = row ∨ x ∈ t.rows := by
  refine mem_insertRow_of_new ?_
  intro r hr hk
  rw [← hk, contains_key hr] at h
  cases h

theorem contains_insert {t : Table α key} {row : α} {k : String} :
    (t.insert row).contains k = true ↔ k = key row ∨ t.contains k = true := by
  cases h : t.contains (key row) with
  | true =>
    rw [insert_of_contains h]
    exact ⟨.inr, fun hk => hk.elim (fun e => e ▸ h) id⟩
  | false =>
    simp only [contains_iff, mem_insert_of_new h]
    constructor
    · rintro ⟨r, rfl | hr, rfl⟩
      · exact .inl rfl
      · exact .inr ⟨r, hr, rfl⟩
    · rintro (rfl | ⟨r, hr, rfl⟩)
      · exact ⟨row, .inl rfl, rfl⟩
      · exact ⟨r, .inr hr, rfl⟩

theorem length_insertRow_of_new {row : α} {rows : List α} (h : ∀ r ∈ rows, key r ≠ key row) :
    (insertRow key row rows).length = rows.length + 1 := by
  induction rows with
  | nil => rfl
  | cons a rest ih =>
    have ih := ih fun r hr => h r (List.mem_cons_of_mem a hr)
    rcases lt_or_gt_of_ne (h a (List.mem_cons_self ..)) with hlt | hlt
    · simp [insertRow, lt_asymm hlt, hlt, ih]
    · simp [insertRow, hlt]

theorem length_sortedTexts {texts : List String} (h : texts.Nodup) :
    (sortedTexts texts).length = texts.length := by
  have fold (rest : List String) (t : Table String id) (hrest : rest.Nodup)
      (hnew : ∀ text ∈ rest, text ∉ t.rows) :
      (rest.foldl insert t).rows.length = t.rows.length + rest.length := by
    induction rest generalizing t with
    | nil => rfl
    | cons text rest ih =>
      obtain ⟨htext, hrest⟩ := List.nodup_cons.1 hrest
      have hfirst : text ∉ t.rows := hnew text (List.mem_cons_self ..)
      have habsent : ∀ r ∈ t.rows, id r ≠ id text := by
        rintro r hr rfl
        exact hfirst hr
      have hlen : (t.insert text).rows.length = t.rows.length + 1 := length_insertRow_of_new habsent
      rw [List.foldl_cons, ih _ hrest, hlen, List.length_cons]
      · omega
      · intro other hother hmem
        rcases (mem_insertRow_of_new habsent).1 hmem with rfl | hmem
        · exact htext hother
        · exact hnew other (List.mem_cons_of_mem text hother) hmem
  have := fold texts empty h fun _ _ => List.not_mem_nil
  simpa [sortedTexts, ofList, empty] using this

theorem mem_sortedTexts {text : String} {texts : List String} :
    text ∈ sortedTexts texts ↔ text ∈ texts := by
  have hcontains (t : Table String id) : t.contains text = true ↔ text ∈ t.rows := by
    simp [contains_iff]
  have fold (rest : List String) (t : Table String id) :
      (rest.foldl insert t).contains text = true ↔ text ∈ rest ∨ t.contains text = true := by
    induction rest generalizing t with
    | nil => simp
    | cons first rest ih => rw [List.foldl_cons, ih, contains_insert, List.mem_cons, or_left_comm,
        or_assoc, id]
  have hfold := fold texts empty
  rwa [hcontains, hcontains, or_iff_left (not_mem_rows_empty text)] at hfold

theorem pairwise_sortedTexts (texts : List String) : (sortedTexts texts).Pairwise (· < ·) :=
  (ofList texts : Table String id).ascending

/-! ## Filtering -/

@[simp] theorem rows_filter (t : Table α key) (p : α → Bool) :
    (t.filter p).rows = t.rows.filter p := rfl

theorem find?_filter {t : Table α key} {p : α → Bool} {k : String}
    (h : ∀ row ∈ t.rows, key row = k → p row = true) : (t.filter p).find? k = t.find? k := by
  ext row
  rw [find?_eq_some_iff, find?_eq_some_iff, rows_filter, List.mem_filter]
  constructor
  · exact fun ⟨⟨hrow, _⟩, hk⟩ => ⟨hrow, hk⟩
  · exact fun ⟨hrow, hk⟩ => ⟨⟨hrow, h row hrow hk⟩, hk⟩

end FactGraph.Table
