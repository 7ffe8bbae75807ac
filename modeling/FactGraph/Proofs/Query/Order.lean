import Mathlib.Data.List.Perm.Subperm
import Mathlib.Data.Prod.Lex
import FactGraph.Proofs.Outcome
import FactGraph.Proofs.Query.Marks
import FactGraph.Proofs.Query.Places
import FactGraph.Proofs.Text.Order

/-!
# Rows in order

**Observations come in the order of their keys, and a limit keeps the first of them**
(`Plan.query_inOrder`). The key of a row is the subject of its observation, the time where the query
joins it, and the id. Cells have their place in a linear order of triples: the class, the value of a
number, and the bytes of a text (`Cell.place`), and the comparison that queries sort by is the one
of these places (`Cell.compares_compareRows`).

Rows with the same key can change places, so a limit is told by keys: those of the limited query are
the first ones of the query without it, and its rows are some of the others.
-/

namespace FactGraph

/-! ## Comparisons one after the other -/

theorem compares_then_toLex {α β : Type} [Preorder α] [Preorder β] {first second : Ordering}
    {a a' : α} {b b' : β} (ha : first.Compares a a') (hb : a = a' → second.Compares b b') :
    (first.then second).Compares (toLex (a, b)) (toLex (a', b')) := by
  cases first with
  | lt => exact Prod.Lex.toLex_lt_toLex.2 (.inl ha)
  | gt => exact Prod.Lex.toLex_lt_toLex.2 (.inl ha)
  | eq =>
    obtain rfl : a = a' := ha
    have hsecond := hb rfl
    cases second with
    | lt => exact Prod.Lex.toLex_lt_toLex.2 (.inr ⟨rfl, hsecond⟩)
    | gt => exact Prod.Lex.toLex_lt_toLex.2 (.inr ⟨rfl, hsecond⟩)
    | eq => exact congrArg (fun b => toLex (a, b)) hsecond

theorem compares_then_cons {α : Type} [LinearOrder α] {first second : Ordering} {a a' : α}
    {as as' : List α} (ha : first.Compares a a') (has : second.Compares as as') :
    (first.then second).Compares (a :: as) (a' :: as') := by
  cases first with
  | lt => exact List.cons_lt_cons_iff.2 (.inl ha)
  | gt => exact List.cons_lt_cons_iff.2 (.inl ha)
  | eq =>
    obtain rfl : a = a' := ha
    cases second with
    | lt => exact List.cons_lt_cons_iff.2 (.inr ⟨rfl, has⟩)
    | gt => exact List.cons_lt_cons_iff.2 (.inr ⟨rfl, has⟩)
    | eq => exact congrArg (a :: ·) has

/-! ## The place of a cell -/

namespace Cell

/-- What texts and bytes are sorted by; other cells have none of it. -/
def content (encoding : TextEncoding) : Cell → List ℕ
  | text t => encoding.sortKey t
  | bytes bs => bs.map UInt8.toNat
  | _ => []

/-- The place of a cell: the class decides first, then the value of a number, then the content. -/
def place (encoding : TextEncoding) (c : Cell) : ℕ ×ₗ ℤ ×ₗ List ℕ :=
  toLex (c.rank, toLex (c.units, c.content encoding))

theorem map_toNat_lt_iff {s t : List UInt8} : s.map UInt8.toNat < t.map UInt8.toNat ↔ s < t := by
  induction s generalizing t with
  | nil => cases t <;> simp
  | cons a s ih =>
    cases t with
    | nil => simp
    | cons b t =>
      rw [List.map_cons, List.map_cons, List.cons_lt_cons_iff, List.cons_lt_cons_iff, ih,
        UInt8.toNat_inj, UInt8.lt_iff_toNat_lt]

theorem compares_bytes (s t : List UInt8) :
    (compareOfLessAndEq s t).Compares (s.map UInt8.toNat) (t.map UInt8.toNat) := by
  rcases lt_trichotomy (s.map UInt8.toNat) (t.map UInt8.toNat) with h | h | h
  · rw [compareOfLessAndEq, if_pos (map_toNat_lt_iff.1 h)]
    exact h
  · have hsame : s = t := List.map_injective_iff.2 (fun _ _ => UInt8.toNat_inj.1) h
    rw [compareOfLessAndEq, if_neg (mt map_toNat_lt_iff.2 (by rw [h]; exact lt_irrefl _)),
      if_pos hsame]
    exact h
  · rw [compareOfLessAndEq, if_neg (mt map_toNat_lt_iff.2 (lt_asymm h)),
      if_neg fun hsame => ne_of_lt h (by rw [hsame])]
    exact h

/-- **Cells are compared by their places.** -/
theorem compares_compare (encoding : TextEncoding) (a b : Cell) :
    (compare encoding a b).Compares (a.place encoding) (b.place encoding) := by
  have hrank : (Ord.compare a.rank b.rank).Compares a.rank b.rank := (compare_iff _ _).1 rfl
  have hunits : (Ord.compare a.units b.units).Compares a.units b.units := (compare_iff _ _).1 rfl
  refine compares_then_toLex hrank fun hclass => compares_then_toLex hunits fun _ => ?_
  cases a <;> cases b
  case text.text s t _ => exact encoding.compares_compare s t
  case bytes.bytes s t _ => exact compares_bytes s t
  all_goals first | exact rfl | exact nomatch hclass

theorem compares_compareRows (encoding : TextEncoding) (as bs : List Cell) :
    (compareRows encoding as bs).Compares (as.map (place encoding)) (bs.map (place encoding)) := by
  induction as generalizing bs with
  | nil =>
    cases bs with
    | nil => exact rfl
    | cons b bs => exact List.nil_lt_cons ..
  | cons a as ih =>
    cases bs with
    | nil => exact List.nil_lt_cons ..
    | cons b bs => exact compares_then_cons (compares_compare encoding a b) (ih bs)

/-- Keys in order: the first cells that differ decide by their places. -/
def KeysInOrder (encoding : TextEncoding) (a b : List Cell) : Prop :=
  a.map (place encoding) ≤ b.map (place encoding)

theorem isLE_compareRows_iff {encoding : TextEncoding} {a b : List Cell} :
    (compareRows encoding a b).isLE = true ↔ KeysInOrder encoding a b := by
  rw [Ordering.isLE_iff_ne_gt]
  exact (compares_compareRows encoding a b).ne_gt

end Cell

namespace Plan

variable {plan : Plan} {db : Database} {t : Tables} {property dataset : String}
  {qualifiers : List Qualifier} {columns : List String} {places : PlaceFilter}
  {limit unlimited : Int64} {e : Edge} {env : Environment} {rows : List (List Cell)}

/-! ## Limits -/

/-- The plan without its limit. -/
def lifted (plan : Plan) : Plan := { plan with limit := none }

theorem selected_eq_take (plan : Plan) (t : Tables) :
    plan.selected t =
      (plan.lifted.selected t).take (plan.limit.getD (plan.lifted.selected t).length) := by
  unfold selected
  cases plan.limit with
  | some n => rfl
  | none => exact List.take_length.symm

theorem map_selected_eq_take {α : Type} (f : Environment → α) (plan : Plan) (t : Tables) :
    let all := (plan.lifted.selected t).map f
    (plan.selected t).map f = all.take (plan.limit.getD all.length) := by
  intro all
  rw [selected_eq_take, List.map_take, List.length_map]

theorem render_lifted (plan : Plan) :
    plan.toSql.render = plan.lifted.toSql.render ++ SqlSelect.limitText plan.toSql := by
  have hnone : SqlSelect.limitText plan.lifted.toSql = .empty := rfl
  rw [SqlSelect.render, SqlSelect.render, hnone, SqlText.append_empty]
  rfl

theorem fits_lifted (h : plan.fits = true) : plan.lifted.fits = true := by
  simp only [fits, Bool.and_eq_true, decide_eq_true_eq] at h ⊢
  rw [render_lifted, SqlText.params_append, List.length_append] at h
  exact ⟨h.1, by omega⟩

theorem query_lifted (h : db.query plan = .ok rows) :
    db.query plan.lifted = .ok (plan.lifted.rows db.tables) := by
  obtain ⟨⟨⟩, hedges, h⟩ := exists_of_bind_eq_ok h
  obtain ⟨⟨⟩, hjoins, h⟩ := exists_of_bind_eq_ok h
  by_cases hanswered : (plan.wellScoped && plan.fits) = true
  · obtain ⟨hscoped, hfits⟩ := Bool.and_eq_true_iff.1 hanswered
    have hscopedLifted : plan.lifted.wellScoped = true := hscoped
    have hjoinsLifted : (plan.lifted.joins.forM fun j => db.require j.table) = .ok () := hjoins
    rw [Database.query, hedges, hjoinsLifted, hscopedLifted, fits_lifted hfits]
    rfl
  · rw [if_neg hanswered] at h
    cases h

theorem pairwise_selected (plan : Plan) (t : Tables) :
    (plan.selected t).Pairwise fun a b =>
      Cell.KeysInOrder t.encoding (plan.sortKey a) (plan.sortKey b) := by
  have hordered : (plan.lifted.selected t).Pairwise fun a b =>
      Cell.KeysInOrder t.encoding (plan.sortKey a) (plan.sortKey b) := by
    let le a b := (Cell.compareRows t.encoding (plan.sortKey a) (plan.sortKey b)).isLE
    have htrans a b c (hab : le a b = true) (hbc : le b c = true) : le a c = true :=
      Cell.isLE_compareRows_iff.2
        (le_trans (Cell.isLE_compareRows_iff.1 hab) (Cell.isLE_compareRows_iff.1 hbc))
    have htotal a b : (le a b || le b a) = true := by
      rw [Bool.or_eq_true, Cell.isLE_compareRows_iff, Cell.isLE_compareRows_iff]
      exact le_total _ _
    have hsorted : ((environments plan t).mergeSort le).Pairwise fun a b => le a b = true :=
      List.pairwise_mergeSort htrans htotal _
    exact hsorted.imp Cell.isLE_compareRows_iff.1
  rw [selected_eq_take]
  exact hordered.sublist (List.take_sublist ..)

/-! ## Keys -/

/-- The time that rows are ordered by, if the query joins it. -/
def timeKey (qualifiers : List Qualifier) (plan : Plan) (env : Environment) : List Cell :=
  match qualifiers.find? (·.name = Qualifier.timeName) with
  | some time => if plan.hasFragment time.name then [time.valueExpr.eval env] else []
  | none => []

/-- What the rows of an observation are ordered by: its subject, the time and its id. -/
def observationKey (qualifiers : List Qualifier) (plan : Plan) (e : Edge) (env : Environment) :
    List Cell :=
  .text e.node1 :: timeKey qualifiers plan env ++ [.text e.id]

/-- The rows of an edge with their keys. -/
def keyedRowsOf (qualifiers : List Qualifier) (plan : Plan) (t : Tables) (e : Edge) :
    List (List Cell × List Cell) :=
  (plan.environmentsOf t e).map fun env => (observationKey qualifiers plan e env, plan.rowOf env)

/-- The keys are in order. -/
def InOrder (encoding : TextEncoding) (keyed : List (List Cell × List Cell)) : Prop :=
  keyed.Pairwise fun a b => Cell.KeysInOrder encoding a.1 b.1

theorem map_eval_timeOrder :
    (timeOrder qualifiers ((needs qualifiers columns places).map Need.owner)).map (·.eval env) =
      timeKey qualifiers (assembled property dataset qualifiers columns places limit) env := by
  have hfragment (owner : String) :
      (assembled property dataset qualifiers columns places limit).hasFragment owner =
        decide (owner ∈ (needs qualifiers columns places).map Need.owner) :=
    hasFragment_withParts (assembled property dataset qualifiers columns places limit) _ owner
  unfold timeOrder timeKey
  simp only [hfragment, decide_eq_true_eq]
  cases qualifiers.find? (·.name = Qualifier.timeName) with
  | none => rfl
  | some time =>
    show List.map _ (if _ then _ else _) = if _ then _ else _
    split <;> rfl

/-- **Rows are ordered by the subject, the time and the id of their observation.** -/
theorem sortKey_assembled
    (henv : env ∈
      (assembled property dataset qualifiers columns places limit).environmentsOf t e) :
    (assembled property dataset qualifiers columns places limit).sortKey env =
      observationKey qualifiers (assembled property dataset qualifiers columns places limit)
        e env := by
  have hlookup := lookup_observation (List.mem_of_mem_filter henv)
  have hcell (column : Column) : env.cell ⟨.observation, column⟩ = Record.edgeCell e column := by
    rw [Environment.cell, hlookup]
    rfl
  rw [observationKey, ← map_eval_timeOrder]
  simp [sortKey, assembled, Expr.eval, hcell, Record.edgeCell]

theorem map_environments_assembled :
    let plan := assembled property dataset qualifiers columns places limit
    (environments plan t).map (fun env => (plan.sortKey env, plan.rowOf env)) =
      t.edgeList.flatMap (keyedRowsOf qualifiers plan t) := by
  intro plan
  rw [environments_eq, List.map_flatMap]
  refine List.flatMap_congr fun e _ => List.map_congr_left fun env henv => ?_
  rw [sortKey_assembled henv]

theorem assembled_lifted (hunlimited : unlimited.toInt ≤ 0) :
    assembled property dataset qualifiers columns places unlimited =
      (assembled property dataset qualifiers columns places limit).lifted := by
  simp [assembled, lifted, Int.not_lt.2 hunlimited]

/-- **Observations come in the order of their keys, and a limit keeps the first of them.** The query
without the limit has all rows of the edges, in order. The limited one has as many of them as the
limit and they allow, in order, and with the first of the keys. -/
theorem query_inOrder
    (hplan : ofRequest property dataset qualifiers columns places limit = .ok plan)
    (hrows : db.query plan = .ok rows) (hunlimited : unlimited.toInt ≤ 0) :
    let t := db.tables
    ∃ (whole : Plan) (keyed all : List (List Cell × List Cell)),
      ofRequest property dataset qualifiers columns places unlimited = .ok whole ∧
      db.query whole = .ok (all.map (·.2)) ∧
      all.Perm (t.edges.rows.flatMap (keyedRowsOf qualifiers whole t)) ∧
      InOrder t.encoding all ∧
      rows = keyed.map (·.2) ∧ keyed.Subperm all ∧ InOrder t.encoding keyed ∧
      rows.length =
        (if 0 < limit.toInt then min limit.toInt.toNat all.length else all.length) ∧
      keyed.map (·.1) = (all.map (·.1)).take rows.length := by
  intro t
  obtain ⟨hcheck, rfl⟩ := (ofRequest_eq_ok_iff qualifiers).1 hplan
  let plan := assembled property dataset qualifiers columns places limit
  let keyedRow := fun env => (plan.sortKey env, plan.rowOf env)
  obtain ⟨-, rfl⟩ := Database.of_query_eq_ok hrows
  have hlifted : assembled property dataset qualifiers columns places unlimited = plan.lifted :=
    assembled_lifted hunlimited
  have htake := map_selected_eq_take keyedRow plan t
  have hlength : (plan.rows t).length =
      min (plan.limit.getD ((plan.lifted.selected t).map keyedRow).length)
        ((plan.lifted.selected t).map keyedRow).length := by
    rw [rows, List.length_map, ← List.length_map keyedRow, htake, List.length_take]
  have hcount : plan.limit = if 0 < limit.toInt then some limit.toInt.toNat else none := rfl
  refine ⟨_, (plan.selected t).map keyedRow, (plan.lifted.selected t).map keyedRow,
    (ofRequest_eq_ok_iff qualifiers).2 ⟨hcheck, rfl⟩, ?_, ?_, ?_, ?_, ?_, ?_, ?_, ?_⟩
  · rw [hlifted, query_lifted hrows, List.map_map]
    rfl
  · have hperm := ((selected_perm plan.lifted t rfl).map keyedRow).trans
      (.of_eq map_environments_assembled)
    rw [hlifted]
    exact hperm.trans (t.edgeList_perm.flatMap_right _)
  · exact List.pairwise_map.2 (pairwise_selected plan.lifted t)
  · rw [List.map_map]
    rfl
  · rw [htake]
    exact (List.take_sublist ..).subperm
  · exact List.pairwise_map.2 (pairwise_selected plan t)
  · rw [hlength, hcount]
    by_cases hlimit : 0 < limit.toInt
    · rw [if_pos hlimit, if_pos hlimit, Option.getD_some]
    · rw [if_neg hlimit, if_neg hlimit, Option.getD_none, Nat.min_self]
  · rw [hlength, ← List.map_take, htake]
    exact congrArg _ List.take_eq_take_min

/-- Two observations, of which the second stored has the smaller subject. -/
theorem query_inOrder_two :
    let db := sampleDatabase [⟨"e1", "Q2", "P10", "5", .quantity⟩,
      ⟨"e1-dataset", "e1", Vocabulary.dataset, "Q99", .symbol⟩,
      ⟨"e2", "Q1", "P10", "5", .quantity⟩,
      ⟨"e2-dataset", "e2", Vocabulary.dataset, "Q99", .symbol⟩]
    ∃ (plan whole : Plan) (rows : List (List Cell)) (keyed all : List (List Cell × List Cell)),
      ofRequest "P10" "Q99" [] ["value"] .everywhere 1 = .ok plan ∧ db.query plan = .ok rows ∧
      ofRequest "P10" "Q99" [] ["value"] .everywhere 0 = .ok whole ∧
      db.query whole = .ok (all.map (·.2)) ∧ all.length = 2 ∧ InOrder db.tables.encoding all ∧
      rows = keyed.map (·.2) ∧ rows.length = 1 ∧ keyed.map (·.1) = (all.map (·.1)).take 1 := by
  intro db
  let plan := assembled "P10" "Q99" [] ["value"] .everywhere 1
  have hplan : ofRequest "P10" "Q99" [] ["value"] .everywhere 1 = .ok plan :=
    (ofRequest_eq_ok_iff _).2 ⟨by decide +kernel, rfl⟩
  have hrows : db.query plan = .ok (plan.rows db.tables) :=
    query_sampleDatabase (by decide +kernel) (by decide +kernel)
  have hunlimited : (0 : Int64).toInt ≤ 0 := by decide
  obtain ⟨whole, keyed, all, hwhole, hall, hperm, horder, hkeyed, -, -, hlength, hkeys⟩ :=
    query_inOrder hplan hrows hunlimited
  have htwo : all.length = 2 := by
    obtain ⟨-, rfl⟩ := (ofRequest_eq_ok_iff _).1 hwhole
    rw [hperm.length_eq]
    decide +kernel
  have hone : (plan.rows db.tables).length = 1 := by
    rw [hlength, htwo]
    decide
  rw [hone] at hkeys
  exact ⟨plan, whole, _, keyed, all, hplan, hrows, hwhole, hall, htwo, horder, hkeyed, hone, hkeys⟩

end Plan

end FactGraph
