import FactGraph.Proofs.Literal.Decoding
import FactGraph.Proofs.Row.DerivedId
import FactGraph.Proofs.Row.FlatFile
import Mathlib.Data.List.Forall2
import Mathlib.Data.List.TakeWhile

/-!
# What flat rows are read as

A row is accepted if its node and label are not blank and its literal is read. The statements of a
run are those of the accepted rows, one for each and in their order (`statements_explode`): all of
them, or those before the first that is rejected. Each has the id of its row or a derived one, and
the literal of its row in written form and as a value (`FlatRow.Gives`). The statements of rows from
a file can be written to a file again (`Statement.Filed`).
-/

namespace FactGraph

namespace FlatRow

/-- Node and label are not blank, and the written value is read. -/
def isAccepted (row : FlatRow) : Bool :=
  !Text.isBlankText row.node1 && !Text.isBlankText row.label && (Literal.decode row.node2).isOk

theorem isAccepted_iff {row : FlatRow} : row.isAccepted = true ↔
    Text.isBlankText row.node1 = false ∧ Text.isBlankText row.label = false ∧
      ∃ v, Literal.decode row.node2 = .ok v := by
  cases hdecode : Literal.decode row.node2 <;>
    simp [isAccepted, hdecode, Except.isOk, Except.toBool]

/-- The rows that a run reads. -/
def accepted (failFast : Bool) (rows : List FlatRow) : List FlatRow :=
  if failFast then rows.takeWhile isAccepted else rows.filter isAccepted

/-- The id is that of the row, or a derived one. -/
def IdOf (row : FlatRow) (id : String) : Prop :=
  match row.id.filter (!·.isEmpty) with
  | some given => id = given
  | none => ∃ v occurrence, Literal.decode row.node2 = .ok v ∧
      id = edgeId row.node1 row.label v.encode occurrence

/-- The statement is that of the row. -/
structure Gives (row : FlatRow) (s : Statement) : Prop where
  id : row.IdOf s.edge.id
  literal : ∃ v, Literal.decode row.node2 = .ok v ∧
    s = .ofLiteral s.edge.id row.node1 row.label v

end FlatRow

open FlatRow

variable {row : FlatRow} {s : Statement} {seen seen' : List Triple}

/-- **An accepted row gives its statement**, and a rejected one gives none. -/
theorem explodeRow_cases (seen : List Triple) (row : FlatRow) :
    (row.isAccepted = true ∧ ∃ s seen', explodeRow seen row = .ok (s, seen') ∧ row.Gives s) ∨
    (row.isAccepted = false ∧ ∃ fault, explodeRow seen row = .error fault) := by
  unfold explodeRow isAccepted
  by_cases hnode : Text.isBlankText row.node1 = true
  · exact .inr (by simp [hnode])
  by_cases hlabel : Text.isBlankText row.label = true
  · exact .inr (by simp [hnode, hlabel])
  cases hdecode : Literal.decode row.node2 with
  | error cause => exact .inr (by simp [hnode, hlabel, Except.isOk, Except.toBool])
  | ok v =>
    refine .inl ⟨by simp [hnode, hlabel, Except.isOk, Except.toBool], ?_⟩
    simp only [hnode, hlabel, Bool.false_eq_true, if_false]
    cases hid : row.id.filter (!·.isEmpty) with
    | some id =>
      refine ⟨_, _, rfl, ⟨?_, v, hdecode, rfl⟩⟩
      rw [IdOf, hid]
      rfl
    | none =>
      refine ⟨_, _, rfl, ⟨?_, v, hdecode, rfl⟩⟩
      rw [IdOf, hid]
      exact ⟨v, _, hdecode, rfl⟩

/-- **The statements of a run are those of the accepted rows.** -/
theorem statements_explodeFrom (failFast : Bool) (line : Nat) (seen : List Triple)
    (rows : List FlatRow) :
    List.Forall₂ Gives (accepted failFast rows)
      (explodeFrom failFast line seen rows).statements := by
  induction rows generalizing line seen with
  | nil => cases failFast <;> exact .nil
  | cons row rows ih =>
    rcases explodeRow_cases seen row with ⟨haccepted, s, seen', hrow, hgives⟩ |
        ⟨hrejected, fault, hrow⟩
    · have hcons : accepted failFast (row :: rows) = row :: accepted failFast rows := by
        cases failFast <;> simp [accepted, haccepted]
      rw [hcons, explodeFrom, hrow]
      exact .cons hgives (ih (line + 1) seen')
    · rw [explodeFrom, hrow]
      cases failFast with
      | true =>
        have hnone : accepted true (row :: rows) = [] := by simp [accepted, hrejected]
        rw [hnone]
        exact .nil
      | false =>
        have hskip : accepted false (row :: rows) = accepted false rows := by
          simp [accepted, hrejected]
        rw [hskip]
        exact ih (line + 1) seen

theorem statements_explode (failFast : Bool) (rows : List FlatRow) :
    List.Forall₂ Gives (accepted failFast rows) (explode failFast rows).statements :=
  statements_explodeFrom failFast 2 [] rows

theorem of_mem_accepted {failFast : Bool} {rows : List FlatRow}
    (h : row ∈ accepted failFast rows) : row ∈ rows ∧ row.isAccepted = true := by
  cases failFast with
  | true =>
    exact ⟨(List.takeWhile_sublist _).subset h, List.all_eq_true.1 List.all_takeWhile row h⟩
  | false => exact List.mem_filter.1 h

theorem exists_gives_of_mem_statements {failFast : Bool} {rows : List FlatRow}
    (h : s ∈ (explode failFast rows).statements) :
    ∃ row ∈ rows, row.isAccepted = true ∧ row.Gives s := by
  have hgives := statements_explode failFast rows
  obtain ⟨i, hi, rfl⟩ := List.mem_iff_getElem.1 h
  have hrow : i < (accepted failFast rows).length := hgives.length_eq ▸ hi
  obtain ⟨hmem, haccepted⟩ := of_mem_accepted (List.getElem_mem hrow)
  exact ⟨_, hmem, haccepted, hgives.get hrow hi⟩

/-- **Nothing is rejected if every row is accepted.** -/
theorem errors_explodeFrom {failFast : Bool} {line : Nat} {seen : List Triple}
    {rows : List FlatRow} (h : ∀ row ∈ rows, row.isAccepted = true) :
    (explodeFrom failFast line seen rows).errors = [] := by
  induction rows generalizing line seen with
  | nil => rfl
  | cons row rows ih =>
    rcases explodeRow_cases seen row with ⟨-, s, seen', hrow, -⟩ | ⟨hrejected, -⟩
    · rw [explodeFrom, hrow]
      exact ih fun other hother => h other (.tail _ hother)
    · rw [h row List.mem_cons_self] at hrejected
      exact nomatch hrejected

theorem accepted_eq_self {failFast : Bool} {rows : List FlatRow}
    (h : ∀ row ∈ rows, row.isAccepted = true) : accepted failFast rows = rows := by
  cases failFast with
  | true => exact List.takeWhile_eq_self_iff.2 h
  | false => exact List.filter_eq_self.2 h

/-! ## Statements of files -/

/-- The statement is one that comes from a flat file: it is that of a literal that was read from a
text without breaks, and its id, node and label have none. -/
structure Statement.Filed (s : Statement) : Prop where
  id : Text.IsInline s.edge.id
  node1 : Text.IsInline s.edge.node1
  label : Text.IsInline s.edge.label
  literal : ∃ text v, Text.IsInline text ∧ Literal.decode text = .ok v ∧
    s = .ofLiteral s.edge.id s.edge.node1 s.edge.label v

/-- **A row of a file gives a statement of a file.** -/
theorem FlatRow.Gives.filed (h : row.Gives s) (hfits : row.Fits) : s.Filed := by
  obtain ⟨v, hdecode, hs⟩ := h.literal
  have hfields : Text.IsInline (row.id.getD "") ∧ Text.IsInline row.node1 ∧
      Text.IsInline row.label ∧ Text.IsInline row.node2 := by
    simpa [TabFile.flatFields] using hfits.isInline
  obtain ⟨hid, hnode1, hlabel, hnode2⟩ := hfields
  have hedge : s.edge.node1 = row.node1 ∧ s.edge.label = row.label := by
    rw [hs]
    exact ⟨rfl, rfl⟩
  refine ⟨?_, hedge.1 ▸ hnode1, hedge.2 ▸ hlabel, row.node2, v, hnode2, hdecode, by
    rw [hedge.1, hedge.2]; exact hs⟩
  have hidOf := h.id
  unfold IdOf at hidOf
  split at hidOf
  next id hgiven =>
    obtain ⟨hrow, -⟩ := Option.filter_eq_some_iff.1 hgiven
    rw [hrow] at hid
    exact hidOf ▸ hid
  next =>
    obtain ⟨w, occurrence, -, hderived⟩ := hidOf
    exact hderived ▸ isInline_edgeId hnode1 hlabel _ _

namespace Statement

/-- The statement is that of a well-formed literal. -/
structure IsOf (s : Statement) (v : Literal) : Prop where
  wellFormed : v.WellFormed
  eq : s = .ofLiteral s.edge.id s.edge.node1 s.edge.label v
  isInline : ∀ t, v = .symbol t → Text.IsInline t

variable {v : Literal}

theorem IsOf.value (h : s.IsOf v) : s.value = .ofLiteral v := by
  rw [h.eq]
  rfl

theorem IsOf.kind (h : s.IsOf v) : s.edge.kind = v.kind := by
  rw [h.eq]
  rfl

theorem IsOf.node2 (h : s.IsOf v) : s.edge.node2 = v.encode := by
  rw [h.eq]
  rfl

theorem IsOf.isInline_node2 (h : s.IsOf v) : Text.IsInline s.edge.node2 :=
  h.node2 ▸ Literal.isInline_encode h.wellFormed h.isInline

theorem isFinite_toLiteral (v : Literal) : (Value.ofLiteral v).toLiteral.isFinite = v.isFinite := by
  cases v <;> rfl

theorem Filed.exists_isOf (h : s.Filed) (hfinite : s.value.toLiteral.isFinite = true) :
    ∃ v, s.IsOf v := by
  obtain ⟨text, v, htext, hdecode, hs⟩ := h.literal
  rw [hs] at hfinite
  refine ⟨v, (Literal.formed_of_decode hdecode).1.wellFormed_iff.2 (isFinite_toLiteral v ▸ hfinite),
    hs, fun t ht => ?_⟩
  subst ht
  obtain ⟨c, -, -, hsymbol⟩ := Literal.decode_cases hdecode
  obtain rfl : t = text := hsymbol
  exact htext

end Statement

end FactGraph
