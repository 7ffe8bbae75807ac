import FactGraph.Proofs.Row.Explosion

/-!
# Every row is accounted for

Each row of a run has a verdict: a statement, or the fault for which the row is rejected. Which of
the two it is depends on the row alone (`FlatRow.fault?`). The report of a run is its verdicts told
apart, the statements and the errors each in the order of the rows (`exists_verdicts`), and an error
has the number of its row as a line.

A rejected row is given no id, so it is not counted among the triples seen, and the run goes on as
if the row had not been there (`statements_explodeFrom_filter`). A run that fails fast is the other
run up to the first rejected row (`explodeFrom_failFast`).
-/

namespace FactGraph

namespace FlatRow

/-- Why the row is rejected, if it is: the first of its columns that is at fault. -/
def fault? (row : FlatRow) : Option RowFault :=
  if Text.isBlankText row.node1 then some .node1Empty
  else if Text.isBlankText row.label then some .labelEmpty
  else match Literal.decode row.node2 with
    | .error cause => some (.node2 cause)
    | .ok _ => none

theorem isAccepted_iff_fault? {row : FlatRow} : row.isAccepted = true ↔ row.fault? = none := by
  rw [isAccepted_iff, fault?]
  cases Text.isBlankText row.node1 <;> cases Text.isBlankText row.label <;>
    cases Literal.decode row.node2 <;> simp

/-- The row has this verdict: it gives the statement, or is rejected for the fault. -/
def Judged (row : FlatRow) : Statement ⊕ RowFault → Prop
  | .inl s => row.fault? = none ∧ row.Gives s
  | .inr fault => row.fault? = some fault

end FlatRow

open FlatRow

variable {row : FlatRow} {rows : List FlatRow} {line : Nat} {seen : List Triple}

/-- The error of a verdict on the row of a line. -/
def RowError.ofVerdict? : (Statement ⊕ RowFault) × Nat → Option RowError
  | (.inr fault, line) => some ⟨line, fault⟩
  | (.inl _, _) => none

theorem explodeRow_verdict (seen : List Triple) (row : FlatRow) :
    (∃ s seen', explodeRow seen row = .ok (s, seen') ∧ row.isAccepted = true ∧
      row.Judged (.inl s)) ∨
    ∃ fault, explodeRow seen row = .error fault ∧ row.isAccepted = false ∧
      row.Judged (.inr fault) := by
  rcases explodeRow_cases seen row with ⟨haccepted, s, seen', hrow, hgives⟩ |
      ⟨hrejected, fault, hrow⟩
  · exact .inl ⟨s, seen', hrow, haccepted, isAccepted_iff_fault?.1 haccepted, hgives⟩
  · refine .inr ⟨fault, hrow, hrejected, ?_⟩
    show row.fault? = some fault
    unfold explodeRow at hrow
    unfold fault?
    split at hrow
    next hnode => rw [if_pos hnode, Except.error.inj hrow]
    next hnode =>
      rw [if_neg hnode]
      split at hrow
      next hlabel => rw [if_pos hlabel, Except.error.inj hrow]
      next hlabel =>
        rw [if_neg hlabel]
        cases hdecode : Literal.decode row.node2 with
        | error cause =>
          rw [hdecode] at hrow
          exact congrArg some (Except.error.inj hrow)
        | ok v =>
          simp only [hdecode] at hrow
          split at hrow <;> exact nomatch hrow

/-! ## One step of a run -/

section Step

variable {s : Statement} {seen' : List Triple} {fault : RowFault}

theorem explodeFrom_cons_ok {failFast : Bool} (h : explodeRow seen row = .ok (s, seen')) :
    explodeFrom failFast line seen (row :: rows) =
      ⟨s :: (explodeFrom failFast (line + 1) seen' rows).statements,
        (explodeFrom failFast (line + 1) seen' rows).errors⟩ := by
  rw [explodeFrom, h]

theorem explodeFrom_cons_error (h : explodeRow seen row = .error fault) :
    explodeFrom false line seen (row :: rows) =
      ⟨(explodeFrom false (line + 1) seen rows).statements,
        ⟨line, fault⟩ :: (explodeFrom false (line + 1) seen rows).errors⟩ := by
  rw [explodeFrom, h]
  rfl

theorem explodeFrom_cons_stop (h : explodeRow seen row = .error fault) :
    explodeFrom true line seen (row :: rows) = ⟨[], [⟨line, fault⟩]⟩ := by
  rw [explodeFrom, h]
  rfl

end Step

/-! ## Runs -/

/-- **The report of a run is its verdicts**, one for each row. -/
theorem exists_verdicts (line : Nat) (seen : List Triple) (rows : List FlatRow) :
    ∃ verdicts : List (Statement ⊕ RowFault), List.Forall₂ Judged rows verdicts ∧
      (explodeFrom false line seen rows).statements = verdicts.filterMap Sum.getLeft? ∧
      (explodeFrom false line seen rows).errors =
        (verdicts.zipIdx line).filterMap RowError.ofVerdict? := by
  -- On the rows, with any line to start from and any triples seen; the verdict on a row depends on
  -- neither.
  induction rows generalizing line seen with
  | nil => exact ⟨[], .nil, rfl, rfl⟩
  | cons row rows ih =>
    rcases explodeRow_verdict seen row with ⟨s, seen', hrow, -, hjudged⟩ |
        ⟨fault, hrow, -, hjudged⟩
    · obtain ⟨verdicts, hall, hstatements, herrors⟩ := ih (line + 1) seen'
      rw [explodeFrom_cons_ok hrow, hstatements, herrors]
      exact ⟨.inl s :: verdicts, .cons hjudged hall, rfl, rfl⟩
    · obtain ⟨verdicts, hall, hstatements, herrors⟩ := ih (line + 1) seen
      rw [explodeFrom_cons_error hrow, hstatements, herrors]
      exact ⟨.inr fault :: verdicts, .cons hjudged hall, rfl, rfl⟩

/-- **A rejected row leaves no trace**: the ids that other rows get are the same without it. -/
theorem statements_explodeFrom_filter (line line' : Nat) (seen : List Triple)
    (rows : List FlatRow) :
    (explodeFrom false line' seen (rows.filter isAccepted)).statements =
      (explodeFrom false line seen rows).statements := by
  -- On the rows. The two runs differ in their lines, which no statement has.
  induction rows generalizing line line' seen with
  | nil => rfl
  | cons row rows ih =>
    rcases explodeRow_verdict seen row with ⟨s, seen', hrow, haccepted, -⟩ |
        ⟨fault, hrow, hrejected, -⟩
    · rw [List.filter_cons_of_pos haccepted, explodeFrom_cons_ok hrow, explodeFrom_cons_ok hrow,
        ih (line + 1) (line' + 1) seen']
    · rw [List.filter_cons_of_neg (by simp [hrejected]), explodeFrom_cons_error hrow]
      exact ih (line + 1) line' seen

/-- **Failing fast stops at the first rejected row**, and what was read before is kept. -/
theorem explodeFrom_failFast (line : Nat) (seen : List Triple) (rows : List FlatRow) :
    (explodeFrom true line seen rows).errors =
        (explodeFrom false line seen rows).errors.head?.toList ∧
      (explodeFrom true line seen rows).statements =
        (explodeFrom false line seen (rows.takeWhile isAccepted)).statements ∧
      (explodeFrom true line seen rows).statements =
        (explodeFrom false line seen rows).statements.take (rows.takeWhile isAccepted).length := by
  -- On the rows: both runs agree up to the first fault, at which one of them stops.
  induction rows generalizing line seen with
  | nil => exact ⟨rfl, rfl, rfl⟩
  | cons row rows ih =>
    rcases explodeRow_verdict seen row with ⟨s, seen', hrow, haccepted, -⟩ |
        ⟨fault, hrow, hrejected, -⟩
    · obtain ⟨herrors, hrun, htake⟩ := ih (line + 1) seen'
      rw [List.takeWhile_cons_of_pos haccepted, explodeFrom_cons_ok hrow, explodeFrom_cons_ok hrow,
        explodeFrom_cons_ok hrow]
      exact ⟨herrors, congrArg (s :: ·) hrun, congrArg (s :: ·) htake⟩
    · rw [List.takeWhile_cons_of_neg (by simp [hrejected]), explodeFrom_cons_stop hrow,
        explodeFrom_cons_error hrow]
      exact ⟨rfl, rfl, rfl⟩

theorem exists_row_of_mem_errors {failFast : Bool} {rows : List FlatRow} {e : RowError}
    (h : e ∈ (explode failFast rows).errors) :
    ∃ i row, rows[i]? = some row ∧ row.fault? = some e.fault ∧ e.line = i + 2 := by
  have hmem : e ∈ (explode false rows).errors := by
    cases failFast with
    | false => exact h
    | true =>
      rw [explode, (explodeFrom_failFast 2 [] rows).1, Option.mem_toList] at h
      exact List.mem_of_head? h
  obtain ⟨verdicts, hall, -, herrors⟩ := exists_verdicts 2 [] rows
  rw [explode, herrors] at hmem
  obtain ⟨⟨verdict, line⟩, hverdict, he⟩ := List.mem_filterMap.1 hmem
  obtain ⟨hline, hget⟩ := List.mk_mem_zipIdx_iff_le_and_getElem?_sub.1 hverdict
  cases verdict with
  | inl s => exact nomatch he
  | inr fault =>
    obtain rfl := Option.some.inj he
    obtain ⟨hi, hget⟩ := List.getElem?_eq_some_iff.1 hget
    have hrow : line - 2 < rows.length := hall.length_eq ▸ hi
    have hjudged : rows[line - 2].Judged verdicts[line - 2] := hall.get hrow hi
    rw [hget] at hjudged
    exact ⟨line - 2, rows[line - 2], List.getElem?_eq_getElem hrow, hjudged,
      (Nat.sub_add_cancel hline).symm⟩

/-- **Every row is accounted for, and a rejected row leaves no trace.** Each row has one verdict,
and the statements and the errors of the run are its verdicts in the order of the rows, an error
with the number of its row plus two; the statements are those of the run without the rejected rows,
which has no errors. A run that fails fast has the first of the errors, if there is one, and the
statements of the rows before the first rejected one. -/
theorem explode_accounts (rows : List FlatRow) :
    (∃ verdicts : List (Statement ⊕ RowFault), List.Forall₂ Judged rows verdicts ∧
      (explode false rows).statements = verdicts.filterMap Sum.getLeft? ∧
      (explode false rows).errors = (verdicts.zipIdx 2).filterMap RowError.ofVerdict?) ∧
    explode false (rows.filter isAccepted) = ⟨(explode false rows).statements, []⟩ ∧
    (explode true rows).errors = (explode false rows).errors.head?.toList ∧
    (explode true rows).statements =
      (explode false rows).statements.take (rows.takeWhile isAccepted).length ∧
    explode false (rows.takeWhile isAccepted) = ⟨(explode true rows).statements, []⟩ := by
  obtain ⟨herrors, hrun, htake⟩ := explodeFrom_failFast 2 [] rows
  have hclean {rows : List FlatRow} (h : ∀ row ∈ rows, row.isAccepted = true) :
      (explode false rows).errors = [] := errors_explodeFrom h
  have hfilter := hclean fun row (hrow : row ∈ rows.filter isAccepted) => (List.mem_filter.1 hrow).2
  have hbefore := hclean fun row (hrow : row ∈ rows.takeWhile isAccepted) =>
    List.all_eq_true.1 List.all_takeWhile row hrow
  refine ⟨exists_verdicts 2 [] rows, ?_, herrors, htake, ?_⟩
  · exact congrArg₂ ExplodeReport.mk (statements_explodeFrom_filter 2 2 [] rows) hfilter
  · exact congrArg₂ ExplodeReport.mk hrun.symm hbefore

/-- A row without node between two equal ones: the ids of the second and the third differ, as they
do without it. -/
example :
    let row : FlatRow := ⟨none, "Q1", "P1", "x"⟩
    let report := explode false [row, ⟨none, "", "P1", "x"⟩, row]
    report.errors = [⟨3, .node1Empty⟩] ∧
      report.statements = (explode false [row, row]).statements := by
  decide +kernel

end FactGraph
