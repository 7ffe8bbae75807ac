import FactGraph.Proofs.Row.Account

/-!
# Lines of errors

The lines of a file end at `\n`, `\r` or `\r\n` (`TabFile.lines`), and the records are the lines
that are not empty (`fields_records`). An error tells its line as if every record stood on the line
after the one before it. Where a row stands is told by the file (`StandsOn`): that many lines that
are not empty stand before it, and any number of empty ones.

So **the line of an error is the number of the line on which the rejected row stands, less the empty
lines before it** (`line_of_error`): it is right exactly if no line before the row is empty. A blank
line after the header is enough to make it wrong (`line_of_error_blank`).
-/

namespace FactGraph.TabFile

/-! ## Lines -/

/-- The lines of a text, without their ends. What follows the last end is a line of its own. -/
def lines : List UInt8 → List (List UInt8)
  | [] => [[]]
  | 13 :: 10 :: rest => [] :: lines rest
  | b :: rest => if endsLine b then [] :: lines rest else (lines rest).modifyHead (b :: ·)

/-- The bytes after the byte order mark. -/
def unmarked : List UInt8 → List UInt8
  | 0xEF :: 0xBB :: 0xBF :: rest => rest
  | bytes => bytes

theorem modifyHead_nil_append (ls : List (List UInt8)) : ls.modifyHead ([].reverse ++ ·) = ls := by
  cases ls <;> rfl

theorem modifyHead_append_cons (front : List UInt8) (ls : List (List UInt8)) :
    ([] :: ls).modifyHead (front ++ ·) = [front] ++ ls := by
  simp

theorem map_fields_recordsFrom_end (start here : Position) (seen : List UInt8) {b : UInt8}
    (rest : List UInt8) (hb : endsLine b = true) :
    ∃ next, (recordsFrom start here seen (b :: rest)).map Record.fields =
      ([seen.reverse].filter (!·.isEmpty)).map (List.splitOn tab) ++
        (recordsFrom next (advance here b) [] rest).map Record.fields := by
  cases seen with
  | nil => exact ⟨start, by simp [recordsFrom, hb]⟩
  | cons x seen => exact ⟨advance here b, by simp [recordsFrom, hb]⟩

/-- **The records are the lines that are not empty**, split at their tabs. -/
theorem map_fields_recordsFrom (start here : Position) (seen bs : List UInt8) :
    (recordsFrom start here seen bs).map Record.fields =
      (((lines bs).modifyHead (seen.reverse ++ ·)).filter (!·.isEmpty)).map
        (List.splitOn tab) := by
  -- By the lines. Two bytes that end one line are two records, of which the second is empty and
  -- left out.
  fun_induction lines bs generalizing start here seen with
  | case1 => cases seen <;> simp [recordsFrom]
  | case2 rest ih =>
    obtain ⟨next, hnext⟩ := map_fields_recordsFrom_end start here seen (b := 13) (10 :: rest) rfl
    obtain ⟨after, hafter⟩ :=
      map_fields_recordsFrom_end next (advance here 13) [] (b := 10) rest rfl
    rw [hnext, hafter, ih, modifyHead_nil_append, modifyHead_append_cons,
      List.filter_append, List.map_append]
    rfl
  | case3 b rest _ hb ih =>
    obtain ⟨next, hnext⟩ := map_fields_recordsFrom_end start here seen rest hb
    rw [hnext, ih, modifyHead_nil_append, modifyHead_append_cons,
      List.filter_append, List.map_append]
  | case4 b rest _ hb ih =>
    rw [recordsFrom, if_neg hb, ih, List.modifyHead_modifyHead]
    simp only [List.reverse_cons, List.append_assoc, List.singleton_append]
    rfl

theorem records_eq (bytes : List UInt8) :
    ∃ here, records bytes = recordsFrom ⟨1, 0⟩ here [] (unmarked bytes) := by
  unfold records
  split
  next => exact ⟨_, rfl⟩
  next hmark => exact ⟨⟨1, 0⟩, by rw [unmarked]; exact hmark⟩

theorem fields_records (bytes : List UInt8) :
    (records bytes).map Record.fields =
      ((lines (unmarked bytes)).filter (!·.isEmpty)).map (List.splitOn tab) := by
  obtain ⟨here, hrecords⟩ := records_eq bytes
  rw [hrecords, map_fields_recordsFrom, modifyHead_nil_append]

/-! ## Numbers of lines -/

/-- A member that passes a test, with the number of those before it that pass and that do not. -/
theorem exists_getElem?_of_filter {α : Type} {p : α → Bool} {xs : List α} {k : Nat} {x : α}
    (h : (xs.filter p)[k]? = some x) :
    ∃ m, xs[m]? = some x ∧ p x = true ∧ (xs.take m).countP p = k := by
  induction xs generalizing k with
  | nil => simp at h
  | cons y ys ih =>
    cases hy : p y with
    | true =>
      rw [List.filter_cons_of_pos hy] at h
      cases k with
      | zero =>
        obtain rfl : y = x := Option.some.inj h
        exact ⟨0, rfl, hy, rfl⟩
      | succ k =>
        obtain ⟨m, hget, hx, hcount⟩ := ih h
        exact ⟨m + 1, hget, hx, by rw [List.take_succ_cons, List.countP_cons_of_pos hy, hcount]⟩
    | false =>
      rw [List.filter_cons_of_neg (by simp [hy])] at h
      obtain ⟨m, hget, hx, hcount⟩ := ih h
      exact ⟨m + 1, hget, hx, by
        rw [List.take_succ_cons, List.countP_cons_of_neg (by simp [hy]), hcount]⟩

/-- Row number `i` of the file stands on line number `n`: the line is not empty and has the texts of
the row between its tabs, and the header and `i` other lines that are not empty stand before it. -/
structure StandsOn (bytes : List UInt8) (columns : List String) (i : Nat) (row : FlatRow)
    (n : Nat) : Prop where
  pos : 0 < n
  line : ∃ line texts, (lines (unmarked bytes))[n - 1]? = some line ∧ line ≠ [] ∧
    texts.map Text.bytes = line.splitOn tab ∧
    row = flatRow (columns.idxOf? "id") (columns.idxOf "node1") (columns.idxOf "label")
      (columns.idxOf "node2") texts
  before : ((lines (unmarked bytes)).take (n - 1)).countP (!·.isEmpty) = i + 1

/-- How many lines before line number `n` are empty. -/
def emptyBefore (bytes : List UInt8) (n : Nat) : Nat :=
  ((lines (unmarked bytes)).take (n - 1)).countP (·.isEmpty)

variable {bytes : List UInt8} {columns : List String} {flats : List FlatRow} {row : FlatRow}
  {i n m : Nat}

/-- The number of a line counts the lines before it. -/
theorem StandsOn.eq (h : StandsOn bytes columns i row n) : n = i + 2 + emptyBefore bytes n := by
  obtain ⟨line, texts, hline, -⟩ := h.line
  obtain ⟨hlength, -⟩ := List.getElem?_eq_some_iff.1 hline
  have htotal : _ = emptyBefore bytes n + _ := List.length_eq_countP_add_countP (·.isEmpty)
    (l := (lines (unmarked bytes)).take (n - 1))
  have hbefore := h.before
  have hpos := h.pos
  simp only [Bool.not_eq_true, Bool.decide_eq_false] at htotal
  rw [List.length_take_of_le (by omega), hbefore] at htotal
  omega

theorem idxOf_of_column {name : String} (h : column columns name = .ok i) :
    columns.idxOf name = i := by
  unfold column at h
  split at h
  next hfind =>
    obtain rfl := Except.ok.inj h
    rw [List.idxOf_eq_getD_idxOf?, hfind]
    rfl
  next => cases h

theorem exists_columns_of_readFlat (h : readFlat bytes = .ok flats) :
    ∃ columns texts, header bytes = .ok columns ∧ rows bytes = .ok texts ∧
      flats = texts.map (flatRow (columns.idxOf? "id") (columns.idxOf "node1")
        (columns.idxOf "label") (columns.idxOf "node2")) := by
  obtain ⟨columns, hheader, h⟩ := exists_of_bind_eq_ok h
  obtain ⟨node1, hnode1, h⟩ := exists_of_bind_eq_ok h
  obtain ⟨label, hlabel, h⟩ := exists_of_bind_eq_ok h
  obtain ⟨node2, hnode2, h⟩ := exists_of_bind_eq_ok h
  obtain ⟨texts, hrows, h⟩ := exists_of_bind_eq_ok h
  refine ⟨columns, texts, hheader, hrows, ?_⟩
  rw [idxOf_of_column hnode1, idxOf_of_column hlabel, idxOf_of_column hnode2]
  exact (Except.ok.inj h).symm

/-- **Each row of a file stands on a line.** -/
theorem exists_standsOn (h : readFlat bytes = .ok flats) :
    ∃ columns, header bytes = .ok columns ∧
      ∀ i row, flats[i]? = some row → ∃ n, StandsOn bytes columns i row n := by
  obtain ⟨columns, texts, hheader, hrows, rfl⟩ := exists_columns_of_readFlat h
  refine ⟨columns, hheader, fun i row hrow => ?_⟩
  rw [List.getElem?_map, Option.map_eq_some_iff] at hrow
  obtain ⟨fields, hfields, rfl⟩ := hrow
  have hrecords := decodeRecords_eq_ok_iff.1 hrows
  rw [List.map_tail, fields_records, ← List.map_tail] at hrecords
  have hget := congrArg (·[i]?) hrecords
  simp only [List.getElem?_map, List.getElem?_tail, hfields, Option.map_some] at hget
  obtain ⟨line, hline, hsplit⟩ := Option.map_eq_some_iff.1 hget.symm
  obtain ⟨m, hm, hne, hcount⟩ := exists_getElem?_of_filter hline
  exact ⟨m + 1, m.succ_pos, ⟨line, fields, hm, by simpa using hne, hsplit.symm, rfl⟩, hcount⟩

theorem StandsOn.le (hn : StandsOn bytes columns i row n) (hm : StandsOn bytes columns i row m) :
    m ≤ n := by
  by_contra hlt
  obtain ⟨line, texts, hline, hne, -⟩ := hn.line
  have hnpos := hn.pos
  have hmore : ((lines (unmarked bytes)).take (n - 1 + 1)).countP (!·.isEmpty) = i + 1 + 1 := by
    rw [List.take_add_one, hline, List.countP_append, hn.before]
    simp [hne]
  -- Up to the line further down there would be a record more.
  have hprefix : (lines (unmarked bytes)).take (n - 1 + 1) <+:
      (lines (unmarked bytes)).take (m - 1) :=
    List.take_prefix_take_left (by omega)
  have hle := hprefix.sublist.countP_le (p := (!·.isEmpty))
  rw [hmore, hm.before] at hle
  omega

theorem StandsOn.unique (hn : StandsOn bytes columns i row n)
    (hm : StandsOn bytes columns i row m) : n = m :=
  Nat.le_antisymm (hm.le hn) (hn.le hm)

/-- **The line of an error is that of the rejected row, less the empty lines before it.** It is
right exactly if there are none. -/
theorem line_of_error (h : readFlat bytes = .ok flats) {failFast : Bool} {e : RowError}
    (he : e ∈ (explode failFast flats).errors) :
    ∃ columns i row n, header bytes = .ok columns ∧ flats[i]? = some row ∧
      row.fault? = some e.fault ∧ StandsOn bytes columns i row n ∧
      e.line + emptyBefore bytes n = n ∧
      (e.line = n ↔ ∀ line ∈ (lines (unmarked bytes)).take (n - 1), line ≠ []) := by
  obtain ⟨i, row, hrow, hfault, hline⟩ := exists_row_of_mem_errors he
  obtain ⟨columns, hheader, hstands⟩ := exists_standsOn h
  obtain ⟨n, hn⟩ := hstands i row hrow
  have hnumber := hn.eq
  refine ⟨columns, i, row, n, hheader, hrow, hfault, hn, by omega, ?_⟩
  have hzero : e.line = n ↔ emptyBefore bytes n = 0 := by omega
  rw [hzero, emptyBefore, List.countP_eq_zero]
  simp

/-- In a file with ends of both kinds the second row is rejected. One line before it is empty. -/
theorem line_of_error_blank :
    let bytes := Text.bytes "node1\tlabel\tnode2\r\nQ1\tP1\tx\n\nQ1\tP1\t@x\n"
    let rows : List FlatRow := [⟨none, "Q1", "P1", "x"⟩, ⟨none, "Q1", "P1", "@x"⟩]
    readFlat bytes = .ok rows ∧
      ∃ e ∈ (explode true rows).errors, ∃ columns i row n, header bytes = .ok columns ∧
        rows[i]? = some row ∧ row.fault? = some e.fault ∧ StandsOn bytes columns i row n ∧
        e.line + emptyBefore bytes n = n ∧
        (e.line = n ↔ ∀ line ∈ (lines (unmarked bytes)).take (n - 1), line ≠ []) := by
  intro bytes rows
  have hread : readFlat bytes = .ok rows := by decide +kernel
  have herror : (explode true rows).errors = [⟨3, .node2 (.coordinate "@x")⟩] := by decide +kernel
  exact ⟨hread, _, herror ▸ List.mem_singleton_self _,
    line_of_error hread (herror ▸ List.mem_singleton_self _)⟩

/-- A row after a blank line is rejected with the line before its own. -/
theorem error_before_line :
    let bytes := Text.bytes "node1\tlabel\tnode2\n\nQ1\tP1\t@x\n"
    let row : FlatRow := ⟨none, "Q1", "P1", "@x"⟩
    readFlat bytes = .ok [row] ∧
      (explode false [row]).errors = [⟨2, .node2 (.coordinate "@x")⟩] ∧
      StandsOn bytes ["node1", "label", "node2"] 0 row 3 := by
  intro bytes row
  refine ⟨by decide +kernel, by decide +kernel, by decide, ⟨Text.bytes "Q1\tP1\t@x",
    ["Q1", "P1", "@x"], by decide +kernel, by decide +kernel, by decide +kernel,
    by decide +kernel⟩, by decide +kernel⟩

end FactGraph.TabFile
