import FactGraph.Proofs.Row.Columns
import FactGraph.Proofs.Row.TabFile

/-!
# Exploded files read back

An exploded file has no quotes and escapes nothing. Rows without tabs and ends of lines are read as
they were written, but for columns with an empty text (`readExploded_written`). A text with a tab or
an end of a line ends its field early: what is read of its row has the text before the first of them
(`exists_row_of_broken`).
-/

namespace FactGraph

/-- The row without its empty columns. -/
def ExplodedRow.filled (row : ExplodedRow) : ExplodedRow :=
  { row with fields := .ofFn row.field? }

@[simp] theorem ExplodedRow.field?_filled (row : ExplodedRow) (field : Field) :
    row.filled.field? field = row.field? field := by
  rw [field?, filled, Fields.get?_ofFn, field?, Option.filter_filter]
  simp

theorem ExplodedRow.Holds.filled {row : ExplodedRow} {v : Value} (h : row.Holds v) :
    row.filled.Holds v := by
  intro field
  rw [field?_filled, h field]

namespace TabFile

/-! ## Columns of exploded files -/

/-- The typed columns stand after the five others. -/
def fieldIndex (field : Field) : Nat := 5 + Field.all.idxOf field

theorem fieldCell_explodedColumns (texts : List String) (field : Field) :
    fieldCell explodedColumns texts field =
      (some (cell texts (fieldIndex field))).filter (!·.isEmpty) := by
  have hcolumn : explodedColumns.zipIdx.filter (·.1 = fieldColumn field) =
      [(fieldColumn field, fieldIndex field)] := by
    cases field <;> rfl
  rw [fieldCell, hcolumn]
  cases hempty : (cell texts (fieldIndex field)).isEmpty <;> simp [Option.filter, hempty]

/-- The row that is read from the texts of a line. -/
def explodedRow (texts : List String) : ExplodedRow :=
  ⟨cell texts 0, cell texts 1, cell texts 2, cell texts 3, cell texts 4,
    .ofFn (fieldCell explodedColumns texts)⟩

theorem readExploded_of_header {bs : List UInt8} (h : header bs = .ok explodedColumns) :
    readExploded bs = (rows bs).map (List.map explodedRow) := by
  have hid : column explodedColumns "id" = .ok 0 := rfl
  have hnode1 : column explodedColumns "node1" = .ok 1 := rfl
  have hlabel : column explodedColumns "label" = .ok 2 := rfl
  have hnode2 : explodedColumns.idxOf? "node2" = some 3 := rfl
  have htag : column explodedColumns tagColumn = .ok 4 := rfl
  rw [readExploded, h]
  simp only [bind, Except.bind, hid, hnode1, hlabel, hnode2, htag]
  cases rows bs <;> rfl

theorem cell_explodedFields (row : ExplodedRow) (field : Field) :
    cell (explodedFields row) (fieldIndex field) = (row.fields.get? field).getD "" := by
  cases field <;> rfl

theorem explodedRow_explodedFields (row : ExplodedRow) :
    explodedRow (explodedFields row) = row.filled := by
  have hfields : fieldCell explodedColumns (explodedFields row) = row.field? := by
    funext field
    rw [fieldCell_explodedColumns, cell_explodedFields, ExplodedRow.field?]
    cases row.fields.get? field <;> rfl
  rw [explodedRow, hfields]
  rfl

theorem writeExploded_eq (rows : List ExplodedRow) :
    writeExploded rows =
      String.join ((explodedColumns :: rows.map explodedFields).map renderRow) := by
  rw [writeExploded, List.map_cons, List.map_map]
  rfl

theorem fits_explodedColumns : Fits explodedColumns := by
  refine ⟨by decide, ?_⟩
  decide

/-- The header does not look like a byte order mark. -/
theorem head?_explodedColumns : (Text.bytes (renderRow explodedColumns)).head? ≠ some 0xEF := by
  decide

theorem fits_explodedFields {row : ExplodedRow}
    (h : ∀ text ∈ explodedFields row, Text.IsInline text) :
    Fits (explodedFields row) :=
  ⟨by simp [explodedFields], h⟩

/-- **Rows without breaks are read as they were written**, but for empty columns. -/
theorem readExploded_written (rows : List ExplodedRow)
    (h : ∀ row ∈ rows, ∀ text ∈ explodedFields row, Text.IsInline text) :
    readExploded (Text.bytes (writeExploded rows)) = .ok (rows.map ExplodedRow.filled) := by
  have hfits : ∀ texts ∈ explodedColumns :: rows.map explodedFields, Fits texts :=
    fits_of_mem_file fits_explodedColumns fun row hrow => fits_explodedFields (h row hrow)
  have hread := rows_rendered hfits head?_explodedColumns
  rw [← writeExploded_eq] at hread
  rw [readExploded_of_header hread.1, hread.2]
  show Except.ok _ = _
  rw [List.map_map]
  exact congrArg Except.ok (List.map_congr_left fun row _ => explodedRow_explodedFields row)

/-! ## Broken texts -/

/-- The columns of a text that stand before it. -/
def textFront (e : Edge) : List String :=
  [e.id, e.node1, e.label, e.node2, e.kind.tag] ++ List.replicate 8 ""

theorem exists_explodedFields_of_string {s : Statement} {text : String} {language : Option String}
    (h : s.value = .string text language) :
    ∃ back, explodedFields s.toExploded = textFront s.edge ++ text :: back := by
  have hcell (field : Field) : s.toExploded.fields.get? field =
      Statement.fieldOf (.string text language) field := by
    rw [Statement.toExploded, Fields.get?_ofFn, h]
  refine ⟨[.language, .languageSuffix, .latitude, .longitude, .symbol].map fun field =>
    (Statement.fieldOf (.string text language) field).getD "", ?_⟩
  simp only [explodedFields, hcell]
  cases language <;> rfl

/-- **A text with a break is cut at the break** when its row is read. -/
theorem exists_row_of_brokenText {before after : List ExplodedRow} {s : Statement} {text : String}
    {language : Option String} (hvalue : s.value = .string text language)
    (hbefore : ∀ row ∈ before, ∀ t ∈ explodedFields row, Text.IsInline t)
    (hfront : ∀ t ∈ textFront s.edge, Text.IsInline t) (htext : ¬ Text.IsInline text)
    {rows : List ExplodedRow} (h : readExploded (Text.bytes (writeExploded
      (before ++ s.toExploded :: after))) = .ok rows) :
    ∃ row clean, rows[before.length]? = some row ∧ row.tag = s.edge.kind.tag ∧
      (row.fields.get? .text).getD "" = clean ∧ clean ≠ text := by
  have hfits : ∀ texts ∈ explodedColumns :: before.map explodedFields, Fits texts :=
    fits_of_mem_file fits_explodedColumns fun row hrow => fits_explodedFields (hbefore row hrow)
  obtain ⟨back, hfields⟩ := exists_explodedFields_of_string hvalue
  obtain ⟨hheader, clean, hclean, hrows⟩ := exists_row_of_broken hfits head?_explodedColumns
    hfront (by simp [textFront]) htext back (after.map explodedFields)
  have hfile : writeExploded (before ++ s.toExploded :: after) = String.join
      ((explodedColumns :: before.map explodedFields ++ (textFront s.edge ++ text :: back) ::
        after.map explodedFields).map renderRow) := by
    rw [writeExploded_eq, List.map_append, ← hfields]
    rfl
  rw [hfile, readExploded_of_header hheader] at h
  cases htexts : TabFile.rows _ with
  | error cause => rw [htexts] at h; exact nomatch h
  | ok texts => ?_
  rw [htexts] at h
  obtain rfl := Except.ok.inj h
  obtain ⟨extra, hget⟩ := hrows texts htexts
  refine ⟨explodedRow (textFront s.edge ++ clean :: extra), clean, ?_, rfl, ?_, hclean⟩
  · rw [List.getElem?_map, List.length_map] at *
    rw [hget]
    rfl
  · have hcell : cell (textFront s.edge ++ clean :: extra) (fieldIndex .text) = clean := rfl
    rw [explodedRow, Fields.get?_ofFn, fieldCell_explodedColumns, hcell]
    by_cases hempty : clean = "" <;> simp [Option.filter, hempty]

end TabFile

end FactGraph
