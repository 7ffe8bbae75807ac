import FactGraph.Proofs.Outcome
import FactGraph.Proofs.Row.TabFile

/-!
# Flat files read back

A flat file has no quotes and escapes nothing, so what it can hold is told by the texts of its rows
alone: a row fits if no text of it has a tab or an end of a line and its id is not the empty text,
which stands for no id. Empty columns, quotes, blanks and all other characters fit.

Whatever is read from a flat file fits in a flat file again (`fits_of_readFlat`), and rows that fit
are read as they were written (`readFlat_of_fits`). So **rows are read back from the file that is
written of them exactly if they fit** (`readFlat_writeFlat_iff`).
-/

namespace FactGraph

/-- The row can be written to a file: no text of it is broken, and an id that is given is not
empty. -/
structure FlatRow.Fits (row : FlatRow) : Prop where
  isInline : ∀ text ∈ TabFile.flatFields row, Text.IsInline text
  id : row.id ≠ some ""

namespace TabFile

/-- The flat row of a line, with the indices of its columns. -/
def flatRow (id : Option Nat) (node1 label node2 : Nat) (texts : List String) : FlatRow :=
  ⟨(id.map (cell texts)).filter (!·.isEmpty), cell texts node1, cell texts label, cell texts node2⟩

theorem exists_of_readFlat {bs : List UInt8} {flats : List FlatRow} (h : readFlat bs = .ok flats) :
    ∃ texts id node1 label node2, rows bs = .ok texts ∧
      flats = texts.map (flatRow id node1 label node2) := by
  obtain ⟨columns, -, h⟩ := exists_of_bind_eq_ok h
  obtain ⟨node1, -, h⟩ := exists_of_bind_eq_ok h
  obtain ⟨label, -, h⟩ := exists_of_bind_eq_ok h
  obtain ⟨node2, -, h⟩ := exists_of_bind_eq_ok h
  obtain ⟨texts, hrows, h⟩ := exists_of_bind_eq_ok h
  exact ⟨texts, columns.idxOf? "id", node1, label, node2, hrows, (Except.ok.inj h).symm⟩

theorem filter_getD_eq {text : Option String} (h : text ≠ some "") :
    (some (text.getD "")).filter (!·.isEmpty) = text := by
  cases text with
  | none => rfl
  | some t =>
    have hne : t ≠ "" := fun hempty => h (congrArg some hempty)
    simp [Option.filter, hne]

/-- **What is read fits in a file.** -/
theorem fits_of_readFlat {bs : List UInt8} {flats : List FlatRow} (h : readFlat bs = .ok flats)
    {row : FlatRow} (hrow : row ∈ flats) : row.Fits := by
  obtain ⟨texts, id, node1, label, node2, hrows, rfl⟩ := exists_of_readFlat h
  obtain ⟨fields, hfields, rfl⟩ := List.mem_map.1 hrow
  have hcell (i : Nat) : Text.IsInline (cell fields i) :=
    isInline_cell (fun text htext => isInline_of_rows hrows hfields htext) i
  refine ⟨fun text htext => ?_, by simp [flatRow, Option.filter_eq_some_iff]⟩
  simp only [flatFields, List.mem_cons, List.not_mem_nil, or_false] at htext
  rcases htext with rfl | rfl | rfl | rfl
  · cases id with
    | none => exact Text.isInline_empty
    | some i =>
      by_cases hempty : cell fields i = ""
      · simpa [flatRow, Option.filter, hempty] using Text.isInline_empty
      · simpa [flatRow, Option.filter, hempty] using hcell i
  · exact hcell node1
  · exact hcell label
  · exact hcell node2

/-! ## Columns of flat files -/

theorem readFlat_of_header {bs : List UInt8} (h : header bs = .ok flatColumns) :
    readFlat bs = (rows bs).map (List.map (flatRow (some 0) 1 2 3)) := by
  have hid : flatColumns.idxOf? "id" = some 0 := rfl
  have hnode1 : column flatColumns "node1" = .ok 1 := rfl
  have hlabel : column flatColumns "label" = .ok 2 := rfl
  have hnode2 : column flatColumns "node2" = .ok 3 := rfl
  rw [readFlat, h]
  simp only [bind, Except.bind, hid, hnode1, hlabel, hnode2]
  cases rows bs <;> rfl

theorem flatRow_flatFields {row : FlatRow} (h : row.id ≠ some "") :
    flatRow (some 0) 1 2 3 (flatFields row) = row := by
  have hid : ((some 0).map (cell (flatFields row))).filter (!·.isEmpty) = row.id :=
    filter_getD_eq h
  rw [flatRow, hid]
  rfl

theorem writeFlat_eq (flats : List FlatRow) :
    writeFlat flats = String.join ((flatColumns :: flats.map flatFields).map renderRow) := by
  rw [writeFlat, List.map_cons, List.map_map]
  rfl

theorem fits_flatColumns : Fits flatColumns :=
  ⟨by decide, by decide⟩

theorem head?_flatColumns : (Text.bytes (renderRow flatColumns)).head? ≠ some 0xEF := by
  decide +kernel

theorem fits_flatFields {row : FlatRow} (h : row.Fits) : Fits (flatFields row) :=
  ⟨by simp [flatFields], h.isInline⟩

/-! ## Rows that fit -/

/-- **Rows that fit are read as they were written.** -/
theorem readFlat_of_fits (flats : List FlatRow) (h : ∀ row ∈ flats, row.Fits) :
    readFlat (Text.bytes (writeFlat flats)) = .ok flats := by
  have hfits : ∀ texts ∈ flatColumns :: flats.map flatFields, Fits texts :=
    fits_of_mem_file fits_flatColumns fun row hrow => fits_flatFields (h row hrow)
  have hread := rows_rendered hfits head?_flatColumns
  rw [← writeFlat_eq] at hread
  rw [readFlat_of_header hread.1, hread.2]
  show Except.ok _ = _
  rw [List.map_map]
  refine congrArg Except.ok ?_
  calc flats.map (flatRow (some 0) 1 2 3 ∘ flatFields)
      = flats.map id :=
        List.map_congr_left fun row hrow => flatRow_flatFields (h row hrow).id
    _ = flats := List.map_id flats

/-- **Rows are read back exactly if they fit.** Only a tab or an end of a line in a text and an
empty id keep rows from being read as they were written, and each of these does. -/
theorem readFlat_writeFlat_iff (flats : List FlatRow) :
    readFlat (Text.bytes (writeFlat flats)) = .ok flats ↔ ∀ row ∈ flats, row.Fits := by
  constructor
  · intro hread row hrow
    exact fits_of_readFlat hread hrow
  · intro hfits
    exact readFlat_of_fits flats hfits

/-- Empty columns, quotes, blanks at both ends and characters of several bytes. -/
example :
    readFlat (Text.bytes (writeFlat
        [⟨none, "", "", ""⟩, ⟨some "\"e1", " Q1 ", "a\\b'", "\u2028α𝔸"⟩])) =
      .ok [⟨none, "", "", ""⟩, ⟨some "\"e1", " Q1 ", "a\\b'", "\u2028α𝔸"⟩] := by
  decide +kernel

end TabFile

end FactGraph
