import FactGraph.Proofs.Text.Bytes
import FactGraph.Proofs.Text.Split
import FactGraph.Row.TabFile

/-!
# Fields of files

A file is read through the bytes of its fields: the rows that are read are those whose texts have
the bytes between the separators (`decodeRecords_eq_ok_iff`). So no text that is read has a tab or
an end of a line (`isInline_of_rows`), and rows of such texts are read as they were written
(`rows_rendered`).
-/

namespace FactGraph.TabFile

open Text (IsInline)

/-! ## Records -/

section Records

variable {seen : List UInt8} {start here : Position}

theorem endsLine_iff {b : UInt8} : endsLine b = true ↔ b = lineFeed ∨ b = carriageReturn := by
  simp [endsLine]

theorem exists_recordsFrom_line (start here : Position) (seen : List UInt8) {line : List UInt8}
    {b : UInt8} (rest : List UInt8) (hline : ∀ x ∈ line, endsLine x = false)
    (hb : endsLine b = true) (hne : seen.reverse ++ line ≠ []) :
    ∃ next, recordsFrom start here seen (line ++ b :: rest) =
      ⟨start, (seen.reverse ++ line).splitOn tab⟩ :: recordsFrom next next [] rest := by
  induction line generalizing here seen with
  | nil =>
    have hseen : seen.isEmpty = false := by simpa using hne
    refine ⟨advance here b, ?_⟩
    simp only [List.nil_append, recordsFrom, hb, hseen, if_true, List.append_nil]
    rfl
  | cons x line ih =>
    have hx : endsLine x = false := hline x List.mem_cons_self
    obtain ⟨next, hnext⟩ := ih (advance here x) (x :: seen)
      (fun y hy => hline y (.tail _ hy)) (by simp)
    refine ⟨next, ?_⟩
    simp only [List.cons_append, recordsFrom, hx, Bool.false_eq_true, if_false, hnext,
      List.reverse_cons, List.append_assoc]
    rfl

theorem exists_recordsFrom_first (start here : Position) (seen bs : List UInt8)
    (hne : seen.reverse ++ bs.takeWhile (!endsLine ·) ≠ []) :
    ∃ rs, recordsFrom start here seen bs =
      ⟨start, (seen.reverse ++ bs.takeWhile (!endsLine ·)).splitOn tab⟩ :: rs := by
  induction bs generalizing here seen with
  | nil =>
    have hseen : seen.isEmpty = false := by simpa using hne
    exact ⟨[], by simp [recordsFrom, hseen]⟩
  | cons b bs ih =>
    cases hb : endsLine b with
    | true =>
      have hnone : ∀ x ∈ ([] : List UInt8), endsLine x = false := by simp
      obtain ⟨next, hnext⟩ := exists_recordsFrom_line start here seen bs hnone hb
        (by simpa [List.takeWhile_cons, hb] using hne)
      exact ⟨_, by simpa [List.takeWhile_cons, hb] using hnext⟩
    | false =>
      obtain ⟨rs, hrs⟩ := ih (advance here b) (b :: seen) (by simp)
      refine ⟨rs, ?_⟩
      simp only [recordsFrom, hb, Bool.false_eq_true, if_false, hrs, List.takeWhile_cons,
        Bool.not_false, if_true, List.reverse_cons, List.append_assoc, List.singleton_append]

theorem exists_fields_recordsFrom {lines : List (List UInt8)} (start here : Position)
    (h : ∀ line ∈ lines, line ≠ [] ∧ ∀ b ∈ line, endsLine b = false) (rest : List UInt8) :
    ∃ next after, (recordsFrom start here [] (lines.flatMap (· ++ [lineFeed]) ++ rest)).map
        Record.fields =
      lines.map (List.splitOn tab) ++ (recordsFrom next after [] rest).map Record.fields := by
  induction lines generalizing start here with
  | nil => exact ⟨start, here, rfl⟩
  | cons line lines ih =>
    obtain ⟨hne, hline⟩ := h line List.mem_cons_self
    obtain ⟨next, hnext⟩ := exists_recordsFrom_line start here []
      (lines.flatMap (· ++ [lineFeed]) ++ rest) hline (b := lineFeed) rfl (by simpa using hne)
    obtain ⟨last, after, hrest⟩ := ih next next fun other hother => h other (.tail _ hother)
    refine ⟨last, after, ?_⟩
    rw [List.flatMap_cons, List.append_assoc, List.append_assoc, List.singleton_append, hnext,
      List.map_cons, hrest]
    rfl

theorem of_mem_recordsFrom (hseen : ∀ b ∈ seen, endsLine b = false) {bs : List UInt8}
    {r : Record} (hr : r ∈ recordsFrom start here seen bs) {field : List UInt8}
    (hfield : field ∈ r.fields) {b : UInt8} (hb : b ∈ field) : b ≠ tab ∧ endsLine b = false := by
  have hsplit : ∀ seen : List UInt8, (∀ b ∈ seen, endsLine b = false) →
      ∀ field ∈ seen.reverse.splitOn tab, ∀ b ∈ field, b ≠ tab ∧ endsLine b = false := by
    intro seen hseen field hfield b hb
    rw [List.splitOn_eq_splitOnP] at hfield
    obtain ⟨hmem, htab⟩ := Text.mem_of_mem_splitOnP hfield hb
    exact ⟨by simpa using htab, hseen b (List.mem_reverse.1 hmem)⟩
  induction bs generalizing start here seen with
  | nil =>
    rw [recordsFrom] at hr
    split at hr
    · simp at hr
    · rw [List.mem_singleton.1 hr] at hfield
      exact hsplit seen hseen field hfield b hb
  | cons x bs ih =>
    simp only [recordsFrom] at hr
    split at hr
    next =>
      split at hr
      next => exact ih (by simp) hr
      next =>
        rcases List.mem_cons.1 hr with rfl | hr
        · exact hsplit seen hseen field hfield b hb
        · exact ih (by simp) hr
    next hx =>
      refine ih (fun y hy => ?_) hr
      rcases List.mem_cons.1 hy with rfl | hy
      · simpa using hx
      · exact hseen y hy

/-- Without a byte order mark, records start at the first byte. -/
theorem records_of_head {bs : List UInt8} (h : bs.head? ≠ some 0xEF) :
    records bs = recordsFrom ⟨1, 0⟩ ⟨1, 0⟩ [] bs := by
  unfold records
  split
  · simp at h
  · rfl

theorem of_mem_records {bs : List UInt8} {r : Record} (hr : r ∈ records bs) {field : List UInt8}
    (hfield : field ∈ r.fields) {b : UInt8} (hb : b ∈ field) : b ≠ tab ∧ endsLine b = false := by
  unfold records at hr
  split at hr <;> exact of_mem_recordsFrom (by simp) hr hfield hb

end Records

/-! ## Texts of records -/

theorem decodeField_eq_ok_iff {bs : List UInt8} {text : String} :
    decodeField bs = .ok text ↔ Text.bytes text = bs := by
  rw [← Text.fromUTF8?_eq_some_iff, decodeField]
  cases String.fromUTF8? bs.toByteArray <;> simp

theorem decodeFields_eq_ok_iff {record field : Nat} {start : Position}
    {fields : List (List UInt8)} {texts : List String} :
    decodeFields record start field fields = .ok texts ↔ texts.map Text.bytes = fields := by
  induction fields generalizing field texts with
  | nil => simp [decodeFields, eq_comm]
  | cons bs fields ih =>
    rw [decodeFields]
    cases hdecode : decodeField bs with
    | error valid =>
      refine iff_of_false (fun h => nomatch h) fun h => ?_
      obtain ⟨text, rest, rfl, htext, -⟩ := List.map_eq_cons_iff.1 h
      rw [decodeField_eq_ok_iff.2 htext] at hdecode
      exact nomatch hdecode
    | ok text =>
      have htext := decodeField_eq_ok_iff.1 hdecode
      cases hrest : decodeFields record start (field + 1) fields with
      | error cause =>
        refine iff_of_false (fun h => nomatch h) fun h => ?_
        obtain ⟨first, rest, rfl, -, hmap⟩ := List.map_eq_cons_iff.1 h
        rw [ih.2 hmap] at hrest
        exact nomatch hrest
      | ok rest =>
        have hmap := ih.1 hrest
        constructor
        · rintro h
          rw [← Except.ok.inj h, List.map_cons, htext, hmap]
        · intro h
          obtain ⟨first, others, rfl, hfirst, hothers⟩ := List.map_eq_cons_iff.1 h
          have hsame : first = text := Text.bytes_injective (hfirst.trans htext.symm)
          have hequal : others = rest :=
            (List.map_injective_iff.2 Text.bytes_injective) (hothers.trans hmap.symm)
          rw [hsame, hequal]
          rfl

/-- **The rows that are read have the bytes of the fields.** -/
theorem decodeRecords_eq_ok_iff {record : Nat} {rs : List Record} {rows : List (List String)} :
    decodeRecords record rs = .ok rows ↔
      rows.map (List.map Text.bytes) = rs.map Record.fields := by
  induction rs generalizing record rows with
  | nil => simp [decodeRecords, eq_comm]
  | cons r rs ih =>
    rw [decodeRecords, decodeRecord]
    constructor
    · intro h
      cases hfields : decodeFields record r.start 0 r.fields with
      | error cause => rw [hfields] at h; exact nomatch h
      | ok texts =>
        cases hrest : decodeRecords (record + 1) rs with
        | error cause => rw [hfields, hrest] at h; exact nomatch h
        | ok rest =>
          rw [hfields, hrest] at h
          rw [← Except.ok.inj h, List.map_cons, List.map_cons, ih.1 hrest,
            decodeFields_eq_ok_iff.1 hfields]
    · intro h
      obtain ⟨texts, rest, rfl, htexts, hrest⟩ := List.map_eq_cons_iff.1 h
      rw [decodeFields_eq_ok_iff.2 htexts, ih.2 hrest]
      rfl

theorem exists_record_of_mem {record : Nat} {rs : List Record} {rows : List (List String)}
    (h : decodeRecords record rs = .ok rows) {row : List String} (hrow : row ∈ rows) :
    ∃ r ∈ rs, row.map Text.bytes = r.fields := by
  have hmem : row.map Text.bytes ∈ rs.map Record.fields :=
    decodeRecords_eq_ok_iff.1 h ▸ List.mem_map_of_mem hrow
  obtain ⟨r, hr, heq⟩ := List.mem_map.1 hmem
  exact ⟨r, hr, heq.symm⟩

/-- **No text that is read has a tab or an end of a line.** -/
theorem isInline_of_rows {bs : List UInt8} {texts : List (List String)} (h : rows bs = .ok texts)
    {row : List String} (hrow : row ∈ texts) {text : String} (htext : text ∈ row) :
    IsInline text := by
  obtain ⟨r, hr, hfields⟩ := exists_record_of_mem h hrow
  have hfield : Text.bytes text ∈ r.fields := hfields ▸ List.mem_map_of_mem htext
  rw [Text.isInline_iff]
  intro b hb
  obtain ⟨htab, hend⟩ := of_mem_records (List.mem_of_mem_tail hr) hfield hb
  have hbreak : ¬ (b = lineFeed ∨ b = carriageReturn) := by
    rw [← endsLine_iff, hend]
    exact Bool.false_ne_true
  exact ⟨htab, not_or.1 hbreak⟩

theorem isInline_cell {row : List String} (h : ∀ text ∈ row, IsInline text) (i : Nat) :
    IsInline (cell row i) := by
  unfold cell
  cases hget : row[i]? with
  | none => exact Text.isInline_empty
  | some text => exact h text (List.mem_of_getElem? hget)

/-! ## Rendered rows -/

/-- The bytes of a row without the end of its line. -/
def lineBytes (row : List String) : List UInt8 := [tab].intercalate (row.map Text.bytes)

theorem bytes_renderRow (row : List String) :
    Text.bytes (renderRow row) = lineBytes row ++ [lineFeed] := by
  rw [renderRow, Text.bytes_append, Text.bytes_intercalate]
  rfl

theorem bytes_of_isInline {text : String} (h : IsInline text) :
    tab ∉ Text.bytes text ∧ ∀ b ∈ Text.bytes text, endsLine b = false := by
  have hbytes := Text.isInline_iff.1 h
  refine ⟨fun htab => (hbytes _ htab).1 rfl, fun b hb => ?_⟩
  rw [← Bool.not_eq_true, endsLine_iff]
  exact not_or.2 (hbytes b hb).2

theorem endsLine_of_mem_lineBytes {row : List String} (h : ∀ text ∈ row, IsInline text) {b : UInt8}
    (hb : b ∈ lineBytes row) : endsLine b = false := by
  rcases Text.mem_of_mem_intercalate hb with hb | ⟨field, hfield, hb⟩
  · rw [List.mem_singleton.1 hb]
    rfl
  · obtain ⟨text, htext, rfl⟩ := List.mem_map.1 hfield
    exact (bytes_of_isInline (h text htext)).2 b hb

theorem splitOn_lineBytes {row : List String} (h : ∀ text ∈ row, IsInline text) (hne : row ≠ []) :
    (lineBytes row).splitOn tab = row.map Text.bytes := by
  refine List.splitOn_intercalate tab (fun field hfield => ?_) (by simpa using hne)
  obtain ⟨text, htext, rfl⟩ := List.mem_map.1 hfield
  exact (bytes_of_isInline (h text htext)).1

theorem lineBytes_ne_nil {row : List String} (h : 2 ≤ row.length) : lineBytes row ≠ [] := by
  match row, h with
  | first :: second :: rest, _ =>
    rw [lineBytes, List.map_cons, List.map_cons, List.intercalate_cons_cons]
    simp

/-- Each of the texts can stand in a field, and there are several. -/
def Fits (row : List String) : Prop := 2 ≤ row.length ∧ ∀ text ∈ row, IsInline text

theorem fits_of_mem_file {α : Type} {columns : List String} {fields : α → List String}
    {items : List α} (hcolumns : Fits columns) (hitems : ∀ item ∈ items, Fits (fields item)) :
    ∀ row ∈ columns :: items.map fields, Fits row := by
  intro row hrow
  rcases List.mem_cons.1 hrow with rfl | hrow
  · exact hcolumns
  · obtain ⟨item, hitem, rfl⟩ := List.mem_map.1 hrow
    exact hitems item hitem

/-- Rows at the start of a file are read as they were written, whatever follows them. -/
theorem exists_fields_records {columns : List String} {texts : List (List String)}
    (hfits : ∀ row ∈ columns :: texts, Fits row)
    (hhead : (Text.bytes (renderRow columns)).head? ≠ some 0xEF) (rest : List UInt8) :
    ∃ start here,
      (records (Text.bytes (String.join ((columns :: texts).map renderRow)) ++ rest)).map
        Record.fields =
      (columns :: texts).map (List.map Text.bytes) ++
        (recordsFrom start here [] rest).map Record.fields := by
  have hbytes : Text.bytes (String.join ((columns :: texts).map renderRow)) =
      ((columns :: texts).map lineBytes).flatMap (· ++ [lineFeed]) := by
    rw [Text.bytes_join, List.flatMap_map, List.flatMap_map]
    exact List.flatMap_congr fun row _ => bytes_renderRow row
  -- A mark at the start of the file would be cut off, and no column begins with one.
  have hfirst : (Text.bytes (String.join ((columns :: texts).map renderRow)) ++ rest).head? ≠
      some 0xEF := by
    rw [List.map_cons, String.join_cons, Text.bytes_append, bytes_renderRow] at *
    simpa using hhead
  have hlines : ∀ line ∈ (columns :: texts).map lineBytes,
      line ≠ [] ∧ ∀ b ∈ line, endsLine b = false := by
    intro line hline
    obtain ⟨row, hrow, rfl⟩ := List.mem_map.1 hline
    obtain ⟨hlength, hinline⟩ := hfits row hrow
    exact ⟨lineBytes_ne_nil hlength, fun b hb => endsLine_of_mem_lineBytes hinline hb⟩
  have hsplit : ((columns :: texts).map lineBytes).map (List.splitOn tab) =
      (columns :: texts).map (List.map Text.bytes) := by
    rw [List.map_map]
    refine List.map_congr_left fun row hrow => ?_
    obtain ⟨hlength, hinline⟩ := hfits row hrow
    exact splitOn_lineBytes hinline (by rintro rfl; simp at hlength)
  obtain ⟨next, after, hfields⟩ := exists_fields_recordsFrom ⟨1, 0⟩ ⟨1, 0⟩ hlines rest
  refine ⟨next, after, ?_⟩
  rw [records_of_head hfirst, hbytes, hfields, hsplit]

theorem header_rows_of_fields {bs : List UInt8} {columns : List String}
    {fields : List (List (List UInt8))}
    (h : (records bs).map Record.fields = columns.map Text.bytes :: fields) :
    header bs = .ok columns ∧
      ∀ texts, rows bs = .ok texts ↔ texts.map (List.map Text.bytes) = fields := by
  rw [header, rows]
  cases hrecords : records bs with
  | nil =>
    rw [hrecords] at h
    exact nomatch h
  | cons r rs =>
    rw [hrecords, List.map_cons, List.cons.injEq] at h
    refine ⟨decodeFields_eq_ok_iff.2 h.1.symm, fun texts => ?_⟩
    rw [← h.2]
    exact decodeRecords_eq_ok_iff

/-- **Rows are read as they were written** if their texts have no tabs and ends of lines. -/
theorem rows_rendered {columns : List String} {texts : List (List String)}
    (hfits : ∀ row ∈ columns :: texts, Fits row)
    (hhead : (Text.bytes (renderRow columns)).head? ≠ some 0xEF) :
    header (Text.bytes (String.join ((columns :: texts).map renderRow))) = .ok columns ∧
      rows (Text.bytes (String.join ((columns :: texts).map renderRow))) = .ok texts := by
  obtain ⟨start, here, hfields⟩ := exists_fields_records hfits hhead []
  rw [List.append_nil] at hfields
  obtain ⟨hheader, hrows⟩ := header_rows_of_fields hfields
  exact ⟨hheader, (hrows texts).2 (by simp [recordsFrom])⟩

/-! ## Broken rows -/

theorem exists_lineBytes_of_broken (front : List String) {text clean : String} {b : UInt8}
    {rest : List UInt8} (htext : Text.bytes text = Text.bytes clean ++ b :: rest)
    (back : List String) :
    ∃ tail, lineBytes (front ++ text :: back) = lineBytes (front ++ [clean]) ++ b :: tail := by
  induction front with
  | nil => cases back with
    | nil => exact ⟨rest, by simpa [lineBytes] using htext⟩
    | cons next back =>
      exact ⟨_, by simp [lineBytes, List.intercalate_cons_cons, htext]; rfl⟩
  | cons first front ih =>
    obtain ⟨tail, htail⟩ := ih
    have hcons : ∀ row : List String, row ≠ [] →
        lineBytes (first :: row) = Text.bytes first ++ tab :: lineBytes row := by
      intro row hrow
      obtain ⟨next, others, rfl⟩ := List.exists_cons_of_ne_nil hrow
      simp [lineBytes, List.intercalate_cons_cons]
    refine ⟨tail, ?_⟩
    rw [List.cons_append, hcons _ (by simp), List.cons_append, hcons _ (by simp), htail]
    simp

/-- A record starts with the fields before a tab or the end of its line. -/
theorem exists_recordsFrom_of_broken (start here : Position) {row : List String}
    (hrow : ∀ text ∈ row, IsInline text) (hlength : 2 ≤ row.length) {b : UInt8}
    (hb : b = 9 ∨ b = 10 ∨ b = 13) (rest : List UInt8) :
    ∃ r rs extra, recordsFrom start here [] (lineBytes row ++ b :: rest) = r :: rs ∧
      r.fields = row.map Text.bytes ++ extra := by
  have hsplit := splitOn_lineBytes hrow (by rintro rfl; simp at hlength)
  have hfirst : ∃ more, (lineBytes row ++ b :: rest).takeWhile (!endsLine ·) =
      lineBytes row ++ more ∧ (more = [] ∨ ∃ others, more = tab :: others) := by
    rw [List.takeWhile_append_of_pos fun x hx => by
      simp [endsLine_of_mem_lineBytes hrow hx]]
    refine ⟨_, rfl, ?_⟩
    rcases hb with rfl | rfl | rfl
    · exact .inr ⟨_, rfl⟩
    · exact .inl rfl
    · exact .inl rfl
  obtain ⟨more, hmore, hcases⟩ := hfirst
  obtain ⟨rs, hrs⟩ := exists_recordsFrom_first start here [] (lineBytes row ++ b :: rest) (by
    rw [hmore]
    simp [lineBytes_ne_nil hlength])
  rw [hmore, List.reverse_nil, List.nil_append] at hrs
  rcases hcases with rfl | ⟨others, rfl⟩
  · exact ⟨_, rs, [], hrs, by simp [hsplit]⟩
  · exact ⟨_, rs, others.splitOn tab, hrs, by
      rw [List.splitOn_append_cons_self, hsplit]⟩

/-- **What is read of a broken row** starts with its texts up to the break. -/
theorem exists_row_of_broken {columns : List String} {before : List (List String)}
    (hfits : ∀ row ∈ columns :: before, Fits row)
    (hhead : (Text.bytes (renderRow columns)).head? ≠ some 0xEF) {front : List String}
    {text : String} (hfront : ∀ t ∈ front, IsInline t) (hne : front ≠ [])
    (htext : ¬ IsInline text) (back : List String) (after : List (List String)) :
    header (Text.bytes (String.join
      ((columns :: before ++ (front ++ text :: back) :: after).map renderRow))) = .ok columns ∧
    ∃ clean, clean ≠ text ∧ ∀ texts, rows (Text.bytes (String.join
        ((columns :: before ++ (front ++ text :: back) :: after).map renderRow))) = .ok texts →
      ∃ extra, texts[before.length]? = some (front ++ clean :: extra) := by
  obtain ⟨clean, b, rest, hclean, hclean', hb, hbytes⟩ := Text.exists_bytes_of_not_isInline htext
  obtain ⟨tail, htail⟩ := exists_lineBytes_of_broken front hbytes back
  have hrow : ∀ t ∈ front ++ [clean], IsInline t := by
    intro t ht
    rcases List.mem_append.1 ht with ht | ht
    · exact hfront t ht
    · exact List.mem_singleton.1 ht ▸ hclean
  have hlength : 2 ≤ (front ++ [clean]).length := by
    have hpos := List.length_pos_iff.2 hne
    simp
    omega
  have hfile : Text.bytes (String.join
      ((columns :: before ++ (front ++ text :: back) :: after).map renderRow)) =
      Text.bytes (String.join ((columns :: before).map renderRow)) ++
        (lineBytes (front ++ [clean]) ++ b :: (tail ++ lineFeed ::
          Text.bytes (String.join (after.map renderRow)))) := by
    rw [List.map_append, String.join_append, Text.bytes_append]
    congr 1
    rw [List.map_cons, String.join_cons, Text.bytes_append, bytes_renderRow, htail]
    simp
  obtain ⟨start, here, hfields⟩ := exists_fields_records hfits hhead
    (lineBytes (front ++ [clean]) ++
      b :: (tail ++ lineFeed :: Text.bytes (String.join (after.map renderRow))))
  obtain ⟨r, rs, extra, hrs, hr⟩ := exists_recordsFrom_of_broken start here hrow hlength hb
    (tail ++ lineFeed :: Text.bytes (String.join (after.map renderRow)))
  rw [hrs] at hfields
  obtain ⟨hheader, hrows⟩ := header_rows_of_fields hfields
  rw [hfile]
  refine ⟨hheader, clean, hclean', fun texts htexts => ?_⟩
  obtain ⟨front', others, rfl, hbefore, hothers⟩ :=
    List.map_eq_append_iff.1 ((hrows texts).1 htexts)
  obtain ⟨read, others, rfl, hread, -⟩ := List.map_eq_cons_iff.1 hothers
  rw [hr] at hread
  obtain ⟨start', extra', rfl, hstart, -⟩ := List.map_eq_append_iff.1 hread
  obtain rfl := List.map_injective_iff.2 Text.bytes_injective hstart
  have hcount : front'.length = before.length := by
    simpa using congrArg List.length hbefore
  exact ⟨extra', by simp [← hcount]⟩

end FactGraph.TabFile
