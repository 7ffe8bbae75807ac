import FactGraph.Proofs.Row.ExplodedFile
import FactGraph.Proofs.Row.Explosion

/-!
# Flat rows recovered from exploded files

**Theorem (`TabFile.recovers_iff`).** Let a flat file be exploded, and let its literals be finite.
Its statements are those of the accepted rows. Written to an exploded file, read and imploded, they
give one flat row each, in their order, with the same id, node and label and an equal value,
*exactly if* no text among the values has a tab or an end of a line.

A flat file holds such texts escaped. An exploded file holds them as they are, and has no quotes.
Without them each row is read as it was written (`readExploded_written`) and packed again
(`implode_filled`). The first text that has one is cut where it is broken
(`exists_row_of_brokenText`), and whatever is read after that, its row is packed to another text.
-/

namespace FactGraph

open Text (IsInline)

namespace Statement

variable {s : Statement}

/-- The flat row says what the statement says. Where the value is a coordinate, the written form may
differ in the sign of a zero. -/
structure RecoveredAs (s : Statement) (flat : FlatRow) : Prop where
  id : flat.id = some s.edge.id
  node1 : flat.node1 = s.edge.node1
  label : flat.label = s.edge.label
  value : ∃ v, Literal.decode flat.node2 = .ok v ∧ v.same s.value.toLiteral = true
  node2 : s.edge.kind ≠ .coordinate → flat.node2 = s.edge.node2

/-! ## One row -/

/-- **The columns of a statement are packed to its flat row.** -/
theorem IsOf.implode_filled {v : Literal} (h : s.IsOf v) :
    ∃ flat, implode s.toExploded.filled = .ok flat ∧ s.RecoveredAs flat := by
  have hholds : s.toExploded.filled.Holds (.ofLiteral v) := by
    rw [← h.value]
    exact (ExplodedRow.holds_toExploded s).filled
  have hsame := v.unsignedZeros_unsignedZeros
  have hw := Literal.wellFormed_of_unsignedZeros_eq hsame h.wellFormed
  obtain ⟨x, hdecode, hx, -⟩ := Literal.exists_decode_encode hw
  have htag : s.toExploded.filled.tag = v.kind.tag := by
    rw [← h.kind]
    rfl
  have himplode : implode s.toExploded.filled =
      .ok ⟨some s.edge.id, s.edge.node1, s.edge.label, v.unsignedZeros.encode⟩ := by
    rw [implode, ofExploded_of_holds h.wellFormed hholds htag]
    rfl
  refine ⟨_, himplode, rfl, rfl, rfl, ⟨x, hdecode, ?_⟩, fun hkind => ?_⟩
  · rw [h.value, Value.toLiteral_ofLiteral h.wellFormed]
    exact Literal.same_of_unsignedZeros_eq (hx.trans hsame) h.wellFormed
  · rw [h.node2]
    exact Literal.encode_eq_of_unsignedZeros_eq hsame (h.kind ▸ hkind)

/-- The value is no text, or a text without breaks. -/
def IsUnbroken (s : Statement) : Prop :=
  ∀ text language, s.value = .string text language → IsInline text

theorem isInline_tag (kind : ValueKind) : IsInline kind.tag := by
  cases kind <;> decide

theorem exists_eq_string {value : Value} {text : String} (h : fieldOf value .text = some text) :
    ∃ language, value = .string text language := by
  cases value with
  | string t language =>
    have htext : some t = some text := by
      rw [← h]
      cases language <;> rfl
    exact ⟨language, by rw [Option.some.inj htext]⟩
  | _ => cases h

theorem eq_symbol {v : Literal} {t : String} (h : fieldOf (.ofLiteral v) .symbol = some t) :
    v = .symbol t := by
  cases v with
  | symbol s => rw [Option.some.inj h]
  | _ => cases h

/-- **The columns of a statement have no breaks**, unless its value is a text that has one. -/
theorem Filed.isInline_explodedFields (h : s.Filed) {v : Literal} (hv : s.IsOf v)
    (hunbroken : s.IsUnbroken) : ∀ text ∈ TabFile.explodedFields s.toExploded, IsInline text := by
  intro text htext
  simp only [TabFile.explodedFields, List.mem_append, List.mem_cons, List.not_mem_nil, or_false,
    List.mem_map] at htext
  rcases htext with (rfl | rfl | rfl | rfl | rfl) | ⟨field, -, rfl⟩
  · exact h.id
  · exact h.node1
  · exact h.label
  · exact hv.isInline_node2
  · exact isInline_tag s.edge.kind
  · rw [toExploded, Fields.get?_ofFn, hv.value]
    cases hfield : fieldOf (.ofLiteral v) field with
    | none => exact Text.isInline_empty
    | some text =>
      by_cases htext : field = .text
      · subst htext
        obtain ⟨language, hvalue⟩ := exists_eq_string hfield
        exact hunbroken text language (hv.value.trans hvalue)
      by_cases hsymbol : field = .symbol
      · subst hsymbol
        exact hv.isInline text (eq_symbol hfield)
      exact (isField_of_mem_fieldOf hv.wellFormed htext hsymbol hfield).isInline

theorem Filed.isInline_textFront (h : s.Filed) {v : Literal} (hv : s.IsOf v) :
    ∀ text ∈ TabFile.textFront s.edge, IsInline text := by
  intro text htext
  simp only [TabFile.textFront, List.mem_append, List.mem_cons, List.not_mem_nil, or_false,
    List.mem_replicate] at htext
  rcases htext with (rfl | rfl | rfl | rfl | rfl) | ⟨-, rfl⟩
  · exact h.id
  · exact h.node1
  · exact h.label
  · exact hv.isInline_node2
  · exact isInline_tag s.edge.kind
  · exact Text.isInline_empty

/-! ## One broken row -/

theorem text_of_decode {text : String} {language : Option String} {w : Literal}
    (h : Literal.decode (Value.toLiteral (.string text language)).encode = .ok w) :
    ∃ language', Value.ofLiteral w = .string text language' := by
  cases language with
  | none =>
    rw [Value.toLiteral, Literal.decode_encode_text] at h
    exact ⟨none, by rw [← Except.ok.inj h]; rfl⟩
  | some tag =>
    obtain ⟨t, ht⟩ : ∃ t : TaggedText, t = .ofTag text tag := ⟨_, rfl⟩
    have htext : t.text = text := by rw [ht]; rfl
    rw [Value.toLiteral, ← ht] at h
    -- Whatever the tag is, the text is read up to the quote, so the text survives if anything does.
    have hbody := Quoted.readBody?_escape (.inr rfl) t.text.toList ('@' :: t.tag.toList)
    have htail : t.render.tail =
        Quoted.escape '\'' t.text.toList ++ '\'' :: '@' :: t.tag.toList := by
      simp [TaggedText.render, Quoted.render]
    rw [Literal.decode_tagged (by rw [Literal.encode, String.toList_ofList]; rfl), Literal.encode,
      Literal.render, TaggedText.read, String.toList_ofList, htail, hbody] at h
    cases htag : TaggedText.readTag? t.tag.toList with
    | none => simp only [htag] at h; cases h
    | some parts =>
      simp only [htag, String.ofList_toList, htext] at h
      exact ⟨_, by rw [← Except.ok.inj h]; rfl⟩

/-- A row that is read as another text is not packed to the flat row of the statement. -/
theorem not_recoveredAs_of_text {text clean : String} {language : Option String}
    (hvalue : s.value = .string text language) (hkind : s.edge.kind = .string) {row : ExplodedRow}
    (htag : row.tag = s.edge.kind.tag) (hclean : (row.fields.get? .text).getD "" = clean)
    (hne : clean ≠ text) {flat : FlatRow} (himplode : implode row = .ok flat) :
    ¬ s.RecoveredAs flat := by
  intro hrecovered
  obtain ⟨w, hdecode, hsame⟩ := hrecovered.value
  have hflat : flat.node2 =
      (Value.toLiteral (.string clean (tagOfExploded row))).encode := by
    rw [implode, ofExploded, htag, ofTag_tag, hkind] at himplode
    simp only [bind, Except.bind, valueOfExploded, hclean] at himplode
    rw [← Except.ok.inj himplode]
    rfl
  rw [hflat] at hdecode
  obtain ⟨language', hw⟩ := text_of_decode hdecode
  rw [hvalue] at hsame
  refine hne ?_
  cases w with
  | text t =>
    cases language with
    | none =>
      rw [← (Value.string.inj hw).1, Literal.text.inj (of_decide_eq_true hsame)]
    | some tag => simp [Literal.same, Value.toLiteral] at hsame
  | tagged t =>
    cases language with
    | none => simp [Literal.same, Value.toLiteral] at hsame
    | some tag =>
      rw [← (Value.string.inj hw).1, Literal.tagged.inj (of_decide_eq_true hsame)]
      rfl
  | _ => cases hw

end Statement

/-! ## Whole files -/

open Statement

namespace TabFile

variable {statements : List Statement}

/-- **Statements without breaks are recovered.** -/
theorem recovered_of_isUnbroken (h : ∀ s ∈ statements, s.Filed ∧ ∃ v, s.IsOf v)
    (hunbroken : ∀ s ∈ statements, s.IsUnbroken) :
    ∃ rows flats, readExploded (Text.bytes (writeExploded (statements.map toExploded))) = .ok rows ∧
      rows.mapM implode = .ok flats ∧ List.Forall₂ RecoveredAs statements flats := by
  have hread := readExploded_written (statements.map toExploded) fun row hrow => by
    obtain ⟨s, hs, rfl⟩ := List.mem_map.1 hrow
    obtain ⟨hfiled, v, hv⟩ := h s hs
    exact hfiled.isInline_explodedFields hv (hunbroken s hs)
  have hflats : ∃ flats, List.Forall₂ (fun s flat => implode s.toExploded.filled = .ok flat ∧
      s.RecoveredAs flat) statements flats := by
    clear hread hunbroken
    induction statements with
    | nil => exact ⟨[], .nil⟩
    | cons s statements ih =>
      obtain ⟨-, v, hv⟩ := h s List.mem_cons_self
      obtain ⟨flat, hflat⟩ := hv.implode_filled
      obtain ⟨flats, hflats⟩ := ih fun other hother => h other (.tail _ hother)
      exact ⟨flat :: flats, .cons hflat hflats⟩
  obtain ⟨flats, hflats⟩ := hflats
  refine ⟨_, flats, hread, mapM_eq_ok_iff.2 ?_, hflats.imp fun _ _ h => h.2⟩
  rw [List.map_map, List.forall₂_map_left_iff]
  exact hflats.imp fun _ _ h => h.1

/-- **A broken text is not recovered.** -/
theorem not_recovered_of_broken (before after : List Statement) {s : Statement}
    (h : ∀ t ∈ before ++ s :: after, t.Filed ∧ ∃ v, t.IsOf v)
    (hbefore : ∀ t ∈ before, t.IsUnbroken) (hbroken : ¬ s.IsUnbroken) {rows : List ExplodedRow}
    {flats : List FlatRow}
    (hread : readExploded (Text.bytes (writeExploded
      ((before ++ s :: after).map toExploded))) = .ok rows)
    (himplode : rows.mapM implode = .ok flats) :
    ¬ List.Forall₂ RecoveredAs (before ++ s :: after) flats := by
  intro hrecovered
  simp only [IsUnbroken, not_forall] at hbroken
  obtain ⟨text, language, hvalue, htext⟩ := hbroken
  obtain ⟨hfiled, v, hv⟩ := h s (by simp)
  have hkind : s.edge.kind = .string := by
    rw [hv.kind, ← Value.kind_ofLiteral, ← hv.value, hvalue]
    rfl
  rw [List.map_append, List.map_cons] at hread
  obtain ⟨row, clean, hrow, htag, hclean, hne⟩ := exists_row_of_brokenText hvalue
    (fun row hrow => by
      obtain ⟨t, ht, rfl⟩ := List.mem_map.1 hrow
      obtain ⟨htFiled, w, hw⟩ := h t (by simp [ht])
      exact htFiled.isInline_explodedFields hw (hbefore t ht))
    (hfiled.isInline_textFront hv) htext hread
  rw [List.length_map] at hrow
  have hpacked := mapM_eq_ok_iff.1 himplode
  obtain ⟨hlt, hget⟩ := List.getElem?_eq_some_iff.1 hrow
  have hflat : before.length < flats.length := hpacked.length_eq ▸ hlt
  have hrowPacked := hpacked.get hlt hflat
  have hsRecovered := hrecovered.get (by simp) hflat
  rw [List.get_eq_getElem, hget] at hrowPacked
  rw [List.get_eq_getElem, List.getElem_append_right (Nat.le_refl _)] at hsRecovered
  simp only [Nat.sub_self, List.getElem_cons_zero] at hsRecovered
  exact not_recoveredAs_of_text hvalue hkind htag hclean hne hrowPacked hsRecovered

theorem exists_first_broken (h : ¬ ∀ s ∈ statements, s.IsUnbroken) :
    ∃ before s after, statements = before ++ s :: after ∧ (∀ t ∈ before, t.IsUnbroken) ∧
      ¬ s.IsUnbroken := by
  induction statements with
  | nil => simp at h
  | cons s statements ih =>
    by_cases hs : s.IsUnbroken
    · obtain ⟨before, t, after, hsplit, hbefore, ht⟩ := ih fun hall => h (by simpa [hs] using hall)
      exact ⟨s :: before, t, after, by rw [hsplit]; rfl, by simpa [hs] using hbefore, ht⟩
    · exact ⟨[], s, statements, rfl, by simp, hs⟩

/-- **Exploded files recover flat rows exactly if no text is broken.** The statements of a flat file
with finite literals are those of its accepted rows, and written to an exploded file, read and
imploded, they give one flat row each that says the same, exactly if no text among their values has
a tab or an end of a line. -/
theorem recovers_iff {bytes : List UInt8} {rows : List FlatRow} (hread : readFlat bytes = .ok rows)
    (hfinite : ∀ row ∈ rows, ∀ v, Literal.decode row.node2 = .ok v → v.isFinite = true)
    (failFast : Bool) :
    List.Forall₂ FlatRow.Gives (FlatRow.accepted failFast rows)
      (explode failFast rows).statements ∧
    ((∃ exploded flats,
        readExploded (Text.bytes (writeExploded
          ((explode failFast rows).statements.map toExploded))) = .ok exploded ∧
        exploded.mapM implode = .ok flats ∧
        List.Forall₂ RecoveredAs (explode failFast rows).statements flats) ↔
      ∀ s ∈ (explode failFast rows).statements, s.IsUnbroken) := by
  have hgives := statements_explode failFast rows
  refine ⟨hgives, ?_⟩
  have hfiled : ∀ s ∈ (explode failFast rows).statements, s.Filed ∧ ∃ v, s.IsOf v := by
    intro s hs
    obtain ⟨row, hrow, -, hrowGives⟩ := exists_gives_of_mem_statements hs
    have hsFiled := hrowGives.filed (fits_of_readFlat hread hrow)
    refine ⟨hsFiled, hsFiled.exists_isOf ?_⟩
    obtain ⟨v, hdecode, hsv⟩ := hrowGives.literal
    rw [hsv]
    exact (isFinite_toLiteral v).trans (hfinite row hrow v hdecode)
  constructor
  · rintro ⟨exploded, flats, hexploded, hflats, hrecovered⟩
    -- The first statement that is broken comes back with another text, whatever follows it.
    by_contra hbroken
    obtain ⟨before, s, after, hstatements, hbefore, hs⟩ := exists_first_broken hbroken
    rw [hstatements] at hfiled hexploded hrecovered
    exact not_recovered_of_broken before after hfiled hbefore hs hexploded hflats hrecovered
  · exact recovered_of_isUnbroken hfiled

/-- A text in a language, with quotes, is recovered. -/
theorem recovers_iff_greeting :
    ∃ exploded flats,
      readExploded (Text.bytes (writeExploded ((explode false
        [⟨some "e1", "Q1", "P1", "'say \\'hi\\''@en-GB"⟩]).statements.map toExploded))) =
          .ok exploded ∧
      exploded.mapM implode = .ok flats ∧
      List.Forall₂ RecoveredAs (explode false
        [⟨some "e1", "Q1", "P1", "'say \\'hi\\''@en-GB"⟩]).statements flats := by
  have hdecode : Literal.decode "'say \\'hi\\''@en-GB" =
      .ok (.tagged ⟨"say 'hi'", "en", some "GB"⟩) := by decide +kernel
  have hstatements : (explode false [⟨some "e1", "Q1", "P1", "'say \\'hi\\''@en-GB"⟩]).statements =
      [.ofLiteral "e1" "Q1" "P1" (.tagged ⟨"say 'hi'", "en", some "GB"⟩)] := by decide +kernel
  have hread := readFlat_of_fits [⟨some "e1", "Q1", "P1", "'say \\'hi\\''@en-GB"⟩] (by
    intro row hrow
    obtain rfl := List.mem_singleton.1 hrow
    exact ⟨by decide, by decide⟩)
  refine (recovers_iff hread (fun row hrow v hv => ?_) false).2.2
    fun s hs text language hvalue => ?_
  · obtain rfl := List.mem_singleton.1 hrow
    rw [← Except.ok.inj (hdecode.symm.trans hv)]
    rfl
  · rw [hstatements] at hs
    obtain rfl := List.mem_singleton.1 hs
    rw [← (Value.string.inj hvalue).1]
    decide

/-- A text with a tab is not recovered. -/
theorem not_recovered_of_tab :
    ∃ rows, readFlat (Text.bytes "id\tnode1\tlabel\tnode2\ne1\tQ1\tP1\t\"a\\tb\"\n") = .ok rows ∧
      (explode false rows).errors = [] ∧
      ¬ ∃ exploded flats,
        readExploded (Text.bytes (writeExploded ((explode false rows).statements.map toExploded))) =
            .ok exploded ∧
          exploded.mapM implode = .ok flats ∧
          List.Forall₂ RecoveredAs (explode false rows).statements flats := by
  have hread := readFlat_of_fits [⟨some "e1", "Q1", "P1", "\"a\\tb\""⟩] (by
    intro row hrow
    obtain rfl := List.mem_singleton.1 hrow
    exact ⟨by decide, by decide⟩)
  have hreport : explode false [⟨some "e1", "Q1", "P1", "\"a\\tb\""⟩] =
      ⟨[.ofLiteral "e1" "Q1" "P1" (.text "a\tb")], []⟩ := by decide +kernel
  refine ⟨_, hread, by rw [hreport], ?_⟩
  rw [hreport]
  rintro ⟨exploded, flats, hexploded, hflats, hrecovered⟩
  have hfiled : Filed (.ofLiteral "e1" "Q1" "P1" (.text "a\tb")) :=
    ⟨by decide, by decide, by decide, "\"a\\tb\"", .text "a\tb", by decide, by decide +kernel, rfl⟩
  refine not_recovered_of_broken [] [] ?_ (by simp) ?_ hexploded hflats
    hrecovered
  · intro t ht
    obtain rfl := List.mem_singleton.1 ht
    exact ⟨hfiled, hfiled.exists_isOf rfl⟩
  · exact fun h => absurd (h _ _ rfl) (by decide)

end TabFile

end FactGraph
