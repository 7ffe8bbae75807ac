import FactGraph.Proofs.Literal.RoundTrip
import FactGraph.Proofs.Text.Bytes
import FactGraph.Proofs.Text.Split
import FactGraph.Row.Explode

/-!
# Literals within one line

The written form of a well-formed literal has no tab and no end of a line: numbers, units, tags and
dates are made of letters, digits and a few marks, and a quoted text has its breaks escaped. Only a
symbol stands for itself (`Literal.isInline_encode`).
-/

namespace FactGraph

open Text (IsField IsInline isBreak isBreak_eq_false)

/-! ## Characters of parts -/

theorem IsPlain.isBreak {c : Char} (h : IsPlain c) : isBreak c = false :=
  isBreak_eq_false h (by decide) (by decide) (by decide)

theorem isBreak_of_isDigit {c : Char} (h : c.isDigit = true) : isBreak c = false :=
  isBreak_eq_false (p := fun c => c.isDigit = true) h (by decide) (by decide) (by decide)

theorem isBreak_of_isAlpha {c : Char} (h : c.isAlpha = true) : isBreak c = false :=
  isBreak_eq_false (p := fun c => c.isAlpha = true) h (by decide) (by decide) (by decide)

theorem isBreak_of_isAlphanum {c : Char} (h : c.isAlphanum = true) : isBreak c = false :=
  isBreak_eq_false (p := fun c => c.isAlphanum = true) h (by decide) (by decide) (by decide)

theorem isBreak_of_isNameChar {c : Char} (h : isNameChar c = true) : isBreak c = false :=
  isBreak_eq_false (p := fun c => isNameChar c = true) h (by decide) (by decide) (by decide)

theorem IsWritten.isInline {cs : List Char} (h : IsWritten cs) : IsInline (String.ofList cs) :=
  Text.isInline_ofList.2 fun c hc => (h.isPlain c hc).isBreak

theorem IsWritten.isField {cs : List Char} (h : IsWritten cs) : IsField (String.ofList cs) := by
  obtain ⟨c, rest, rfl, -⟩ := h.exists_cons
  exact ⟨by simp, h.isInline⟩

theorem Number.isField_text {number : Number} (h : number.isFinite = true) :
    IsField number.text :=
  (Number.read_render h).1.isField

theorem isField_columnText {x : Binary64} (h : x.isFinite = true) :
    IsField (Statement.columnText x) :=
  (Coordinate.degrees?_render h).2.isField

theorem isField_toString (n : Nat) : IsField (toString n) := by
  have hwritten := (isWritten_toString n).isField
  rwa [String.ofList_toList] at hwritten

/-! ## Units and tags -/

theorem unitFactors_eq (cs : List Char) : unitFactors cs = cs.splitOnP joinsUnitFactors := by
  induction cs with
  | nil => rfl
  | cons c cs ih =>
    rw [unitFactors, ih, List.splitOnP_cons_eq_if_modifyHead]
    split
    · rfl
    · cases hsplit : cs.splitOnP joinsUnitFactors with
      | nil => exact absurd hsplit (List.splitOnP_ne_nil _ _)
      | cons => rfl

theorem isBreak_of_mem_isUnitFactor {factor : List Char} (h : isUnitFactor factor = true) {c : Char}
    (hc : c ∈ factor) : isBreak c = false := by
  have hsymbols : ∀ symbol ∈ unitSymbols, Text.IsInline symbol := by decide
  have hpowers : ∀ power ∈ unitPowers, Text.IsInline power := by decide
  simp only [isUnitFactor, List.any_eq_true, Bool.or_eq_true, decide_eq_true_eq] at h
  obtain ⟨symbol, hsymbol, rfl | ⟨power, hpower, rfl⟩⟩ := h
  · exact hsymbols symbol hsymbol c hc
  · exact (List.mem_append.1 hc).elim (hsymbols symbol hsymbol c) (hpowers power hpower c)

theorem isField_of_isUnitExpression {unit : String} (h : isUnitExpression unit.toList = true) :
    IsField unit := by
  refine ⟨?_, fun c hc => ?_⟩
  · rintro rfl
    exact absurd h (by decide)
  cases hjoins : joinsUnitFactors c with
  | true =>
    exact isBreak_eq_false (p := fun c => joinsUnitFactors c = true) hjoins (by decide) (by decide)
      (by decide)
  | false =>
    obtain ⟨factor, hfactor, hmem⟩ := Text.exists_mem_splitOnP hc hjoins
    have hall := List.all_eq_true.1 (Bool.and_eq_true_iff.1 h).2 factor
    rw [unitFactors_eq] at hall
    exact isBreak_of_mem_isUnitFactor (hall hfactor) hmem

theorem isField_of_isUnitsNode {node : String} (h : isUnitsNode node = true) : IsField node := by
  refine ⟨?_, fun c hc => ?_⟩
  · rintro rfl
    exact absurd h (by decide)
  unfold isUnitsNode isUnitsNodeText at h
  split at h
  next rest htext =>
    rw [htext] at hc
    rcases List.mem_cons.1 hc with rfl | hc
    · decide
    · exact isBreak_of_isNameChar (List.all_eq_true.1 (Bool.and_eq_true_iff.1 h).2 c hc)
  next => exact absurd h Bool.false_ne_true

namespace TaggedText

theorem suffixParts_eq (cs : List Char) : suffixParts cs = cs.splitOnP (· = '-') := by
  induction cs with
  | nil => rfl
  | cons c cs ih =>
    rw [suffixParts, ih, List.splitOnP_cons_eq_if_modifyHead]
    simp only [decide_eq_true_eq]
    split
    · rfl
    · cases hsplit : cs.splitOnP (· = '-') with
      | nil => exact absurd hsplit (List.splitOnP_ne_nil _ _)
      | cons => rfl

theorem isField_of_isSuffix {suffix : String} (h : isSuffix suffix.toList = true) :
    IsField suffix := by
  refine ⟨?_, fun c hc => ?_⟩
  · rintro rfl
    exact absurd h (by decide)
  by_cases hyphen : c = '-'
  · rw [hyphen]
    decide
  · obtain ⟨part, hpart, hmem⟩ :=
      Text.exists_mem_splitOnP (p := (· = '-')) hc (by simpa using hyphen)
    have hall := List.all_eq_true.1 h part
    rw [suffixParts_eq] at hall
    exact isBreak_of_isAlphanum
      (List.all_eq_true.1 (Bool.and_eq_true_iff.1 (hall hpart)).2 c hmem)

theorem WellFormed.isField_language {t : TaggedText} (h : t.WellFormed) : IsField t.language := by
  refine ⟨fun hempty => ?_, fun c hc => isBreak_of_isAlpha (h.letters c hc)⟩
  have hlength := h.length
  simp [hempty] at hlength

theorem WellFormed.isInline_tag {t : TaggedText} (h : t.WellFormed) : IsInline t.tag := by
  unfold tag
  cases hsuffix : t.suffix with
  | none => exact h.isField_language.isInline
  | some suffix =>
    exact Text.isInline_append.2 ⟨Text.isInline_append.2 ⟨h.isField_language.isInline, by decide⟩,
      (isField_of_isSuffix (h.suffix suffix hsuffix)).isInline⟩

end TaggedText

/-! ## Dates -/

namespace PointInTime

theorem isBreak_of_mem_pad {width n : Nat} {c : Char} (hc : c ∈ pad width n) :
    isBreak c = false := by
  rcases List.mem_append.1 hc with hc | hc
  · rw [(List.mem_replicate.1 hc).2]
    decide
  · rw [toDigits_eq_digitText] at hc
    exact isBreak_of_isDigit (isDigit_of_mem_digitText (areDigits_decimalDigits n) hc)

theorem isBreak_of_mem_zone {zone : Zone} {c : Char} (hc : c ∈ zone.render) :
    isBreak c = false := by
  cases zone with
  | utc =>
    rw [List.mem_singleton.1 hc]
    decide
  | offset west hours minutes =>
    simp only [Zone.render, List.cons_append, List.mem_cons, List.mem_append] at hc
    rcases hc with rfl | hc | rfl | hc
    · cases west <;> decide
    · exact isBreak_of_mem_pad hc
    · decide
    · exact isBreak_of_mem_pad hc

theorem Moment.isInline_text (m : Moment) : IsInline (String.ofList m.text) := by
  refine Text.isInline_ofList.2 fun c hc => ?_
  simp only [text, fieldsText, List.mem_append, List.mem_cons] at hc
  rcases hc with hc | rfl | hc | rfl | hc | rfl | hc | rfl | hc | rfl | hc | hc
  all_goals first | decide | exact isBreak_of_mem_pad hc | exact isBreak_of_mem_zone hc

theorem WellFormed.isField_text {t : PointInTime} (h : t.WellFormed) : IsField t.text := by
  obtain ⟨m, -, htext⟩ := h.text
  refine htext ▸ ⟨?_, m.isInline_text⟩
  simp [Moment.text, Moment.fieldsText]

end PointInTime

/-! ## Quoted texts -/

theorem Quoted.isBreak_of_mem_escape {quote : Char} (hquote : isBreak quote = false)
    {cs : List Char} {c : Char} (hc : c ∈ escape quote cs) : isBreak c = false := by
  obtain ⟨d, -, hc⟩ := List.mem_flatMap.1 hc
  unfold escapeChar at hc
  repeat' split at hc
  all_goals simp only [List.mem_cons, List.not_mem_nil, or_false] at hc
  · rcases hc with rfl | rfl <;> decide
  · rcases hc with rfl | rfl <;> decide
  · rcases hc with rfl | rfl <;> decide
  · rcases hc with rfl | rfl <;> decide
  next hd =>
    rcases hc with rfl | rfl
    · decide
    · exact hd ▸ hquote
  next hfeed htab hreturn _ =>
    subst hc
    simp [isBreak, hfeed, htab, hreturn]

theorem Quoted.isInline_render {quote : Char} (hquote : isBreak quote = false) (text : String) :
    IsInline (String.ofList (render quote text)) := by
  refine Text.isInline_ofList.2 fun c hc => ?_
  simp only [render, List.mem_cons, List.mem_append, List.not_mem_nil, or_false] at hc
  rcases hc with (rfl | hc) | rfl
  · exact hquote
  · exact isBreak_of_mem_escape hquote hc
  · exact hquote

/-! ## Written forms -/

theorem Quantity.isInline_render {q : Quantity} (h : q.WellFormed) :
    IsInline (String.ofList q.render) := by
  have hunit : ∀ c ∈ q.unitChars, isBreak c = false := by
    rcases h.unit with ⟨hsi, hnode⟩ | ⟨unit, hsi, hunit, hnode⟩ | ⟨node, hnode, hunit, hsi⟩
    · simp [Quantity.unitChars, Quantity.unit, hsi, hnode]
    · simpa [Quantity.unitChars, Quantity.unit, hsi, hnode, IsInline] using
        (isField_of_isUnitExpression hunit).isInline
    · simpa [Quantity.unitChars, Quantity.unit, hsi, hnode, IsInline] using
        (isField_of_isUnitsNode hunit).isInline
  refine Text.isInline_ofList.2 fun c hc => ?_
  rw [Quantity.render, List.mem_append, List.mem_append] at hc
  rcases hc with (hc | hc) | hc
  · exact ((Number.read_render h.number).1.isPlain c hc).isBreak
  · rcases h.tolerance with ⟨hlow, hhigh⟩ | ⟨low, high, hlow, hhigh, hlowFinite, hhighFinite⟩
    · simp [hlow, hhigh] at hc
    · simp only [hlow, hhigh, List.cons_append, List.mem_cons, List.mem_append, List.not_mem_nil,
        or_false] at hc
      rcases hc with rfl | (hc | rfl | hc) | rfl
      · decide
      · exact ((Quantity.read_renderTolerance hlowFinite).1.isPlain c hc).isBreak
      · decide
      · exact ((Quantity.read_renderTolerance hhighFinite).1.isPlain c hc).isBreak
      · decide
  · exact hunit c hc

theorem Coordinate.isInline_render {c : Coordinate} (h : c.WellFormed) :
    IsInline (String.ofList c.render) := by
  have hlatitude := Coordinate.degrees?_render h.isFinite.1
  have hlongitude := Coordinate.degrees?_render h.isFinite.2
  refine Text.isInline_ofList.2 fun d hd => ?_
  simp only [Coordinate.render, List.cons_append, List.mem_cons, List.mem_append] at hd
  rcases hd with rfl | hd | rfl | hd
  · decide
  · exact (hlatitude.2.isPlain d hd).isBreak
  · decide
  · exact (hlongitude.2.isPlain d hd).isBreak

theorem PointInTime.isInline_render {t : PointInTime} (h : t.WellFormed) :
    IsInline (String.ofList t.render) := by
  refine Text.isInline_ofList.2 fun c hc => ?_
  simp only [PointInTime.render, List.cons_append, List.mem_cons, List.mem_append] at hc
  rcases hc with rfl | hc | hc
  · decide
  · exact h.isField_text.isInline c hc
  · cases hprecision : t.precision with
    | none => simp [hprecision] at hc
    | some p =>
      simp only [hprecision, List.mem_cons] at hc
      rcases hc with rfl | hc
      · decide
      · exact (isField_toString p.toNat).isInline c hc

namespace Literal

/-- **The written form has no tab and no end of a line**, unless it is a symbol that has one. -/
theorem isInline_encode {v : Literal} (h : v.WellFormed)
    (hsymbol : ∀ s, v = symbol s → IsInline s) : IsInline v.encode := by
  rw [encode]
  cases v with
  | text t =>
    rw [render]
    exact Quoted.isInline_render (by decide) t
  | tagged t =>
    have htext : String.ofList (render (tagged t)) =
        String.ofList (Quoted.render '\'' t.text) ++ ("@" ++ t.tag) := by
      rw [← String.toList_inj]
      simp [render, TaggedText.render]
    rw [htext]
    exact Text.isInline_append.2 ⟨Quoted.isInline_render (by decide) _,
      Text.isInline_append.2 ⟨by decide, TaggedText.WellFormed.isInline_tag h⟩⟩
  | quantity q => exact Quantity.isInline_render h
  | coordinate c => exact Coordinate.isInline_render h
  | pointInTime t => exact PointInTime.isInline_render h
  | symbol s =>
    have htext : String.ofList (render (symbol s)) = s := String.ofList_toList
    rw [htext]
    exact hsymbol s rfl

end Literal

end FactGraph
