import FactGraph.Proofs.Literal.Characters
import FactGraph.Proofs.Literal.Column
import FactGraph.Proofs.Literal.Decoding
import FactGraph.Proofs.Literal.Zero

/-!
# Values in columns

**Theorem (`Statement.valueOfExploded_of_holds`).** The value of a well-formed literal is read back
from its columns with its zeros made positive.

Columns without text and absent columns are the same when they are read, so the lemmas speak of a
row that holds the columns of a value up to that (`ExplodedRow.Holds`). A well-formed value has an
empty column in one case only: a text may be empty, and then its column is not needed
(`Statement.isField_of_mem_fieldOf`).
-/

namespace FactGraph

open Binary64
open Text (IsField)

theorem Fields.get?_ofFn (f : Field → Option String) (field : Field) :
    (Fields.ofFn f).get? field = f field := by
  -- For any list of fields, as the induction needs lists that do not have all of them.
  have hlist (fields : List Field) :
      ((fields.filterMap fun other => (f other).map (other, ·)).find? (·.1 = field)).map (·.2) =
        if field ∈ fields then f field else none := by
    induction fields with
    | nil => rfl
    | cons other fields ih =>
      by_cases hfield : other = field
      · subst hfield
        cases hother : f other with
        | none => simpa [List.filterMap_cons, hother] using ih
        | some text => simp [hother]
      · cases hother : f other with
        | none => simpa [List.filterMap_cons, hother, Ne.symm hfield] using ih
        | some text => simpa [List.filterMap_cons, hother, hfield, Ne.symm hfield] using ih
  have hall : field ∈ Field.all := by cases field <;> decide
  rw [Fields.get?, Fields.ofFn, hlist, if_pos hall]

namespace ExplodedRow

variable {row : ExplodedRow}

/-- The row has the columns of the value. -/
def Holds (row : ExplodedRow) (v : Value) : Prop :=
  ∀ field, row.field? field = (Statement.fieldOf v field).filter (!·.isEmpty)

theorem holds_toExploded (s : Statement) : s.toExploded.Holds s.value := by
  intro field
  rw [field?, Statement.toExploded, Fields.get?_ofFn]

theorem getD_get? (row : ExplodedRow) (field : Field) :
    (row.fields.get? field).getD "" = (row.field? field).getD "" := by
  rw [field?]
  cases row.fields.get? field with
  | none => rfl
  | some text => by_cases hempty : text = "" <;> simp [Option.filter, hempty]

end ExplodedRow

theorem Quantity.WellFormed.isField_units {q : Quantity} (h : q.WellFormed) :
    (∀ unit ∈ q.siUnits, IsField unit) ∧ ∀ node ∈ q.unitsNode, IsField node := by
  rcases h.unit with ⟨hsi, hnode⟩ | ⟨unit, hsi, hunit, hnode⟩ | ⟨node, hnode, hunit, hsi⟩
  · simp [hsi, hnode]
  · simp [hsi, hnode, isField_of_isUnitExpression hunit]
  · simp [hsi, hnode, isField_of_isUnitsNode hunit]

theorem TaggedText.WellFormed.splitTag_tag {t : TaggedText} (h : t.WellFormed) :
    splitTag t.tag = (t.language, t.suffix) := by
  have hletters : ∀ c ∈ t.language.toList, decide (c ≠ '-') = true := fun c hc => by
    have halpha := h.letters c hc
    refine decide_eq_true ?_
    rintro rfl
    cases halpha
  unfold splitTag tag
  cases hsuffix : t.suffix with
  | none =>
    have hspan : (t.language.toList ++ []).span (· ≠ '-') = (t.language.toList, []) :=
      span_append hletters (by simp)
    rw [List.append_nil] at hspan
    simp only [hspan]
  | some suffix =>
    have hspan : (t.language.toList ++ '-' :: suffix.toList).span (· ≠ '-') =
        (t.language.toList, '-' :: suffix.toList) := span_append hletters (by simp)
    have htag : (t.language ++ "-" ++ suffix).toList =
        t.language.toList ++ '-' :: suffix.toList := by simp
    rw [htag, hspan]
    simp only [String.ofList_toList]

theorem Value.toLiteral_ofLiteral {v : Literal} (h : v.WellFormed) :
    (ofLiteral v).toLiteral = v := by
  cases v with
  | tagged t =>
    have hsplit := TaggedText.WellFormed.splitTag_tag (t := t) h
    simp only [ofLiteral, toLiteral, TaggedText.ofTag, hsplit]
  | _ => rfl

theorem Literal.Formed.toLiteral_ofLiteral {v : Literal} (h : v.Formed) :
    (Value.ofLiteral v).toLiteral = v := by
  cases v with
  | tagged t => exact Value.toLiteral_ofLiteral h
  | _ => rfl

theorem TaggedText.tag_ofTag (text tag : String) : (ofTag text tag).tag = tag := by
  have hspan := List.span_eq_takeWhile_dropWhile (· ≠ '-') tag.toList
  have happend := List.takeWhile_append_dropWhile (p := (· ≠ '-')) (l := tag.toList)
  have hhead := List.head?_dropWhile_not (· ≠ '-') tag.toList
  rw [ofTag, splitTag, hspan]
  cases hrest : tag.toList.dropWhile (· ≠ '-') with
  | nil => rfl
  | cons c suffix =>
    rw [hrest] at happend hhead
    obtain rfl : c = '-' := by simpa using hhead
    refine String.toList_inj.1 ?_
    simpa [TaggedText.tag] using happend

theorem Value.ofLiteral_toLiteral (v : Value) : ofLiteral v.toLiteral = v := by
  cases v with
  | string text language =>
    cases language with
    | none => rfl
    | some tag => rw [toLiteral, ofLiteral, TaggedText.tag_ofTag]; rfl
  | _ => rfl

/-- Equal as two values are: doubles are compared as numbers. -/
def Value.same : Value → Value → Bool
  | quantity q, quantity r => q.same r
  | coordinate c, coordinate d => (Literal.coordinate c).same (.coordinate d)
  | v, w => v = w

theorem Value.toLiteral_inj {v w : Value} : v.toLiteral = w.toLiteral ↔ v = w := by
  refine ⟨fun h => ?_, congrArg toLiteral⟩
  rw [← v.ofLiteral_toLiteral, h, w.ofLiteral_toLiteral]

theorem Value.same_toLiteral (v w : Value) : v.toLiteral.same w.toLiteral = v.same w := by
  have hother (h : v.same w = decide (v = w))
      (h' : v.toLiteral.same w.toLiteral = decide (v.toLiteral = w.toLiteral)) :
      v.toLiteral.same w.toLiteral = v.same w := by
    rw [h, h', decide_eq_decide, toLiteral_inj]
  cases v with
  | quantity q => cases w with
    | string _ language => cases language <;> rfl
    | _ => rfl
  | coordinate c => cases w with
    | string _ language => cases language <;> rfl
    | _ => rfl
  | string _ language => cases language <;> exact hother rfl rfl
  | _ => exact hother rfl rfl
theorem Value.kind_ofLiteral (v : Literal) : (ofLiteral v).kind = v.kind := by
  cases v <;> rfl

namespace Statement

variable {row : ExplodedRow}

/-! ## Texts of columns -/

/-- **The texts of columns are neither empty nor broken**, but for texts and symbols. -/
theorem isField_of_mem_fieldOf {v : Literal} (h : v.WellFormed) {field : Field}
    (htext : field ≠ .text) (hsymbol : field ≠ .symbol) {text : String}
    (hmem : text ∈ fieldOf (.ofLiteral v) field) : IsField text := by
  have hdouble : ∀ {x : Option Binary64}, (∀ y ∈ x, y.isFinite = true) →
      x.map columnText = some text → IsField text := by
    intro x hx hmap
    obtain ⟨y, hy, rfl⟩ := Option.map_eq_some_iff.1 hmap
    exact isField_columnText (hx y hy)
  cases v with
  | text t =>
    cases field <;> simp only [Value.ofLiteral, fieldOf, Option.mem_def, reduceCtorEq] at hmem
    case text => exact absurd rfl htext
  | tagged t =>
    have hsplit := TaggedText.WellFormed.splitTag_tag h
    cases field <;> simp only [Value.ofLiteral, fieldOf, Option.mem_def, reduceCtorEq, hsplit,
      Option.some.injEq] at hmem
    case text => exact absurd rfl htext
    case language => exact hmem ▸ TaggedText.WellFormed.isField_language h
    case languageSuffix =>
      exact TaggedText.isField_of_isSuffix (TaggedText.WellFormed.suffix h text hmem)
  | quantity q =>
    obtain ⟨hlow, hhigh⟩ := Quantity.WellFormed.isFinite_tolerance h
    obtain ⟨hsi, hnode⟩ := Quantity.WellFormed.isField_units h
    cases field <;> simp only [Value.ofLiteral, fieldOf, Option.mem_def, reduceCtorEq,
      Option.some.injEq] at hmem
    case number => exact hmem ▸ Number.isField_text (Quantity.WellFormed.number h)
    case lowTolerance => exact hdouble hlow hmem
    case highTolerance => exact hdouble hhigh hmem
    case siUnits => exact hsi text hmem
    case unitsNode => exact hnode text hmem
  | coordinate c =>
    obtain ⟨hlatitude, hlongitude⟩ := Coordinate.WellFormed.isFinite h
    cases field <;> simp only [Value.ofLiteral, fieldOf, Option.mem_def, reduceCtorEq,
      Option.some.injEq] at hmem
    case latitude => exact hmem ▸ isField_columnText hlatitude
    case longitude => exact hmem ▸ isField_columnText hlongitude
    case precision => exact nomatch h.precision ▸ hmem
  | pointInTime t =>
    cases field <;> simp only [Value.ofLiteral, fieldOf, Option.mem_def, reduceCtorEq,
      Option.some.injEq] at hmem
    case dateAndTime => exact hmem ▸ PointInTime.WellFormed.isField_text h
    case precision =>
      obtain ⟨p, -, rfl⟩ := Option.map_eq_some_iff.1 hmem
      exact isField_toString p.toNat
    case calendar => exact nomatch h.calendar ▸ hmem
  | symbol s =>
    cases field <;> simp only [Value.ofLiteral, fieldOf, Option.mem_def, reduceCtorEq] at hmem
    case symbol => exact absurd rfl hsymbol

theorem field?_of_holds {v : Literal} (h : v.WellFormed) (hrow : row.Holds (.ofLiteral v))
    {field : Field} (htext : field ≠ .text) (hsymbol : field ≠ .symbol) :
    row.field? field = fieldOf (.ofLiteral v) field := by
  rw [hrow field]
  cases hfield : fieldOf (.ofLiteral v) field with
  | none => rfl
  | some text =>
    have hne := (isField_of_mem_fieldOf h htext hsymbol hfield).ne_empty
    simp [Option.filter, hne]

/-! ## Values -/

theorem required_of_some {field : Field} {text : String} (h : row.field? field = some text) :
    required row field = .ok text := by
  rw [required, h]

theorem optionalBinary64_of_map {field : Field} {x : Option Binary64}
    (hfield : row.field? field = x.map columnText) (hx : ∀ y ∈ x, y.isFinite = true) :
    optionalBinary64 row field = .ok (x.map unsignedZero) := by
  rw [optionalBinary64, hfield]
  cases x with
  | none => rfl
  | some x =>
    simp only [Option.map_some, readBinary64_columnText (hx x rfl)]
    rfl

theorem quantityOfExploded_of_holds {q : Quantity} (h : q.WellFormed)
    (hrow : row.Holds (.quantity q)) : quantityOfExploded row = .ok q.unsignedZeros := by
  have hfield (field : Field) (htext : field ≠ .text) (hsymbol : field ≠ .symbol) :
      row.field? field = fieldOf (.quantity q) field :=
    field?_of_holds (v := .quantity q) h hrow htext hsymbol
  obtain ⟨hlowFinite, hhighFinite⟩ := h.isFinite_tolerance
  have hlow := optionalBinary64_of_map (hfield .lowTolerance (by decide) (by decide)) hlowFinite
  have hhigh := optionalBinary64_of_map (hfield .highTolerance (by decide) (by decide)) hhighFinite
  have hnumber := required_of_some (hfield .number (by decide) (by decide))
  have hsi : row.field? .siUnits = q.siUnits := hfield .siUnits (by decide) (by decide)
  have hnode : row.field? .unitsNode = q.unitsNode := hfield .unitsNode (by decide) (by decide)
  rw [quantityOfExploded, hnumber, hlow, hhigh, hsi, hnode]
  simp only [bind, Except.bind, readNumber_text h.number, Quantity.unsignedZeros]
  rcases h.unit with ⟨-, hnodeNone⟩ | ⟨unit, -, -, hnodeNone⟩ | ⟨node, hnodeSome, hunit, hsiNone⟩
  · rw [hnodeNone]
  · rw [hnodeNone]
  · rw [hnodeSome, hsiNone]
    simp only [hunit, if_true]

theorem readByte?_toString : ∀ p ≤ finestPrecision,
    readByte? (toString p) = some (UInt8.ofNat p) := by
  decide +kernel

theorem pointInTimeOfExploded_of_holds {t : PointInTime} (h : t.WellFormed)
    (hrow : row.Holds (.pointInTime t)) : pointInTimeOfExploded row = .ok t := by
  have hfield (field : Field) (htext : field ≠ .text) (hsymbol : field ≠ .symbol) :
      row.field? field = fieldOf (.pointInTime t) field :=
    field?_of_holds (v := .pointInTime t) h hrow htext hsymbol
  have hprecision : row.field? .precision = t.precision.map fun p => toString p.toNat :=
    hfield .precision (by decide) (by decide)
  have htime := required_of_some (hfield .dateAndTime (by decide) (by decide))
  have hcalendar : row.field? .calendar = none :=
    (hfield .calendar (by decide) (by decide)).trans h.calendar
  have hparts := h.ofParts_text
  rw [pointInTimeOfExploded, hprecision, htime, hcalendar]
  cases hp : t.precision with
  | none =>
    rw [hp] at hparts
    simp only [Option.map_none, bind, Except.bind, hparts]
    rfl
  | some p =>
    rw [hp] at hparts
    have hbyte := readByte?_toString p.toNat (h.precision p hp)
    rw [UInt8.ofNat_toNat] at hbyte
    simp only [Option.map_some, hbyte, bind, Except.bind, hparts]
    rfl

theorem tagOfExploded_of_holds {t : TaggedText} (h : t.WellFormed)
    (hrow : row.Holds (.ofLiteral (.tagged t))) : tagOfExploded row = some t.tag := by
  have hsplit := h.splitTag_tag
  have hlanguage : row.field? .language = some t.language := by
    rw [field?_of_holds (v := .tagged t) h hrow (by decide) (by decide), Value.ofLiteral, fieldOf,
      hsplit]
  have hsuffix : row.field? .languageSuffix = t.suffix := by
    rw [field?_of_holds (v := .tagged t) h hrow (by decide) (by decide), Value.ofLiteral, fieldOf,
      hsplit]
  rw [tagOfExploded, hlanguage, hsuffix, TaggedText.tag]
  cases t.suffix <;> rfl

theorem coordinateOfExploded_of_holds {c : Coordinate} (h : c.WellFormed)
    (hrow : row.Holds (.coordinate c)) : coordinateOfExploded row = .ok c.unsignedZeros := by
  have hfield (field : Field) (htext : field ≠ .text) (hsymbol : field ≠ .symbol) :
      row.field? field = fieldOf (.coordinate c) field :=
    field?_of_holds (v := .coordinate c) h hrow htext hsymbol
  have hprecision : row.field? .precision = none := by
    rw [hfield .precision (by decide) (by decide), fieldOf, h.precision]
    rfl
  have hdegrees :=
    (Coordinate.wellFormed_of_unsignedZeros_eq c.unsignedZeros_unsignedZeros h).ofDegrees
  rw [coordinateOfExploded, required_of_some (hfield .latitude (by decide) (by decide)),
    required_of_some (hfield .longitude (by decide) (by decide))]
  simp only [Coordinate.unsignedZeros, h.precision, Option.map_none] at hdegrees ⊢
  simp only [bind, Except.bind, readBinary64_columnText h.isFinite.1,
    readBinary64_columnText h.isFinite.2, hdegrees, Except.mapError, optionalBinary64, hprecision]

/-- **A value is read back from its columns**, its zeros without their signs. -/
theorem valueOfExploded_of_holds {v : Literal} (h : v.WellFormed)
    (hrow : row.Holds (.ofLiteral v)) :
    valueOfExploded row v.kind = .ok (.ofLiteral v.unsignedZeros) := by
  have htext {text : String} (hfield : fieldOf (.ofLiteral v) .text = some text) :
      (row.fields.get? .text).getD "" = text := by
    rw [ExplodedRow.getD_get?, hrow .text, hfield]
    by_cases hempty : text = "" <;> simp [Option.filter, hempty]
  cases v with
  | text t =>
    have htag : tagOfExploded row = none := by
      rw [tagOfExploded, field?_of_holds h hrow (by decide) (by decide)]
      rfl
    rw [Literal.kind, valueOfExploded, htext rfl, htag]
    rfl
  | tagged t =>
    rw [Literal.kind, valueOfExploded, htext rfl, tagOfExploded_of_holds h hrow]
    rfl
  | quantity q =>
    rw [Literal.kind, valueOfExploded, quantityOfExploded_of_holds h hrow]
    rfl
  | coordinate c =>
    rw [Literal.kind, valueOfExploded, coordinateOfExploded_of_holds h hrow]
    rfl
  | pointInTime t =>
    rw [Literal.kind, valueOfExploded, pointInTimeOfExploded_of_holds h hrow]
    rfl
  | symbol s =>
    have hfield : row.field? .symbol = some s := by
      obtain ⟨c, hhead, -⟩ := h
      have hne : s ≠ "" := by
        rintro rfl
        cases hhead
      rw [hrow .symbol]
      simp [Value.ofLiteral, fieldOf, Option.filter, hne]
    rw [Literal.kind, valueOfExploded, required_of_some hfield]
    rfl

theorem ofTag_tag (kind : ValueKind) : ValueKind.ofTag kind.tag = .ok kind := by
  cases kind <;> decide

/-- **A row with the columns of a literal** is read as the statement of the literal, without the
signs of zeros. -/
theorem ofExploded_of_holds {v : Literal} (h : v.WellFormed) (hrow : row.Holds (.ofLiteral v))
    (htag : row.tag = v.kind.tag) :
    ofExploded row = .ok ⟨⟨row.id, row.node1, row.label, v.unsignedZeros.encode, v.kind⟩,
      .ofLiteral v.unsignedZeros⟩ := by
  have hzeros := Literal.wellFormed_of_unsignedZeros_eq v.unsignedZeros_unsignedZeros h
  rw [ofExploded, htag, ofTag_tag]
  simp only [bind, Except.bind, valueOfExploded_of_holds h hrow, Value.toLiteral_ofLiteral hzeros]

end Statement

end FactGraph
