import FactGraph.Proofs.Row.Columns
import FactGraph.Proofs.Row.Explosion

/-!
# What packed rows are read as

**Theorem (`Statement.ofExploded_readsBack_iff`).** The written value of a statement that was read
from columns is read as its value *exactly if* the value is writable.

A literal is read back from its written form only if it is well-formed (`Literal.readsBack_iff`):
whatever is read has the form of its kind. Of that form the columns are checked for a part only
(`Value.IsChecked`): degrees, the text and the precision of a point in time, and the node of a unit.
What they leave open is the rest (`Value.IsWritable`): the form of a language tag and of a unit
expression, a tolerance with one end, numbers that are not finite, and symbols that start like
another kind.
-/

namespace FactGraph

/-! ## Literals that are read back -/

theorem Quantity.Formed.of_same {q r : Quantity} (h : q.Formed) (hsame : q.same r = true) :
    r.Formed := by
  simp only [same, Bool.and_eq_true, decide_eq_true_eq] at hsame
  obtain ⟨⟨⟨⟨-, hlow⟩, hhigh⟩, hsi⟩, hnode⟩ := hsame
  have hlow := map_eq_of_sameOption hlow
  have hhigh := map_eq_of_sameOption hhigh
  refine ⟨?_, hsi ▸ hnode ▸ h.unit⟩
  rcases h.tolerance with ⟨hlowNone, hhighNone⟩ | ⟨low, high, hlowSome, hhighSome⟩
  · rw [hlowNone] at hlow
    rw [hhighNone] at hhigh
    exact .inl ⟨Option.map_eq_none_iff.1 hlow.symm, Option.map_eq_none_iff.1 hhigh.symm⟩
  · rw [hlowSome] at hlow
    rw [hhighSome] at hhigh
    obtain ⟨x, hx, -⟩ := Option.map_eq_some_iff.1 hlow.symm
    obtain ⟨y, hy, -⟩ := Option.map_eq_some_iff.1 hhigh.symm
    exact .inr ⟨x, y, hx, hy⟩

namespace Literal

theorem wellFormed_of_same_coordinate {c d : Coordinate} (h : c.WellFormed)
    (hsame : (coordinate c).same (coordinate d) = true) : d.WellFormed := by
  simp only [same, Bool.and_eq_true] at hsame
  obtain ⟨⟨hlatitude, hlongitude⟩, hprecision⟩ := hsame
  refine Coordinate.wellFormed_of_unsignedZeros_eq ?_ h
  rw [Coordinate.unsignedZeros, Coordinate.unsignedZeros, (Binary64.numEq_iff.1 hlatitude).2,
    (Binary64.numEq_iff.1 hlongitude).2, Quantity.map_eq_of_sameOption hprecision]

theorem Formed.of_same {v w : Literal} (h : w.Formed) (hsame : w.same v = true) : v.Formed := by
  cases w with
  | quantity q =>
    cases v with
    | quantity r => exact Quantity.Formed.of_same h hsame
    | _ => cases hsame
  | coordinate c =>
    cases v with
    | coordinate d => exact wellFormed_of_same_coordinate h hsame
    | _ => cases hsame
  | _ => exact of_decide_eq_true hsame ▸ h

/-- **Exactly the well-formed literals are read back from their written forms.** -/
theorem readsBack_iff (v : Literal) : v.ReadsBack ↔ v.WellFormed := by
  constructor
  · rintro ⟨w, hdecode, hsame⟩
    have hformed := (formed_of_decode hdecode).1.of_same hsame
    exact hformed.wellFormed_iff.2 (hformed.readsBack_iff.1 ⟨w, hdecode, hsame⟩)
  · exact decode_encode

end Literal

/-! ## Values from columns -/

namespace Value

/-- The value without what its literal does not carry: the precision of a coordinate and the
calendar of a point in time. -/
def bare : Value → Value
  | coordinate c => coordinate { c with precision := none }
  | pointInTime t => pointInTime { t with calendar := none }
  | v => v

theorem encode_bare (v : Value) : v.bare.toLiteral.encode = v.toLiteral.encode := by
  cases v with
  | string _ language => cases language <;> rfl
  | _ => rfl

@[simp] theorem kind_bare (v : Value) : v.bare.kind = v.kind := by cases v <;> rfl

theorem kind_eq_of_same {v w : Value} (h : v.same w = true) : v.kind = w.kind := by
  cases v <;> cases w <;> first | rfl | cases h

/-- What the columns of a value are checked for. -/
def IsChecked : Value → Prop
  | quantity q => ∀ node ∈ q.unitsNode, isUnitsNode node = true ∧ q.siUnits = none
  | coordinate c => Coordinate.WellFormed { c with precision := none }
  | pointInTime t => PointInTime.WellFormed { t with calendar := none }
  | _ => True

/-- What the columns of a value are not checked for and its literal needs: the form of a language
tag and of a unit expression, a tolerance with both ends or none, finite numbers, and a symbol that
does not start like another kind. -/
def IsWritable : Value → Prop
  | string text language => ∀ tag ∈ language, (TaggedText.ofTag text tag).WellFormed
  | quantity q => q.isFinite = true ∧ q.lowTolerance.isSome = q.highTolerance.isSome ∧
      ∀ unit ∈ q.siUnits, isUnitExpression unit.toList = true
  | symbol s => ∃ c, s.toList.head? = some c ∧ Literal.isSigil c = false
  | _ => True

theorem formed_iff {q : Quantity} (h : (quantity q).IsChecked) :
    q.Formed ↔ q.lowTolerance.isSome = q.highTolerance.isSome ∧
      ∀ unit ∈ q.siUnits, isUnitExpression unit.toList = true := by
  constructor
  · rintro ⟨htolerance, hunit⟩
    constructor
    · rcases htolerance with ⟨hlow, hhigh⟩ | ⟨low, high, hlow, hhigh⟩ <;> simp [hlow, hhigh]
    · rcases hunit with ⟨hsi, -⟩ | ⟨unit, hsi, hunit, -⟩ | ⟨-, -, -, hsi⟩ <;> rw [hsi]
      · exact nofun
      · exact fun other hother => Option.some.inj hother ▸ hunit
      · exact nofun
  · rintro ⟨hends, hsi⟩
    constructor
    · cases hlow : q.lowTolerance <;> cases hhigh : q.highTolerance <;>
        simp_all
    · cases hnode : q.unitsNode with
      | some node => exact .inr (.inr ⟨node, rfl, h node hnode⟩)
      | none =>
        cases hunit : q.siUnits with
        | none => exact .inl ⟨rfl, rfl⟩
        | some unit => exact .inr (.inl ⟨unit, rfl, hsi unit hunit, rfl⟩)

/-- **What was checked and is writable is well-formed**, and nothing else that was checked is. -/
theorem IsChecked.wellFormed_iff {v : Value} (h : v.IsChecked) :
    v.bare.toLiteral.WellFormed ↔ v.IsWritable := by
  cases v with
  | string text language =>
    cases language with
    | none => exact iff_of_true True.intro nofun
    | some tag => exact ⟨fun htag _ hmem => Option.some.inj hmem ▸ htag, fun htag => htag tag rfl⟩
  | pointInTime t => exact iff_of_true h True.intro
  | coordinate c => exact iff_of_true h True.intro
  | symbol s => rfl
  | quantity q =>
    constructor
    · intro (hq : q.WellFormed)
      exact ⟨hq.formed.wellFormed_iff.1 hq, (formed_iff h).1 hq.formed⟩
    · rintro ⟨hfinite, hform⟩
      exact ((formed_iff h).2 hform).wellFormed_iff.2 hfinite

end Value

namespace Statement

variable {row : ExplodedRow}

theorem isChecked_of_quantityOfExploded {q : Quantity} (h : quantityOfExploded row = .ok q) :
    (Value.quantity q).IsChecked := by
  obtain ⟨text, -, h⟩ := exists_of_bind_eq_ok h
  obtain ⟨number, -, h⟩ := exists_of_bind_eq_ok h
  obtain ⟨low, -, h⟩ := exists_of_bind_eq_ok h
  obtain ⟨high, -, h⟩ := exists_of_bind_eq_ok h
  split at h
  next node _ =>
    split at h
    next hnode =>
      cases h
      exact fun other hother => ⟨Option.some.inj hother ▸ hnode, rfl⟩
    next => cases h
  next =>
    cases h
    exact nofun

theorem isChecked_of_pointInTimeOfExploded {t : PointInTime}
    (h : pointInTimeOfExploded row = .ok t) : (Value.pointInTime t).IsChecked := by
  have hparts {precision : Option UInt8} (h : (do
      let text ← required row .dateAndTime
      (PointInTime.ofParts text precision (row.field? .calendar)).mapError .literal) = .ok t) :
      (Value.pointInTime t).IsChecked := by
    obtain ⟨text, -, h⟩ := exists_of_bind_eq_ok h
    exact PointInTime.wellFormed_of_ofParts (of_mapError_eq_ok h)
  unfold pointInTimeOfExploded at h
  split at h
  · split at h
    · exact hparts h
    · cases h
  · exact hparts h

theorem isChecked_of_coordinateOfExploded {c : Coordinate}
    (h : coordinateOfExploded row = .ok c) : (Value.coordinate c).IsChecked := by
  obtain ⟨latitudeText, -, h⟩ := exists_of_bind_eq_ok h
  obtain ⟨latitude, -, h⟩ := exists_of_bind_eq_ok h
  obtain ⟨longitudeText, -, h⟩ := exists_of_bind_eq_ok h
  obtain ⟨longitude, -, h⟩ := exists_of_bind_eq_ok h
  obtain ⟨d, hd, h⟩ := exists_of_bind_eq_ok h
  obtain ⟨precision, -, h⟩ := exists_of_bind_eq_ok h
  cases h
  have hd := Coordinate.wellFormed_of_ofDegrees (of_mapError_eq_ok hd)
  exact ⟨hd.latitude, hd.longitude, rfl⟩

/-- **The value of columns is checked** and of the kind that was asked for. -/
theorem isChecked_of_valueOfExploded {kind : ValueKind} {v : Value}
    (h : valueOfExploded row kind = .ok v) : v.IsChecked ∧ v.kind = kind := by
  cases kind with
  | quantity =>
    obtain ⟨q, hq, rfl⟩ := exists_of_map_eq_ok h
    exact ⟨isChecked_of_quantityOfExploded hq, rfl⟩
  | dateAndTime =>
    obtain ⟨t, ht, rfl⟩ := exists_of_map_eq_ok h
    exact ⟨isChecked_of_pointInTimeOfExploded ht, rfl⟩
  | string =>
    cases h
    exact ⟨True.intro, rfl⟩
  | coordinate =>
    obtain ⟨c, hc, rfl⟩ := exists_of_map_eq_ok h
    exact ⟨isChecked_of_coordinateOfExploded hc, rfl⟩
  | symbol =>
    obtain ⟨s, -, rfl⟩ := exists_of_map_eq_ok h
    exact ⟨True.intro, rfl⟩

theorem isChecked_of_ofExploded {s : Statement} (h : ofExploded row = .ok s) :
    s.value.IsChecked ∧ s.edge.kind = s.value.kind ∧
      s.edge.node2 = s.value.toLiteral.encode := by
  unfold ofExploded at h
  split at h
  next => cases h
  next kind _ =>
    obtain ⟨v, hv, h⟩ := exists_of_bind_eq_ok h
    cases h
    obtain ⟨hchecked, hkind⟩ := isChecked_of_valueOfExploded hv
    exact ⟨hchecked, hkind.symm, rfl⟩

/-! ## Reading what was packed -/

variable {s : Statement}

/-- The written value of the statement is read as its value, but for what literals do not carry. -/
def ReadsBack (s : Statement) : Prop :=
  ∃ v, Literal.decode s.edge.node2 = .ok v ∧ (Value.ofLiteral v).same s.value.bare = true

theorem readsBack_iff (h : ofExploded row = .ok s) : s.ReadsBack ↔ s.value.IsWritable := by
  obtain ⟨hchecked, -, hnode2⟩ := isChecked_of_ofExploded h
  rw [← hchecked.wellFormed_iff, ← Literal.readsBack_iff, ReadsBack, Literal.ReadsBack, hnode2,
    Value.encode_bare]
  refine exists_congr fun v => and_congr_right fun hdecode => ?_
  rw [← Value.same_toLiteral, (Literal.formed_of_decode hdecode).1.toLiteral_ofLiteral]

/-- **A packed row is read again** as a statement of the same kind and value exactly if the value is
writable and neither node nor label is blank. -/
theorem explodeRow_toFlat_iff (h : ofExploded row = .ok s) (seen : List Triple) :
    (∃ t seen', explodeRow seen s.toFlat = .ok (t, seen') ∧ t.edge.kind = s.edge.kind ∧
      t.value.same s.value.bare = true) ↔
    s.value.IsWritable ∧ Text.isBlankText s.edge.node1 = false ∧
      Text.isBlankText s.edge.label = false := by
  rw [← readsBack_iff h]
  have hkind := (isChecked_of_ofExploded h).2.1
  constructor
  · rintro ⟨t, seen', hrow, -, hsame⟩
    rcases explodeRow_cases seen s.toFlat with ⟨haccepted, u, seen'', hrow', hgives⟩ |
        ⟨-, fault, hrow'⟩
    · obtain ⟨rfl, rfl⟩ := Prod.mk.inj (Except.ok.inj (hrow'.symm.trans hrow))
      obtain ⟨hnode1, hlabel, -⟩ := FlatRow.isAccepted_iff.1 haccepted
      obtain ⟨v, hdecode, ht⟩ := hgives.literal
      rw [ht] at hsame
      exact ⟨⟨v, hdecode, hsame⟩, hnode1, hlabel⟩
    · cases hrow'.symm.trans hrow
  · rintro ⟨⟨v, hdecode, hsame⟩, hnode1, hlabel⟩
    have haccepted : s.toFlat.isAccepted = true :=
      FlatRow.isAccepted_iff.2 ⟨hnode1, hlabel, v, hdecode⟩
    rcases explodeRow_cases seen s.toFlat with ⟨-, t, seen', hrow, hgives⟩ | ⟨hrejected, -⟩
    · obtain ⟨w, hdecode', ht⟩ := hgives.literal
      obtain rfl : v = w := Except.ok.inj (hdecode.symm.trans hdecode')
      have htvalue : t.value = .ofLiteral v := by rw [ht]; rfl
      have htkind : t.edge.kind = v.kind := by rw [ht]; rfl
      refine ⟨t, seen', hrow, ?_, htvalue ▸ hsame⟩
      rw [htkind, hkind, ← Value.kind_ofLiteral, Value.kind_eq_of_same hsame, Value.kind_bare]
    · rw [haccepted] at hrejected
      cases hrejected

/-- **What is packed is read again exactly if it is writable.** The written value of a statement
from columns is read as its value exactly if the value is writable, and its flat row is read, as a
statement of the same kind and value, exactly if moreover neither node nor label is blank. -/
theorem ofExploded_readsBack_iff (h : ofExploded row = .ok s) :
    implode row = .ok s.toFlat ∧ (s.ReadsBack ↔ s.value.IsWritable) ∧
    ∀ seen, (∃ t seen', explodeRow seen s.toFlat = .ok (t, seen') ∧ t.edge.kind = s.edge.kind ∧
        t.value.same s.value.bare = true) ↔
      s.value.IsWritable ∧ Text.isBlankText s.edge.node1 = false ∧
        Text.isBlankText s.edge.label = false :=
  ⟨congrArg (Except.map toFlat) h, readsBack_iff h, explodeRow_toFlat_iff h⟩

/-- A momentum with a tolerance is read back. -/
theorem ofExploded_readsBack_iff_momentum :
    ∃ s, ofExploded ⟨"e1", "Q1", "P1", "", "quantity", [(.number, "0x1F"), (.lowTolerance, "-0"),
        (.highTolerance, "+1_0e2"), (.siUnits, "kg.m2/s-1")]⟩ = .ok s ∧
      s.edge.node2 = "31[0,1000]kg.m2/s-1" ∧ s.ReadsBack := by
  have hread : ofExploded ⟨"e1", "Q1", "P1", "", "quantity", [(.number, "0x1F"),
      (.lowTolerance, "-0"), (.highTolerance, "+1_0e2"), (.siUnits, "kg.m2/s-1")]⟩ =
      .ok (.ofLiteral "e1" "Q1" "P1" (.quantity ⟨.int 31, some .zero, some (.ofInt 1000),
        some "kg.m2/s-1", none⟩)) := by decide +kernel
  refine ⟨_, hread, by decide +kernel, (ofExploded_readsBack_iff hread).2.1.2 ?_⟩
  exact ⟨by decide +kernel, rfl, fun unit hunit => Option.some.inj hunit ▸ by decide⟩

/-- A unit that is none is packed, and then not read. -/
theorem not_readsBack_of_unit :
    ∃ s, ofExploded ⟨"e1", "Q1", "P1", "", "quantity", [(.number, "5"), (.siUnits, "xyz")]⟩ =
        .ok s ∧ s.edge.node2 = "5xyz" ∧ ¬ s.ReadsBack ∧
      ∀ seen, explodeRow seen s.toFlat = .error (.node2 (.quantity "5xyz")) := by
  have hread : ofExploded ⟨"e1", "Q1", "P1", "", "quantity", [(.number, "5"),
      (.siUnits, "xyz")]⟩ = .ok (.ofLiteral "e1" "Q1" "P1"
        (.quantity ⟨.int 5, none, none, some "xyz", none⟩)) := by decide +kernel
  have hdecode : Literal.decode "5xyz" = .error (.quantity "5xyz") := by decide +kernel
  have hnode2 : (Literal.quantity ⟨.int 5, none, none, some "xyz", none⟩).encode = "5xyz" := by
    decide +kernel
  refine ⟨_, hread, hnode2, ?_, fun seen => ?_⟩
  · rintro ⟨v, hv, -⟩
    rw [ofLiteral, hnode2, hdecode] at hv
    cases hv
  · rw [explodeRow, toFlat, ofLiteral, hnode2, hdecode]
    rfl

end Statement

end FactGraph
