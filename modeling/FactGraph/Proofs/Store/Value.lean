import FactGraph.Proofs.Literal.Decoding
import FactGraph.Proofs.Literal.Zero
import FactGraph.Proofs.Store.Session

/-!
# Values that were stored

The columns of a value keep all of it but the sign of zero in columns of doubles. Values that differ
in nothing else have the same columns (`Statement.row?_eq_of_unsignedZeros_eq`), and a value without
a number that is none reads back as itself with its zeros made positive
(`StoredValue.toValue_ofValue?`). The condition on units is that of a column that holds either kind
of unit: the text has to tell which (`Quantity.HasPlainUnit`). Values that were read from a literal
satisfy both (`Literal.hasNaN_of_decode`, `Literal.hasPlainUnit_of_decode`).
-/

namespace FactGraph

open Binary64

/-! ## Columns -/

theorem columnValue?_unsignedZero (x : Binary64) :
    columnValue? x.unsignedZero = columnValue? x := by
  rw [columnValue?, columnValue?, isNaN_unsignedZero, unsignedZero_unsignedZero]

theorem columnValue?_of_not_isNaN {x : Binary64} (h : x.isNaN = false) :
    columnValue? x = some x.unsignedZero := by
  rw [columnValue?, h]
  rfl

theorem bind_columnValue?_unsignedZero (x : Option Binary64) :
    (x.map unsignedZero).bind columnValue? = x.bind columnValue? := by
  cases x with
  | none => rfl
  | some x => exact columnValue?_unsignedZero x

theorem bind_columnValue?_of_not_isNaN {x : Option Binary64} (h : x.any isNaN = false) :
    x.bind columnValue? = x.map unsignedZero := by
  cases x with
  | none => rfl
  | some x => exact columnValue?_of_not_isNaN h

theorem numberOf_of_numberCell? {n : Number} {c : Cell} (h : numberCell? n = some c) :
    StoredValue.numberOf c = .ok n := by
  cases n with
  | int v =>
    cases h
    rfl
  | float x =>
    rw [numberCell?] at h
    split at h
    · cases h
    · cases h
      rfl

theorem precisionOf_toNat (p : UInt8) : StoredValue.precisionOf (p.toNat : Int) = some p := by
  have hlt : p.toNat < 256 := p.toNat_lt
  rw [StoredValue.precisionOf, if_pos (by omega), Int.toNat_natCast, UInt8.ofNat_toNat]

/-! ## Units -/

/-- The unit is an expression or a node or absent, and an expression is not taken for a node. -/
def Quantity.HasPlainUnit (q : Quantity) : Prop :=
  (q.siUnits = none ∨ q.unitsNode = none) ∧ (∀ unit ∈ q.siUnits, isUnitsNode unit = false) ∧
    ∀ node ∈ q.unitsNode, isUnitsNode node = true

theorem Quantity.HasPlainUnit.quantityOf_unit {q : Quantity} (h : q.HasPlainUnit)
    (low high : Option Binary64) :
    StoredValue.quantityOf q.number q.unit low high =
      { q with lowTolerance := low, highTolerance := high } := by
  obtain ⟨number, lowTolerance, highTolerance, siUnits, unitsNode⟩ := q
  obtain ⟨hone, hexpression, hnode⟩ := h
  -- Expressions and nodes share a column. A plain unit is told by its text to be of the kind that
  -- it is.
  cases siUnits with
  | some unit =>
    obtain rfl : unitsNode = none := by simpa using hone
    have hunit : isUnitsNode unit = false := hexpression unit rfl
    simp [StoredValue.quantityOf, Quantity.unit, withUnit, hunit]
  | none =>
    cases unitsNode with
    | none => rfl
    | some node =>
      have hunit : isUnitsNode node = true := hnode node rfl
      simp [StoredValue.quantityOf, Quantity.unit, withUnit, hunit]

/-- An expression starts with a letter that no node starts with. -/
theorem isUnitsNode_of_isUnitExpression {unit : String}
    (h : isUnitExpression unit.toList = true) : isUnitsNode unit = false := by
  unfold isUnitsNode isUnitsNodeText
  split
  next rest hunit =>
    rw [hunit] at h
    exact absurd rfl (Quantity.startsUnit_spec (Quantity.startsUnit_of_isUnitExpression h)).2.2
  next => rfl

theorem Quantity.Formed.hasPlainUnit {q : Quantity} (h : q.Formed) : q.HasPlainUnit := by
  rcases h.unit with ⟨hsi, hnode⟩ | ⟨unit, hsi, hunit, hnode⟩ | ⟨node, hnode, hunit, hsi⟩
  · simp [HasPlainUnit, hsi, hnode]
  · simp [HasPlainUnit, hsi, hnode, isUnitsNode_of_isUnitExpression hunit]
  · simp [HasPlainUnit, hsi, hnode, hunit]

/-! ## Values -/

namespace Value

/-- The value with the zeros made positive that columns of doubles hold. -/
def unsignedZeros : Value → Value
  | quantity q => quantity q.unsignedZeros
  | coordinate c => coordinate c.unsignedZeros
  | v => v

@[simp] theorem unsignedZeros_ofLiteral (v : Literal) :
    (ofLiteral v).unsignedZeros = ofLiteral v.unsignedZeros := by
  cases v <;> rfl

theorem kind_unsignedZeros (v : Value) : v.unsignedZeros.kind = v.kind := by cases v <;> rfl

/-- The unit of the value, if it has one, reads back. -/
def HasPlainUnit : Value → Prop
  | quantity q => q.HasPlainUnit
  | _ => True

end Value

/-- **A stored value reads back**, up to the sign of zero. -/
theorem StoredValue.toValue_ofValue? {v : Value} (hnumbers : v.hasNaN = false)
    (hunit : v.HasPlainUnit) {stored : StoredValue v.kind} (h : ofValue? v = some stored) :
    stored.toValue = .ok v.unsignedZeros := by
  cases v with
  | string text language => cases h; rfl
  | symbol s => cases h; rfl
  | pointInTime t =>
    cases h
    obtain ⟨text, precision, calendar⟩ := t
    cases precision with
    | none => rfl
    | some p =>
      simp only [toValue, Option.map_some, Option.bind_some, precisionOf_toNat]
      rfl
  | quantity q =>
    simp only [Value.hasNaN, Bool.or_eq_false_iff] at hnumbers
    obtain ⟨⟨-, hlow⟩, hhigh⟩ := hnumbers
    obtain ⟨number, hnumber, hstored⟩ := Option.bind_eq_some_iff.1 h
    cases hstored
    simp only [toValue, numberOf_of_numberCell? hnumber, bind_columnValue?_of_not_isNaN hlow,
      bind_columnValue?_of_not_isNaN hhigh, Except.map,
      Quantity.HasPlainUnit.quantityOf_unit hunit]
    rfl
  | coordinate c =>
    simp only [Value.hasNaN, Bool.or_eq_false_iff] at hnumbers
    obtain ⟨⟨hlatitude, hlongitude⟩, hprecision⟩ := hnumbers
    rw [ofValue?, columnValue?_of_not_isNaN hlatitude, columnValue?_of_not_isNaN hlongitude,
      bind_columnValue?_of_not_isNaN hprecision] at h
    cases h
    rfl

namespace Statement

/-- The statement with the zeros made positive that columns of doubles hold. -/
def unsignedZeros (s : Statement) : Statement := { s with value := s.value.unsignedZeros }

/-- The lists have the same statements, up to their order and the signs of zeros. -/
def Rearranged (statements others : List Statement) : Prop :=
  (statements.map unsignedZeros).Perm (others.map unsignedZeros)

theorem row?_unsignedZeros (e : Edge) (v : Value) :
    row? ⟨e, v.unsignedZeros⟩ = row? ⟨e, v⟩ := by
  cases v with
  | quantity q =>
    simp only [row?, Value.unsignedZeros, StoredValue.ofValue?, Quantity.unsignedZeros,
      bind_columnValue?_unsignedZero, Quantity.unit, Value.kind]
  | coordinate c =>
    simp only [row?, Value.unsignedZeros, StoredValue.ofValue?, Coordinate.unsignedZeros,
      bind_columnValue?_unsignedZero, columnValue?_unsignedZero, Value.kind]
  | _ => rfl

/-- **Statements that differ in the signs of zeros only have the same columns.** -/
theorem row?_eq_of_unsignedZeros_eq {x y : Statement} (hedge : x.edge = y.edge)
    (hvalue : x.value.unsignedZeros = y.value.unsignedZeros) : x.row? = y.row? := by
  rw [← row?_unsignedZeros x.edge x.value, hedge, hvalue, row?_unsignedZeros y.edge y.value]

end Statement

/-! ## Values that were read -/

theorem isNaN_ofRank (negative : Bool) (rank : Nat) : (ofRank negative rank).isNaN = false := rfl

theorem Number.isNaN_of_ofNumeral {n : Numeral} {number : Number} (h : ofNumeral n = .ok number) :
    number.toBinary64.isNaN = false := by
  have hofInt (z : Int) : (Number.ofInt z).toBinary64.isNaN = false := by
    rw [Number.ofInt]
    split <;> exact isNaN_ofRank ..
  -- A numeral gives an integer or a double that was put together from a rank, and each is a number.
  unfold ofNumeral at h
  split at h
  · cases h
    exact hofInt _
  · dsimp only at h
    split at h
    · cases h
      exact hofInt _
    · cases h
  · dsimp only at h
    split at h
    · cases h
      exact isNaN_ofRank ..
    · cases h

theorem Quantity.IsValueOf.hasNaN {q : Quantity} {s : Split} (h : q.IsValueOf s) :
    (Value.quantity q).hasNaN = false := by
  obtain ⟨number, low, high, siUnits, unitsNode⟩ := q
  obtain ⟨hnumber, htolerance, -, -⟩ := h
  have hends : low.any isNaN = false ∧ high.any isNaN = false := by
    rcases htolerance with ⟨-, hlow, hhigh⟩ | ⟨_, _, _, _, -, hlowRead, hhighRead, hlow, hhigh⟩
    · obtain ⟨rfl, rfl⟩ : low = none ∧ high = none := ⟨hlow, hhigh⟩
      exact ⟨rfl, rfl⟩
    · obtain ⟨rfl, rfl⟩ : low = some _ ∧ high = some _ := ⟨hlow, hhigh⟩
      exact ⟨Number.isNaN_of_ofNumeral hlowRead, Number.isNaN_of_ofNumeral hhighRead⟩
  have hread := Number.isNaN_of_ofNumeral hnumber
  cases number with
  | int v => simp [Value.hasNaN, hends]
  | float x => simpa [Value.hasNaN, hends, Number.toBinary64] using hread

namespace Literal

variable {s : String} {v : Literal}

/-- **Every number of a literal that is read is one.** -/
theorem hasNaN_of_decode (h : decode s = .ok v) : (Value.ofLiteral v).hasNaN = false := by
  obtain ⟨c, -, -, hread⟩ := decode_cases h
  cases v with
  | quantity q =>
    obtain ⟨split, -, hvalue, -⟩ := exists_split_of_read hread
    exact hvalue.hasNaN
  | coordinate d =>
    have hd := Coordinate.wellFormed_of_read hread
    obtain ⟨hlatitude, hlongitude⟩ := hd.isFinite
    simp [Value.ofLiteral, Value.hasNaN, isNaN_of_isFinite hlatitude,
      isNaN_of_isFinite hlongitude, hd.precision]
  | _ => rfl

theorem hasPlainUnit_of_decode (h : decode s = .ok v) : (Value.ofLiteral v).HasPlainUnit := by
  have hformed := (formed_of_decode h).1
  cases v with
  | quantity q => exact Quantity.Formed.hasPlainUnit hformed
  | _ => trivial

end Literal

end FactGraph
