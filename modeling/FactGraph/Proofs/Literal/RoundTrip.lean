import FactGraph.Literal.Basic
import FactGraph.Proofs.Literal.Coordinate
import FactGraph.Proofs.Literal.PointInTime
import FactGraph.Proofs.Literal.Quantity
import FactGraph.Proofs.Literal.Quoted

/-!
# Literals read back

**Theorem (`decode_encode`).** A well-formed literal is read back from its written form. Doubles are
compared as numbers, because a tolerance of negative zero is written as an integer.

The first character of the written form announces the kind of the literal (`announces`), and each
kind is read back by itself.
-/

namespace FactGraph

namespace Literal

/-! ## Kinds by their first character -/

/-- Announces something other than a symbol. -/
def isSigil (c : Char) : Bool :=
  c = '"' || c = '\'' || startsQuantity c || c = '@' || c = '^'

/-- The character announces a literal of this kind. -/
def announces (c : Char) : Literal → Bool
  | text _ => c = '"'
  | tagged _ => c = '\''
  | quantity _ => startsQuantity c
  | coordinate _ => c = '@'
  | pointInTime _ => c = '^'
  | symbol _ => !isSigil c

theorem startsQuantity_spec {c : Char} (h : startsQuantity c = true) :
    c ≠ '"' ∧ c ≠ '\'' ∧ c ≠ '@' ∧ c ≠ '^' := by
  refine ⟨?_, ?_, ?_, ?_⟩ <;> rintro rfl <;> cases h

theorem not_isSigil {c : Char} (h : isSigil c = false) :
    c ≠ '"' ∧ c ≠ '\'' ∧ startsQuantity c = false ∧ c ≠ '@' ∧ c ≠ '^' := by
  simpa [isSigil, and_assoc] using h

section

variable {s : String} {c : Char}

theorem decode_text (h : s.toList.head? = some '"') : decode s = (Quoted.read s).map text := by
  rw [decode, h]
  rfl

theorem decode_tagged (h : s.toList.head? = some '\'') :
    decode s = (TaggedText.read s).map tagged := by
  rw [decode, h]
  rfl

theorem decode_quantity (h : s.toList.head? = some c) (hc : startsQuantity c = true) :
    decode s = (Quantity.read s).map quantity := by
  obtain ⟨hdouble, hsingle, -, -⟩ := startsQuantity_spec hc
  rw [decode, h]
  simp only [if_neg hdouble, if_neg hsingle, if_pos hc]

theorem decode_coordinate (h : s.toList.head? = some '@') :
    decode s = (Coordinate.read s).map coordinate := by
  rw [decode, h]
  rfl

theorem decode_pointInTime (h : s.toList.head? = some '^') :
    decode s = (PointInTime.read s).map pointInTime := by
  rw [decode, h]
  rfl

theorem decode_symbol (h : s.toList.head? = some c) (hc : isSigil c = false) :
    decode s = .ok (symbol s) := by
  obtain ⟨hdouble, hsingle, hquantity, hat, hcaret⟩ := not_isSigil hc
  rw [decode, h]
  simp only [if_neg hdouble, if_neg hsingle, hquantity, Bool.false_eq_true, if_false, if_neg hat,
    if_neg hcaret]

end

/-! ## Well-formed literals -/

/-- The literal is one that its written form can stand for. -/
def WellFormed : Literal → Prop
  | text _ => True
  | tagged t => t.WellFormed
  | quantity q => q.WellFormed
  | coordinate c => c.WellFormed
  | pointInTime t => t.WellFormed
  | symbol s => ∃ c, s.toList.head? = some c ∧ isSigil c = false

/-- Equal as two literals are: doubles are compared as numbers. -/
def same : Literal → Literal → Bool
  | quantity q, quantity r => q.same r
  | coordinate c, coordinate d =>
    c.latitude.numEq d.latitude && c.longitude.numEq d.longitude &&
      Quantity.sameOption c.precision d.precision
  | v, w => v = w

theorem same_coordinate {c : Coordinate} (h : c.WellFormed) :
    (coordinate c).same (coordinate c) = true := by
  obtain ⟨hlatitude, hlongitude⟩ := h.isFinite
  simp [same, Binary64.numEq_self hlatitude, Binary64.numEq_self hlongitude, h.precision,
    Quantity.sameOption]

/-! ## The round trip -/

/-- The written form is read as an equal literal. -/
def ReadsBack (v : Literal) : Prop := ∃ w, decode (encode v) = .ok w ∧ w.same v = true

theorem decode_encode_text (t : String) : decode (encode (text t)) = .ok (text t) := by
  rw [decode_text (by rw [encode, String.toList_ofList]; rfl), encode, render, Quoted.read_render]
  rfl

theorem readsBack_text (t : String) : (text t).ReadsBack :=
  ⟨text t, decode_encode_text t, by simp [same]⟩

theorem decode_encode_tagged {t : TaggedText} (h : t.WellFormed) :
    decode (encode (tagged t)) = .ok (tagged t) := by
  rw [decode_tagged (by rw [encode, String.toList_ofList]; rfl), encode, render, h.read_render]
  rfl

theorem readsBack_tagged {t : TaggedText} (h : t.WellFormed) : (tagged t).ReadsBack :=
  ⟨tagged t, decode_encode_tagged h, by simp [same]⟩

/-- A quantity announces itself by the first character of its number. -/
theorem decode_encode_quantity {q : Quantity} (h : q.WellFormed) :
    decode (encode (quantity q)) = (Quantity.read (String.ofList q.render)).map quantity := by
  obtain ⟨c, rest, hnumber, hc⟩ := (Number.read_render h.number).1.exists_cons
  have hhead : (encode (quantity q)).toList.head? = some c := by
    rw [encode, String.toList_ofList, render, Quantity.render, hnumber]
    rfl
  have hstarts : startsQuantity c = true := by
    rcases hc with hdigit | rfl
    · simp [startsQuantity, hdigit]
    · rfl
  rw [decode_quantity hhead hstarts, encode, render]

theorem readsBack_quantity {q : Quantity} (h : q.WellFormed) : (quantity q).ReadsBack := by
  obtain ⟨r, hread, hsame⟩ := h.read_render
  refine ⟨quantity r, ?_, hsame⟩
  rw [decode_encode_quantity h, hread]
  rfl

theorem decode_encode_coordinate {c : Coordinate} (h : c.WellFormed) :
    decode (encode (coordinate c)) = .ok (coordinate c) := by
  rw [decode_coordinate (by rw [encode, String.toList_ofList]; rfl), encode, render, h.read_render]
  rfl

theorem readsBack_coordinate {c : Coordinate} (h : c.WellFormed) : (coordinate c).ReadsBack :=
  ⟨coordinate c, decode_encode_coordinate h, same_coordinate h⟩

theorem decode_encode_pointInTime {t : PointInTime} (h : t.WellFormed) :
    decode (encode (pointInTime t)) = .ok (pointInTime t) := by
  rw [decode_pointInTime (by rw [encode, String.toList_ofList]; rfl), encode, render,
    h.read_render]
  rfl

theorem readsBack_pointInTime {t : PointInTime} (h : t.WellFormed) : (pointInTime t).ReadsBack :=
  ⟨pointInTime t, decode_encode_pointInTime h, by simp [same]⟩

theorem decode_encode_symbol {s : String} {c : Char} (hhead : s.toList.head? = some c)
    (hc : isSigil c = false) : decode (encode (symbol s)) = .ok (symbol s) := by
  rw [encode, render, String.ofList_toList, decode_symbol hhead hc]

theorem readsBack_symbol {s : String} {c : Char} (hhead : s.toList.head? = some c)
    (hc : isSigil c = false) : (symbol s).ReadsBack :=
  ⟨symbol s, decode_encode_symbol hhead hc, by simp [same]⟩

/-- **A well-formed literal is read back from its written form.** -/
theorem decode_encode {v : Literal} (h : v.WellFormed) :
    ∃ w, decode (encode v) = .ok w ∧ w.same v = true := by
  cases v with
  | text t => exact readsBack_text t
  | tagged t => exact readsBack_tagged h
  | quantity q => exact readsBack_quantity h
  | coordinate c => exact readsBack_coordinate h
  | pointInTime t => exact readsBack_pointInTime h
  | symbol s =>
    obtain ⟨c, hhead, hc⟩ := h
    exact readsBack_symbol hhead hc

/-- A momentum with a tolerance whose low end, negative zero, comes back as zero. -/
theorem decode_encode_momentum :
    let v := quantity ⟨.int 5, some (.ranked true 0 (Nat.zero_le _)), some .zero,
      some "kg.m/s", none⟩
    v.WellFormed ∧ ∃ w, decode (encode v) = .ok w ∧ w.same v = true := by
  intro v
  have h : v.WellFormed :=
    ⟨rfl, .inr ⟨_, _, rfl, rfl, rfl, rfl⟩, .inr (.inl ⟨_, rfl, by decide, rfl⟩)⟩
  exact ⟨h, decode_encode h⟩

end Literal

end FactGraph
