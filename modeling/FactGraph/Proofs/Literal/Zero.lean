import FactGraph.Proofs.Binary64.Zero
import FactGraph.Proofs.Literal.RoundTrip

/-!
# Literals up to the sign of zero

Columns of doubles keep no sign of zero, and neither does a written tolerance. What they keep of a
literal is the literal with its zeros made positive (`Literal.unsignedZeros`). Literals with the
same rest are equal (`Literal.same_of_unsignedZeros_eq`), and a well-formed literal that was written
and read has the same rest and the same written form (`Literal.exists_decode_encode`).
-/

namespace FactGraph

open Binary64

namespace Quantity

variable {x y : Option Binary64}

/-- The quantity with the zeros of its tolerance made positive. -/
def unsignedZeros (q : Quantity) : Quantity :=
  { q with
    lowTolerance := q.lowTolerance.map unsignedZero
    highTolerance := q.highTolerance.map unsignedZero }

theorem sameOption_of_map_eq (h : x.map unsignedZero = y.map unsignedZero)
    (hy : ∀ z ∈ y, z.isFinite = true) : sameOption x y = true := by
  cases x <;> cases y <;> simp_all [sameOption, numEq_of_unsignedZero_eq]

theorem map_eq_of_sameOption (h : sameOption x y = true) :
    x.map unsignedZero = y.map unsignedZero := by
  cases x <;> cases y <;> simp_all [sameOption, numEq_iff]

@[simp] theorem render_unsignedZeros (q : Quantity) : q.unsignedZeros.render = q.render := by
  obtain ⟨number, low, high, siUnits, unitsNode⟩ := q
  cases low <;> cases high <;> simp [unsignedZeros, render, unit, renderTolerance_unsignedZero]

theorem unsignedZeros_unsignedZeros (q : Quantity) :
    q.unsignedZeros.unsignedZeros = q.unsignedZeros := by
  simp [unsignedZeros, Function.comp_def]

theorem unsignedZeros_eq_iff {q r : Quantity} : q.unsignedZeros = r.unsignedZeros ↔
    q.number = r.number ∧ q.siUnits = r.siUnits ∧ q.unitsNode = r.unitsNode ∧
      q.lowTolerance.map unsignedZero = r.lowTolerance.map unsignedZero ∧
      q.highTolerance.map unsignedZero = r.highTolerance.map unsignedZero := by
  simp only [unsignedZeros, mk.injEq]
  tauto

theorem WellFormed.isFinite_tolerance {q : Quantity} (h : q.WellFormed) :
    (∀ x ∈ q.lowTolerance, x.isFinite = true) ∧ ∀ x ∈ q.highTolerance, x.isFinite = true := by
  rcases h.tolerance with ⟨hlow, hhigh⟩ | ⟨low, high, hlow, hhigh, hlowFinite, hhighFinite⟩
  · simp [hlow, hhigh]
  · simp [hlow, hhigh, hlowFinite, hhighFinite]

theorem wellFormed_of_unsignedZeros_eq {q r : Quantity} (h : r.unsignedZeros = q.unsignedZeros)
    (hq : q.WellFormed) : r.WellFormed := by
  obtain ⟨hnumber, hsi, hnode, hlow, hhigh⟩ := unsignedZeros_eq_iff.1 h
  refine ⟨hnumber ▸ hq.number, ?_, by rw [hsi, hnode]; exact hq.unit⟩
  rcases hq.tolerance with ⟨hnone, hnone'⟩ | ⟨low, high, hsome, hsome', hfinite, hfinite'⟩
  · rw [hnone] at hlow
    rw [hnone'] at hhigh
    exact .inl ⟨Option.map_eq_none_iff.1 hlow, Option.map_eq_none_iff.1 hhigh⟩
  · rw [hsome] at hlow
    rw [hsome'] at hhigh
    obtain ⟨x, hx, hxSame⟩ := Option.map_eq_some_iff.1 hlow
    obtain ⟨y, hy, hySame⟩ := Option.map_eq_some_iff.1 hhigh
    refine .inr ⟨x, y, hx, hy, ?_, ?_⟩
    · rw [← isFinite_unsignedZero, hxSame, isFinite_unsignedZero, hfinite]
    · rw [← isFinite_unsignedZero, hySame, isFinite_unsignedZero, hfinite']

theorem WellFormed.exists_read {q : Quantity} (h : q.WellFormed) :
    ∃ r, read (String.ofList q.render) = .ok r ∧ r.unsignedZeros = q.unsignedZeros := by
  obtain ⟨r, hread, hnumber, hsi, hnode, hlow, hhigh⟩ := h.exists_read_render
  exact ⟨r, hread, unsignedZeros_eq_iff.2
    ⟨hnumber, hsi, hnode, map_eq_of_sameOption hlow, map_eq_of_sameOption hhigh⟩⟩

end Quantity

namespace Coordinate

/-- The coordinate with its zeros made positive. -/
def unsignedZeros (c : Coordinate) : Coordinate :=
  ⟨c.latitude.unsignedZero, c.longitude.unsignedZero, c.precision.map unsignedZero⟩

theorem unsignedZeros_unsignedZeros (c : Coordinate) :
    c.unsignedZeros.unsignedZeros = c.unsignedZeros := by
  simp [unsignedZeros, Function.comp_def]

theorem within_congr {x y : Binary64} (h : x.unsignedZero = y.unsignedZero) (bound : Nat) :
    within bound x = within bound y := by
  rw [within, numLe_congr rfl h, numLe_congr h rfl, within]

theorem wellFormed_of_unsignedZeros_eq {c d : Coordinate} (h : d.unsignedZeros = c.unsignedZeros)
    (hc : c.WellFormed) : d.WellFormed := by
  obtain ⟨hlatitude, hlongitude, hprecision⟩ := mk.inj h
  refine ⟨(within_congr hlatitude 90).trans hc.latitude,
    (within_congr hlongitude 180).trans hc.longitude, ?_⟩
  rw [hc.precision] at hprecision
  exact Option.map_eq_none_iff.1 hprecision

end Coordinate

namespace Literal

/-- The literal with the zeros made positive that columns of doubles hold. -/
def unsignedZeros : Literal → Literal
  | quantity q => quantity q.unsignedZeros
  | coordinate c => coordinate c.unsignedZeros
  | v => v

variable {v w : Literal}

@[simp] theorem kind_unsignedZeros (v : Literal) : v.unsignedZeros.kind = v.kind := by
  cases v <;> rfl

theorem unsignedZeros_unsignedZeros (v : Literal) :
    v.unsignedZeros.unsignedZeros = v.unsignedZeros := by
  cases v with
  | quantity q => exact congrArg quantity q.unsignedZeros_unsignedZeros
  | coordinate c => exact congrArg coordinate c.unsignedZeros_unsignedZeros
  | _ => rfl

/-- **Literals with the same rest are equal.** -/
theorem same_of_unsignedZeros_eq (h : w.unsignedZeros = v.unsignedZeros) (hv : v.WellFormed) :
    w.same v = true := by
  cases v with
  | quantity q =>
    cases w with
    | quantity r =>
      obtain ⟨hnumber, hsi, hnode, hlow, hhigh⟩ :=
        Quantity.unsignedZeros_eq_iff.1 (quantity.inj h)
      obtain ⟨hlowFinite, hhighFinite⟩ := Quantity.WellFormed.isFinite_tolerance hv
      rw [same, Quantity.same_eq hnumber (hnumber ▸ Quantity.WellFormed.number hv) hsi hnode,
        Quantity.sameOption_of_map_eq hlow hlowFinite,
        Quantity.sameOption_of_map_eq hhigh hhighFinite]
      rfl
    | _ => cases h
  | coordinate c =>
    cases w with
    | coordinate d =>
      obtain ⟨hlatitude, hlongitude, hprecision⟩ :=
        Coordinate.mk.inj (coordinate.inj h)
      obtain ⟨hlatitudeFinite, hlongitudeFinite⟩ := Coordinate.WellFormed.isFinite hv
      rw [same, numEq_of_unsignedZero_eq hlatitude hlatitudeFinite,
        numEq_of_unsignedZero_eq hlongitude hlongitudeFinite,
        Quantity.sameOption_of_map_eq hprecision (by simp [hv.precision])]
      rfl
    | _ => cases h
  | _ => cases w <;> simp_all [unsignedZeros, same]

theorem wellFormed_of_unsignedZeros_eq (h : w.unsignedZeros = v.unsignedZeros)
    (hv : v.WellFormed) : w.WellFormed := by
  cases v with
  | quantity q =>
    cases w with
    | quantity r => exact Quantity.wellFormed_of_unsignedZeros_eq (quantity.inj h) hv
    | _ => cases h
  | coordinate c =>
    cases w with
    | coordinate d => exact Coordinate.wellFormed_of_unsignedZeros_eq (coordinate.inj h) hv
    | _ => cases h
  | _ => cases w <;> simp_all [unsignedZeros]

/-- The written form of a coordinate keeps the signs of its zeros, other written forms do not. -/
theorem encode_eq_of_unsignedZeros_eq (h : w.unsignedZeros = v.unsignedZeros)
    (hkind : v.kind ≠ .coordinate) : w.encode = v.encode := by
  cases v with
  | quantity q =>
    cases w with
    | quantity r =>
      rw [encode, encode, render, render, ← r.render_unsignedZeros, quantity.inj h,
        q.render_unsignedZeros]
    | _ => cases h
  | coordinate c => exact absurd rfl hkind
  | _ => cases w <;> simp_all [unsignedZeros]

/-- **A well-formed literal is written as it is read back**, up to the sign of zero. -/
theorem exists_decode_encode (h : v.WellFormed) :
    ∃ w, decode (encode v) = .ok w ∧ w.unsignedZeros = v.unsignedZeros ∧
      w.encode = v.encode := by
  cases v with
  | text t => exact ⟨_, decode_encode_text t, rfl, rfl⟩
  | tagged t => exact ⟨_, decode_encode_tagged h, rfl, rfl⟩
  | quantity q =>
    -- The tolerance may come back as the other zero, which is shown the same.
    obtain ⟨r, hread, hsame⟩ := Quantity.WellFormed.exists_read h
    have hzeros : (quantity r).unsignedZeros = (quantity q).unsignedZeros :=
      congrArg quantity hsame
    exact ⟨quantity r, by rw [decode_encode_quantity h, hread]; rfl, hzeros,
      encode_eq_of_unsignedZeros_eq hzeros (by simp [kind])⟩
  | coordinate c => exact ⟨_, decode_encode_coordinate h, rfl, rfl⟩
  | pointInTime t => exact ⟨_, decode_encode_pointInTime h, rfl, rfl⟩
  | symbol s =>
    obtain ⟨c, hhead, hc⟩ := h
    exact ⟨_, decode_encode_symbol hhead hc, rfl, rfl⟩

end Literal

end FactGraph
