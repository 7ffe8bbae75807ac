import FactGraph.Literal.Coordinate
import FactGraph.Proofs.Literal.Numeral

/-!
# Coordinates read back

Degrees are written without exponent and are read back exactly (`Coordinate.degrees?_render`), and
so are coordinates in range (`Coordinate.WellFormed.read_render`). What is read is in range
(`Coordinate.wellFormed_of_read`).
-/

namespace FactGraph

namespace Coordinate

/-- The coordinate is in range, and has no precision. -/
structure WellFormed (c : Coordinate) : Prop where
  latitude : within 90 c.latitude = true
  longitude : within 180 c.longitude = true
  precision : c.precision = none

theorem isFinite_of_within {bound : Nat} (hbound : (Binary64.ofInt bound).isFinite = true)
    {x : Binary64} (h : within bound x = true) : x.isFinite = true := by
  obtain ⟨hlow, hhigh⟩ := Bool.and_eq_true_iff.1 h
  cases x with
  | nan => cases hhigh
  | ranked negative rank le =>
    have hrank : rank ≤ min (Binary64.nearestRank bound 1) infinityRank := by
      simp only [Binary64.ofInt, Binary64.ofRank, Binary64.numLe, Binary64.key, Int.natAbs_neg,
        Int.natAbs_natCast, decide_eq_true_eq] at hlow hhigh
      cases negative
      · simp only [Bool.false_eq_true, if_false] at hhigh
        split at hhigh <;> omega
      · simp only [if_true] at hlow
        split at hlow <;> omega
    have hfinite : min (Binary64.nearestRank bound 1) infinityRank < infinityRank :=
      of_decide_eq_true hbound
    exact decide_eq_true (hrank.trans_lt hfinite)

theorem WellFormed.isFinite {c : Coordinate} (h : c.WellFormed) :
    c.latitude.isFinite = true ∧ c.longitude.isFinite = true :=
  ⟨isFinite_of_within (by decide +kernel) h.latitude,
    isFinite_of_within (by decide +kernel) h.longitude⟩

theorem exists_written_column {negative : Bool} {rank : Nat} {le : rank ≤ infinityRank}
    (hrank : rank < infinityRank) :
    ∃ w : Written, w.Valid ∧ w.exp = none ∧
      NumberForm.column.render (.ranked negative rank le) = signText negative ++ w.text ∧
      w.rank = rank := by
  obtain ⟨w, hvalid, hexp, htext, hvalue⟩ :=
    NumberForm.column_decimalText (Decimal.shortest .up rank)
  refine ⟨w, hvalid, hexp, ?_, by rw [hvalue, Decimal.decimalRank_shortest .up hrank]⟩
  rw [← htext, NumberForm.render, if_neg hrank.ne]
  rfl

/-- **Finite degrees are read back.** -/
theorem degrees?_render {x : Binary64} (hx : x.isFinite = true) :
    degrees? (NumberForm.column.render x) = some x ∧ IsWritten (NumberForm.column.render x) := by
  cases x with
  | nan => cases hx
  | ranked negative rank le =>
    obtain ⟨w, hvalid, hexp, hrender, hrank⟩ :=
      exists_written_column (of_decide_eq_true hx)
    rw [hrender]
    refine ⟨?_, negative, w, hvalid, rfl⟩
    have hmantissa : w.text = w.mantissa := by simp [Written.text, Written.mantissa, hexp]
    have hspan : w.text.span Char.isDigit =
        (digitText w.whole, (w.fraction.map fun ds => '.' :: digitText ds).getD []) := by
      rw [hmantissa]
      refine span_append (fun c hc => isDigit_of_mem_digitText hvalid.whole hc) fun c hc => ?_
      rw [Written.eq_point_of_head? hc]
      rfl
    have htail : ((w.fraction.map fun ds => '.' :: digitText ds).getD []).tail =
        digitText (w.fraction.getD []) := by
      cases w.fraction <;> rfl
    have hsign := Written.splitSign_text hvalid negative []
    rw [List.append_nil] at hsign
    have hdigits : (digitText w.whole ++ digitText (w.fraction.getD [])).filterMap
        (digitValue? 10) = w.digits := by
      rw [← digitText_append]
      exact filterMap_digitText hvalid.digits
    have hvalue : Binary64.ofDecimal negative (valueOfDigits 10 w.digits)
        (-((digitText (w.fraction.getD [])).length : Int)) = .ranked negative rank le := by
      have hrankEq : Binary64.decimalRank (valueOfDigits 10 w.digits)
          (-((digitText (w.fraction.getD [])).length : Int)) = rank := by
        rw [← hrank, Written.rank, hexp, length_digitText, Option.getD_none, zero_sub]
      rw [Binary64.ofDecimal, hrankEq]
      simp [Binary64.ofRank, le]
    have hpoint : (((w.fraction.map fun ds => '.' :: digitText ds).getD []).isEmpty ||
        ((w.fraction.map fun ds => '.' :: digitText ds).getD []).head? = some '.') = true := by
      cases w.fraction <;> rfl
    have hall : (digitText (w.fraction.getD [])).all Char.isDigit = true :=
      List.all_eq_true.2 fun c hc => isDigit_of_mem_digitText hvalid.fraction hc
    have hwhole : (digitText w.whole).isEmpty = false := by
      simpa [digitText] using hvalid.some
    unfold degrees?
    rw [hsign]
    simp only [hspan, htail, hdigits, hvalue, hpoint, hall, hwhole, Bool.false_and, Bool.not_false,
      Bool.and_self, if_true]

theorem WellFormed.ofDegrees {c : Coordinate} (h : c.WellFormed) :
    ofDegrees c.latitude c.longitude = .ok c := by
  obtain ⟨latitude, longitude, precision⟩ := c
  obtain ⟨hlatitude, hlongitude, rfl⟩ := h
  simp only [Coordinate.ofDegrees, hlatitude, hlongitude, Bool.not_true, Bool.false_eq_true,
    if_false]

/-- **A coordinate in range is read back.** -/
theorem WellFormed.read_render {c : Coordinate} (h : c.WellFormed) :
    read (String.ofList c.render) = .ok c := by
  obtain ⟨hlatitude, hlatitudeWritten⟩ := degrees?_render h.isFinite.1
  obtain ⟨hlongitude, -⟩ := degrees?_render h.isFinite.2
  have hspan : (NumberForm.column.render c.latitude ++
      '/' :: NumberForm.column.render c.longitude).span (· ≠ '/') =
        (NumberForm.column.render c.latitude, '/' :: NumberForm.column.render c.longitude) :=
    span_append (fun d hd => decide_eq_true ((hlatitudeWritten.isPlain d hd).ne (by decide)))
      fun d hd => by
        cases hd
        rfl
  have hdegrees : readDegrees? c.render.tail = some (c.latitude, c.longitude) := by
    show readDegrees? (NumberForm.column.render c.latitude ++
      '/' :: NumberForm.column.render c.longitude) = _
    unfold readDegrees?
    rw [hspan]
    simp only [hlatitude, hlongitude]
    rfl
  unfold read
  rw [String.toList_ofList, hdegrees]
  exact h.ofDegrees

theorem wellFormed_of_ofDegrees {latitude longitude : Binary64} {c : Coordinate}
    (h : ofDegrees latitude longitude = .ok c) : c.WellFormed := by
  unfold Coordinate.ofDegrees at h
  split at h
  · cases h
  next hlatitude =>
    split at h
    · cases h
    next hlongitude =>
      cases h
      exact ⟨by simpa using hlatitude, by simpa using hlongitude, rfl⟩

/-- **Whatever is read is in range.** -/
theorem wellFormed_of_read {text : String} {c : Coordinate} (h : read text = .ok c) :
    c.WellFormed := by
  unfold read at h
  split at h
  next => exact wellFormed_of_ofDegrees h
  next => cases h

end Coordinate

end FactGraph
