import FactGraph.Proofs.Binary64.Zero
import FactGraph.Proofs.Literal.Coordinate
import FactGraph.Row.Explode

/-!
# Doubles in columns

A column holds a double in the fewest digits and without exponent. With a point it is a numeral of
that double. A whole number is written without a point and is read as an integer, which keeps its
value but not the sign of zero (`readBinary64_columnText`).
-/

namespace FactGraph

open Binary64

namespace NumberForm

/-- **A decimal in a column has a point, or is written like an integer.** -/
theorem column_decimalText_cases (d : Decimal) :
    ∃ w : Written, w.Valid ∧ w.exp = none ∧ column.decimalText d = w.text ∧
      w.rank = decimalRank d.digits d.exp ∧
      (w.fraction = none → w.whole.head? = some 0 → ∀ x ∈ w.whole, x = 0) := by
  refine ⟨columnWritten d, valid_columnWritten d, exp_placed .., (text_columnWritten d).symm,
    rank_columnWritten d, fun hnone hhead => ?_⟩
  obtain ⟨n, hwhole⟩ : ∃ n, (columnWritten d).whole = decimalDigits d.digits ++ .replicate n 0 :=
    exists_whole_placed hnone
  rw [hwhole] at hhead ⊢
  obtain ⟨first, rest, hcons⟩ := List.exists_cons_of_ne_nil (decimalDigits_ne_nil d.digits)
  have hzero : d.digits = 0 := by
    by_contra hpos
    refine head?_decimalDigits hpos ?_
    rw [hcons] at hhead ⊢
    exact hhead
  have hdigits : decimalDigits d.digits = [0] := by rw [hzero]; simp [decimalDigits]
  intro x hx
  simp only [hdigits, List.mem_append, List.mem_singleton, List.mem_replicate] at hx
  exact hx.elim id (·.2)

end NumberForm

namespace Number

theorem toBinary64_ofInt (z : Int) : (ofInt z).toBinary64 = .ofInt z := by
  unfold ofInt
  split
  next hfits => rw [toBinary64, Int64.toInt_ofInt_of_le hfits.1 hfits.2]
  next => rfl

/-- The double nearest to a written integer is that of its rank, but zero has no sign. -/
theorem unsignedZero_ofInt_signed (negative : Bool) {n rank : Nat} (le : rank ≤ infinityRank)
    (h : nearestRank n 1 = rank) :
    (Binary64.ofInt (signed negative n)).unsignedZero =
      (ranked negative rank le).unsignedZero := by
  subst h
  cases n with
  | zero =>
    have hzero : signed negative 0 = 0 := by cases negative <;> rfl
    simp only [hzero, Binary64.ofInt, Int.natAbs_zero, nearestRank_zero]
    rfl
  | succ n =>
    have hsign : decide (signed negative (n + 1) < 0) = negative := by
      cases negative with
      | true => exact decide_eq_true (by simp only [signed, if_true]; omega)
      | false =>
        exact decide_eq_false (by simp only [signed, Bool.false_eq_true, if_false]; omega)
    have habs : (signed negative (n + 1)).natAbs = n + 1 := by
      cases negative <;> simp only [signed, Bool.false_eq_true, if_false, if_true] <;> omega
    rw [Binary64.ofInt, hsign, habs, ofRank]
    simp only [Nat.min_eq_left le]

/-- **A double is read back from a column**, up to the sign of zero. -/
theorem read_column {x : Binary64} (hx : x.isFinite = true) :
    ∃ n number, Numeral.read? (NumberForm.column.render x) = some n ∧ ofNumeral n = .ok number ∧
      number.toBinary64.unsignedZero = x.unsignedZero := by
  cases x with
  | nan => exact nomatch hx
  | ranked negative rank le =>
    have hrank : rank < infinityRank := of_decide_eq_true hx
    obtain ⟨w, hvalid, hexp, htext, hvalue, hhead⟩ :=
      NumberForm.column_decimalText_cases (Decimal.shortest .up rank)
    rw [Decimal.decimalRank_shortest .up hrank] at hvalue
    have hrender : NumberForm.column.render (.ranked negative rank le) =
        signText negative ++ w.text := by
      rw [← htext, NumberForm.render, if_neg hrank.ne]
      rfl
    rw [hrender]
    cases hfraction : w.fraction with
    | some digits =>
      have hmark : w.fraction.isSome = true ∨ w.exp.isSome = true := .inl (by simp [hfraction])
      have hof : Binary64.ofDecimal negative (valueOfDigits 10 (w.whole ++ w.fraction.getD []))
          (w.exp.getD 0 - (w.fraction.getD []).length) = .ranked negative rank le := by
        show Binary64.ofRank negative w.rank = _
        simp [Binary64.ofRank, hvalue, le]
      refine ⟨_, .float (.ranked negative rank le),
        Written.read?_signed hvalid (Written.readDecimal?_text hvalid hmark) negative, ?_, rfl⟩
      simp only [ofNumeral, hof, hx, if_true]
    | none =>
      have hwhole : w = .ofDigits w.whole := by
        cases w
        simp_all [Written.ofDigits]
      have hread := Written.readDecimal?_ofDigits hvalid.whole hvalid.some (hhead hfraction)
      rw [← hwhole] at hread
      refine ⟨_, _, Written.read?_signed hvalid hread negative, rfl, ?_⟩
      have hnearest : nearestRank (valueOfDigits 10 w.whole) 1 = rank := by
        rw [← hvalue, Written.rank, Written.digits, hfraction, hexp, decimalRank_eq]
        simp
      rw [toBinary64_ofInt, unsignedZero_ofInt_signed negative le hnearest]

end Number

namespace Statement

/-- A zero is written as a whole number, and is read as the integer zero. -/
theorem readBinary64_columnText_zero (negative : Bool) :
    readBinary64 (columnText (.ranked negative 0 (Nat.zero_le _))) = .ok zero := by
  cases negative <;> decide +kernel

/-- **A column of a double is read as the double**, a zero without its sign. -/
theorem readBinary64_columnText {x : Binary64} (hx : x.isFinite = true) :
    readBinary64 (columnText x) = .ok x.unsignedZero := by
  obtain ⟨n, number, hread, hvalue, hsame⟩ := Number.read_column hx
  have hnumber : readBinary64 (columnText x) = .ok number.toBinary64 := by
    rw [readBinary64, readNumber, Number.ofText, columnText, NumberForm.text, String.toList_ofList,
      hread]
    simp only [hvalue]
    rfl
  match x with
  | nan => exact nomatch hx
  | ranked negative 0 le => exact readBinary64_columnText_zero negative
  | ranked negative (rank + 1) le =>
    rw [hnumber, eq_of_unsignedZero_eq hsame]
    rfl

theorem readNumber_text {number : Number} (h : number.isFinite = true) :
    readNumber number.text = .ok number := by
  obtain ⟨-, n, hread, hvalue⟩ := Number.read_render h
  rw [readNumber, Number.ofText, Number.text, String.toList_ofList, hread]
  simp only [hvalue]
  rfl

end Statement

end FactGraph
