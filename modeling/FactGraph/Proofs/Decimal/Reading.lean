import FactGraph.Decimal.Shortest
import FactGraph.Proofs.Binary64.Rounding

/-!
# Decimals read back

The rank of a decimal is the nearest rank of its value, also where the power of ten is not computed
(`decimalRank_eq`). So it does not change when factors of ten move between digits and exponent, and
the shortest decimal of a finite rank has this rank (`decimalRank_shortest`): each candidate was
tried, and the exact value needs no trial.
-/

namespace FactGraph

namespace Binary64

/-! ## The rank of a decimal -/

theorem overflowBound_le_pow : overflowBound ≤ 10 ^ 311 := by decide +kernel

theorem two_pow_le_pow : 2 * 2 ^ 1074 ≤ 10 ^ 331 := by decide +kernel

/-- Three bits make less than one decimal digit. -/
theorem lt_ten_pow_log2 (digits : Nat) : digits < 10 ^ (digits.log2 / 3 + 1) := by
  calc digits < 2 ^ (digits.log2 + 1) := lt_two_pow_log2_succ digits
    _ ≤ 2 ^ (3 * (digits.log2 / 3 + 1)) := Nat.pow_le_pow_right two_pos (by omega)
    _ = 8 ^ (digits.log2 / 3 + 1) := by rw [Nat.pow_mul]
    _ ≤ 10 ^ (digits.log2 / 3 + 1) := Nat.pow_le_pow_left (by norm_num) _

theorem le_mul_ten_pow {bound digits m n : Nat} (hbound : bound ≤ 10 ^ m) (hmn : m ≤ n)
    (hdigits : 0 < digits) : bound ≤ digits * 10 ^ n :=
  calc bound ≤ 10 ^ m := hbound
    _ ≤ 10 ^ n := Nat.pow_le_pow_right (by norm_num) hmn
    _ ≤ digits * 10 ^ n := Nat.le_mul_of_pos_left _ hdigits

theorem mul_lt_ten_pow {digits factor m n k : Nat} (hdigits : digits < 10 ^ m)
    (hfactor : factor ≤ 10 ^ n) (hpos : 0 < factor) (hk : m + n ≤ k) : digits * factor < 10 ^ k :=
  calc digits * factor < 10 ^ m * factor := Nat.mul_lt_mul_of_pos_right hdigits hpos
    _ ≤ 10 ^ m * 10 ^ n := Nat.mul_le_mul_left _ hfactor
    _ = 10 ^ (m + n) := (Nat.pow_add 10 m n).symm
    _ ≤ 10 ^ k := Nat.pow_le_pow_right (by norm_num) hk

/-- **A decimal has the rank nearest to its value**, however far outside the range of doubles. -/
theorem decimalRank_eq (digits : Nat) (exp : Int) :
    decimalRank digits exp = nearestRank (digits * 10 ^ exp.toNat) (10 ^ (-exp).toNat) := by
  unfold decimalRank
  split
  next hzero => rw [hzero, Nat.zero_mul, nearestRank_zero]
  next hdigits =>
    -- The two shortcuts are for exponents so large or so small that the result is known without the
    -- power.
    have hpos : 0 < digits := Nat.pos_of_ne_zero hdigits
    split
    next hlarge =>
      refine ((nearestRank_eq_infinityRank_iff (Nat.pow_pos (by norm_num))).2 ?_).symm
      have hneg : (-exp).toNat = 0 := by omega
      rw [hneg, Nat.pow_zero, Nat.mul_one]
      exact le_mul_ten_pow overflowBound_le_pow (by omega) hpos
    next =>
      split
      next hsmall =>
        refine (nearestRank_eq_zero (Nat.pow_pos (by norm_num)) ?_).symm
        have hexp : exp.toNat = 0 := by omega
        rw [hexp, Nat.pow_zero, Nat.mul_one, Nat.mul_left_comm]
        exact mul_lt_ten_pow (lt_ten_pow_log2 digits) two_pow_le_pow
          (by positivity) (by omega)
      next => rfl

theorem decimalRank_mul_pow (digits k : Nat) (exp : Int) :
    decimalRank (digits * 10 ^ k) (exp - k) = decimalRank digits exp := by
  rw [decimalRank_eq, decimalRank_eq]
  refine nearestRank_congr (Nat.pow_pos (by norm_num)) (Nat.pow_pos (by norm_num)) ?_
  have hexp : k + (exp - k).toNat + (-exp).toNat = exp.toNat + (-(exp - k)).toNat := by omega
  calc digits * 10 ^ k * 10 ^ (exp - k).toNat * 10 ^ (-exp).toNat
      = digits * 10 ^ (k + (exp - k).toNat + (-exp).toNat) := by ring
    _ = digits * 10 ^ (exp.toNat + (-(exp - k)).toNat) := by rw [hexp]
    _ = digits * 10 ^ exp.toNat * 10 ^ (-(exp - k)).toNat := by ring

theorem decimalRank_zero (exp : Int) : decimalRank 0 exp = 0 := if_pos rfl

theorem decimalRank_le (digits : Nat) (exp : Int) : decimalRank digits exp ≤ infinityRank := by
  rw [decimalRank_eq]
  exact nearestRank_le _ _

end Binary64

namespace Decimal

open Binary64

/-! ## The shortest decimal -/

theorem decimalRank_strip (digits : Nat) (exp : Int) :
    decimalRank (strip digits exp).digits (strip digits exp).exp = decimalRank digits exp := by
  fun_induction strip digits exp with
  | case1 digits exp h ih =>
    have hdigits : digits = digits / 10 * 10 ^ 1 := by omega
    have hmove := decimalRank_mul_pow (digits / 10) 1 (exp + 1)
    rw [← hdigits, Nat.cast_one, add_sub_cancel_right] at hmove
    rw [ih, hmove]
  | case2 => rfl

theorem decimalRank_of_onGrid {tie : Tie} {rank num den : Nat} {exp : Int} {d : Decimal}
    (h : onGrid tie rank num den exp = some d) : decimalRank d.digits d.exp = rank := by
  unfold onGrid at h
  simp only at h
  split at h
  next hlower hupper =>
    cases h
    rw [decimalRank_strip]
    have hnearer (lowerNearer : Bool) {a b : Nat} (ha : decimalRank a exp = rank)
        (hb : decimalRank b exp = rank) :
        decimalRank (if lowerNearer then a else b) exp = rank := by
      cases lowerNearer <;> assumption
    exact hnearer _ (of_decide_eq_true hlower) (of_decide_eq_true hupper)
  next hlower hupper =>
    cases h
    rw [decimalRank_strip]
    exact of_decide_eq_true hlower
  next hlower hupper =>
    cases h
    rw [decimalRank_strip]
    exact of_decide_eq_true hupper
  next => cases h

theorem decimalRank_exact {rank : Nat} (hrank : rank < infinityRank) :
    decimalRank (exact rank).digits (exact rank).exp = rank := by
  have hfraction := nearestRank_fraction hrank
  unfold exact
  simp only
  -- The exact digits are the fraction itself, scaled by a power of five where it has a power of two
  -- below.
  split
  next hexp =>
    have hneg : (-exponent rank).toNat = 0 := by omega
    rw [decimalRank_strip, decimalRank_eq]
    simpa [fraction, hneg] using hfraction
  next hexp =>
    have hpos : (exponent rank).toNat = 0 := by omega
    rw [decimalRank_strip, decimalRank_eq, hpos, Nat.pow_zero, Nat.mul_one]
    have hten : (10 : Nat) ^ (-exponent rank).toNat =
        5 ^ (-exponent rank).toNat * 2 ^ (-exponent rank).toNat := by rw [← Nat.mul_pow]
    rw [hten, Nat.mul_comm (significand rank),
      nearestRank_mul_left (Nat.pow_pos (by norm_num)) (Nat.two_pow_pos _)]
    simpa [fraction, hpos] using hfraction

/-- **The shortest decimal of a finite rank has this rank.** -/
theorem decimalRank_shortest (tie : Tie) {rank : Nat} (hrank : rank < infinityRank) :
    decimalRank (shortest tie rank).digits (shortest tie rank).exp = rank := by
  unfold shortest
  split
  next hzero => rw [hzero, decimalRank_zero]
  next =>
    simp only
    -- A grid is only taken if its point is read as the number; if none is, the exact digits are.
    cases hfound : (List.range 17).findSome? fun (n : Nat) =>
        onGrid tie rank (fraction rank).1 (fraction rank).2
          (width (fraction rank).1 (fraction rank).2 - (n + 1)) with
    | none => exact decimalRank_exact hrank
    | some d =>
      obtain ⟨n, -, hn⟩ := List.exists_of_findSome?_eq_some hfound
      exact decimalRank_of_onGrid hn

end Decimal

end FactGraph
