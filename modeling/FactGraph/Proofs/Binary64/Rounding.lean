import Mathlib.Algebra.Order.Field.Power
import Mathlib.Data.Nat.Log
import Mathlib.Data.Rat.Cast.Order
import Mathlib.Tactic.FieldSimp
import Mathlib.Tactic.Linarith
import Mathlib.Tactic.Positivity
import Mathlib.Tactic.Ring
import FactGraph.Binary64.Rounding

/-!
# What rounding does

The nearest rank depends on the value of a fraction only (`nearestRank_congr`), is the rank itself
for the value of a rank (`nearestRank_fraction`), and is that of infinity from
`2 ^ 1024 - 2 ^ 970` on (`nearestRank_eq_infinityRank_iff`), where infinity is as near as the
largest finite double.

The proofs see a quotient by its value as a rational. `binade` is characterized by the powers of two
around the value (`binade_eq`), and rounding by the integers around it.
-/

namespace FactGraph

variable {num den k : Nat}

/-! ## Powers with either sign of the exponent -/

theorem scaled_ratio (base : Nat) (hbase : 0 < base) (num den : Nat) (e : Int) :
    ((num * base ^ (-e).toNat : Nat) : ℚ) / (den * base ^ e.toNat : Nat) =
      num / den * (base : ℚ) ^ (-e) := by
  have hne : (base : ℚ) ≠ 0 := by positivity
  rcases le_total 0 e with he | he
  · obtain ⟨n, rfl⟩ := Int.eq_ofNat_of_zero_le he
    have hneg : (-(n : Int)).toNat = 0 := by omega
    rw [hneg, Int.toNat_natCast, zpow_neg, zpow_natCast]
    push_cast
    field_simp
  · obtain ⟨n, hn⟩ := Int.eq_ofNat_of_zero_le (Int.neg_nonneg_of_nonpos he)
    have hpos : e.toNat = 0 := by omega
    rw [hn, hpos, Int.toNat_natCast, zpow_natCast]
    push_cast
    field_simp

theorem lt_scaled_iff (base : Nat) (hbase : 0 < base) (hden : 0 < den) (e : Int) :
    num * base ^ (-e).toNat < den * base ^ e.toNat ↔ (num : ℚ) / den < (base : ℚ) ^ e := by
  have hpos : (0 : ℚ) < (den * base ^ e.toNat : Nat) := by
    exact_mod_cast Nat.mul_pos hden (Nat.pow_pos hbase)
  have hpow : (0 : ℚ) < (base : ℚ) ^ e := by positivity
  rw [← Nat.cast_lt (α := ℚ), ← div_lt_one hpos, scaled_ratio base hbase, zpow_neg,
    ← div_eq_mul_inv, div_lt_one hpow]

theorem scaled_le_iff (hden : 0 < den) (m : Nat) (e : Int) :
    num * 2 ^ (-e).toNat ≤ m * (den * 2 ^ e.toNat) ↔ (num : ℚ) / den ≤ m * 2 ^ e := by
  have hpos : (0 : ℚ) < (den * 2 ^ e.toNat : Nat) := by
    exact_mod_cast Nat.mul_pos hden (Nat.pow_pos two_pos)
  have hpow : (0 : ℚ) < 2 ^ e := by positivity
  rw [← Nat.cast_le (α := ℚ), Nat.cast_mul m, ← div_le_iff₀ hpos, scaled_ratio 2 two_pos, zpow_neg,
    ← div_eq_mul_inv, Nat.cast_two, div_le_iff₀ hpow]

theorem le_scaled_iff (hden : 0 < den) (m : Nat) (e : Int) :
    m * (den * 2 ^ e.toNat) ≤ num * 2 ^ (-e).toNat ↔ (m : ℚ) * 2 ^ e ≤ num / den := by
  have hpos : (0 : ℚ) < (den * 2 ^ e.toNat : Nat) := by
    exact_mod_cast Nat.mul_pos hden (Nat.pow_pos two_pos)
  have hpow : (0 : ℚ) < 2 ^ e := by positivity
  rw [← Nat.cast_le (α := ℚ), Nat.cast_mul m, ← le_div_iff₀ hpos, scaled_ratio 2 two_pos, zpow_neg,
    ← div_eq_mul_inv, Nat.cast_two, le_div_iff₀ hpow]

/-! ## Binades -/

theorem two_pow_log2_le (hnum : 0 < num) : 2 ^ num.log2 ≤ num := by
  rw [Nat.log2_eq_log_two]
  exact Nat.pow_log_le_self 2 hnum.ne'

theorem lt_two_pow_log2_succ (num : Nat) : num < 2 ^ (num.log2 + 1) := by
  rw [Nat.log2_eq_log_two]
  exact Nat.lt_pow_succ_log_self one_lt_two num

/-- **A positive value lies in its binade.** -/
theorem binade_spec (hnum : 0 < num) (hden : 0 < den) :
    (2 : ℚ) ^ (binade num den - 1) ≤ num / den ∧ (num : ℚ) / den < 2 ^ binade num den := by
  have hd : (0 : ℚ) < den := by exact_mod_cast hden
  have hnumLe : (2 : ℚ) ^ (num.log2 : Int) ≤ num := by
    exact_mod_cast two_pow_log2_le hnum
  have hnumLt : (num : ℚ) < 2 ^ (num.log2 + 1 : Int) := by
    exact_mod_cast lt_two_pow_log2_succ num
  have hdenLe : (2 : ℚ) ^ (den.log2 : Int) ≤ den := by
    exact_mod_cast two_pow_log2_le hden
  have hdenLt : (den : ℚ) < 2 ^ (den.log2 + 1 : Int) := by
    exact_mod_cast lt_two_pow_log2_succ den
  -- Logarithms give the binade up to one; the guess is then corrected by a comparison.
  have hlow : (2 : ℚ) ^ ((num.log2 : Int) - den.log2 - 1) ≤ num / den := by
    rw [le_div_iff₀ hd]
    calc (2 : ℚ) ^ ((num.log2 : Int) - den.log2 - 1) * den
        ≤ 2 ^ ((num.log2 : Int) - den.log2 - 1) * 2 ^ (den.log2 + 1 : Int) := by gcongr
      _ = 2 ^ (num.log2 : Int) := by
        rw [← zpow_add₀ two_ne_zero]
        congr 1
        omega
      _ ≤ num := hnumLe
  have hhigh : (num : ℚ) / den < 2 ^ ((num.log2 : Int) - den.log2 + 1) := by
    rw [div_lt_iff₀ hd]
    calc (num : ℚ) < 2 ^ (num.log2 + 1 : Int) := hnumLt
      _ = 2 ^ ((num.log2 : Int) - den.log2 + 1) * 2 ^ (den.log2 : Int) := by
        rw [← zpow_add₀ two_ne_zero]
        congr 1
        omega
      _ ≤ 2 ^ ((num.log2 : Int) - den.log2 + 1) * den := by gcongr
  have hguess : num * 2 ^ (-((num.log2 : Int) - den.log2)).toNat <
      den * 2 ^ ((num.log2 : Int) - den.log2).toNat ↔
        (num : ℚ) / den < (2 : ℕ) ^ ((num.log2 : Int) - den.log2) :=
    lt_scaled_iff 2 two_pos hden _
  push_cast at hguess
  unfold binade
  simp only
  split
  next h => exact ⟨hlow, hguess.1 h⟩
  next h =>
    rw [hguess, not_lt] at h
    exact ⟨by simpa using h, hhigh⟩

/-- The powers around a value tell its binade. -/
theorem binade_eq (hnum : 0 < num) (hden : 0 < den) {e : Int}
    (hlow : (2 : ℚ) ^ (e - 1) ≤ num / den) (hhigh : (num : ℚ) / den < 2 ^ e) :
    binade num den = e := by
  obtain ⟨hle, hlt⟩ := binade_spec hnum hden
  have h₁ : e - 1 < binade num den := (zpow_lt_zpow_iff_right₀ one_lt_two).1 (hlow.trans_lt hlt)
  have h₂ : binade num den - 1 < e := (zpow_lt_zpow_iff_right₀ one_lt_two).1 (hle.trans_lt hhigh)
  omega

theorem binade_mul_left (hk : 0 < k) (hnum : 0 < num) (hden : 0 < den) :
    binade (k * num) (k * den) = binade num den := by
  obtain ⟨hle, hlt⟩ := binade_spec hnum hden
  have hvalue : ((k * num : Nat) : ℚ) / (k * den : Nat) = num / den := by
    push_cast
    exact mul_div_mul_left _ _ (by positivity)
  refine binade_eq (Nat.mul_pos hk hnum) (Nat.mul_pos hk hden) ?_ ?_ <;> rwa [hvalue]

/-! ## Rounding to an integer -/

theorem roundHalfEven_mul_left (hk : 0 < k) (num den : Nat) :
    roundHalfEven (k * num) (k * den) = roundHalfEven num den := by
  unfold roundHalfEven
  simp only [Nat.mul_div_mul_left num den hk, Nat.mul_mod_mul_left, Nat.mul_left_comm 2 k,
    Nat.mul_lt_mul_left hk, Nat.mul_right_inj hk.ne']

theorem roundHalfEven_mul_self (hden : 0 < den) (m : Nat) : roundHalfEven (m * den) den = m := by
  simp [roundHalfEven, Nat.mul_div_cancel m hden, hden]

theorem roundHalfEven_eq_zero (h : 2 * num < den) : roundHalfEven num den = 0 := by
  have hlt : num < den := by omega
  simp [roundHalfEven, Nat.div_eq_of_lt hlt, Nat.mod_eq_of_lt hlt, h]

theorem roundHalfEven_le {m : Nat} (hden : 0 < den) (h : num ≤ m * den) :
    roundHalfEven num den ≤ m := by
  have hdiv : num / den ≤ m := Nat.div_le_of_le_mul (by rwa [Nat.mul_comm])
  have hsplit := Nat.div_add_mod num den
  unfold roundHalfEven
  simp only
  split
  · exact hdiv
  next hrest =>
    by_contra hlt
    have heq : num / den = m := by omega
    rw [heq, Nat.mul_comm] at hsplit
    omega

theorem le_roundHalfEven {m : Nat} (hden : 0 < den) (h : m * den ≤ num) :
    m ≤ roundHalfEven num den := by
  have hdiv : m ≤ num / den := (Nat.le_div_iff_mul_le hden).2 h
  unfold roundHalfEven
  simp only
  split <;> omega

/-- Half an integer above an odd one is rounded up. -/
theorem succ_le_roundHalfEven_iff {m : Nat} (hden : 0 < den) (hodd : m % 2 = 1) :
    m + 1 ≤ roundHalfEven num den ↔ (2 * m + 1) * den ≤ 2 * num := by
  have hsplit := Nat.div_add_mod num den
  have hrest := Nat.mod_lt num hden
  -- Only at the quotient itself is there something to round, and as it is odd, a half goes up.
  rcases lt_trichotomy (num / den) m with hlt | heq | hgt
  · have hbelow : num < m * den := (Nat.div_lt_iff_lt_mul hden).1 hlt
    have hle := roundHalfEven_le hden hbelow.le
    have : (2 * m + 1) * den = 2 * (m * den) + den := by ring
    constructor <;> intro h <;> omega
  · rw [heq, Nat.mul_comm] at hsplit
    have : (2 * m + 1) * den = 2 * (m * den) + den := by ring
    unfold roundHalfEven
    simp only [heq, hodd]
    split <;> constructor <;> intro h <;> omega
  · have habove : (m + 1) * den ≤ num := (Nat.le_div_iff_mul_le hden).1 hgt
    have : (2 * m + 1) * den + den = 2 * ((m + 1) * den) := by ring
    exact iff_of_true (le_roundHalfEven hden habove) (by omega)

namespace Binary64

/-! ## The nearest rank -/

/-- The exponent of the grid on which a value is rounded. -/
def gridExponent (num den : Nat) : Int := max (binade num den - 53) (-1074)

/-- The value as a whole number of steps of its grid. -/
def gridSteps (num den : Nat) : Nat :=
  roundHalfEven (num * 2 ^ (-gridExponent num den).toNat) (den * 2 ^ (gridExponent num den).toNat)

theorem nearestRank_eq (hnum : 0 < num) :
    nearestRank num den =
      min (gridSteps num den + (gridExponent num den + 1074).toNat * 2 ^ 52) infinityRank := by
  rw [nearestRank, if_neg hnum.ne']
  rfl

theorem nearestRank_zero (den : Nat) : nearestRank 0 den = 0 := by
  rw [nearestRank, if_pos rfl]

/-- **Only the value counts**, not the fraction that gives it. -/
theorem nearestRank_mul_left (hk : 0 < k) (hden : 0 < den) (num : Nat) :
    nearestRank (k * num) (k * den) = nearestRank num den := by
  rcases Nat.eq_zero_or_pos num with rfl | hnum
  · rw [Nat.mul_zero, nearestRank_zero, nearestRank_zero]
  · have hexp : gridExponent (k * num) (k * den) = gridExponent num den := by
      rw [gridExponent, binade_mul_left hk hnum hden, gridExponent]
    have hsteps : gridSteps (k * num) (k * den) = gridSteps num den := by
      rw [gridSteps, hexp, Nat.mul_assoc, Nat.mul_assoc, roundHalfEven_mul_left hk, gridSteps]
    rw [nearestRank_eq (Nat.mul_pos hk hnum), nearestRank_eq hnum, hexp, hsteps]

theorem nearestRank_congr {num' den' : Nat} (hden : 0 < den) (hden' : 0 < den')
    (h : num * den' = num' * den) : nearestRank num den = nearestRank num' den' := by
  rw [← nearestRank_mul_left hden' hden num, ← nearestRank_mul_left hden hden' num',
    Nat.mul_comm den' num, h, Nat.mul_comm den' den, Nat.mul_comm num' den]

theorem nearestRank_eq_zero (hden : 0 < den) (h : 2 * (num * 2 ^ 1074) < den) :
    nearestRank num den = 0 := by
  rcases Nat.eq_zero_or_pos num with rfl | hnum
  · exact nearestRank_zero den
  · have h0 : (-1074 : Int).toNat = 0 := rfl
    have h1 : (-(-1074) : Int).toNat = 1074 := rfl
    have hvalue : (num : ℚ) / den < 2 ^ (-1074 : Int) := by
      rw [← Nat.cast_two, ← lt_scaled_iff 2 two_pos hden, h0, h1, Nat.pow_zero, Nat.mul_one]
      omega
    have hbinade : binade num den - 1 < -1074 :=
      (zpow_lt_zpow_iff_right₀ one_lt_two).1 ((binade_spec hnum hden).1.trans_lt hvalue)
    have hexp : gridExponent num den = -1074 := by
      unfold gridExponent
      omega
    have hsteps : gridSteps num den = 0 := by
      rw [gridSteps, hexp, h0, h1, Nat.pow_zero, Nat.mul_one]
      exact roundHalfEven_eq_zero h
    rw [nearestRank_eq hnum, hexp, hsteps]
    rfl

/-! ## The value of a rank -/

theorem fraction_den_pos (rank : Nat) : 0 < (fraction rank).2 := Nat.pow_pos two_pos

theorem fraction_value (rank : Nat) :
    ((fraction rank).1 : ℚ) / (fraction rank).2 = significand rank * 2 ^ exponent rank := by
  have h := scaled_ratio 2 two_pos (significand rank) 1 (-exponent rank)
  simp only [neg_neg, Nat.cast_one, div_one, Nat.one_mul, Nat.cast_ofNat] at h
  exact h

theorem significand_lt (rank : Nat) : significand rank < 2 ^ 53 := by
  unfold significand
  split <;> omega

theorem rank_eq (rank : Nat) :
    significand rank + (exponent rank + 1074).toNat * 2 ^ 52 = rank := by
  unfold significand exponent
  split <;> omega

theorem gridExponent_fraction {rank : Nat} (hpos : 0 < rank) :
    gridExponent (fraction rank).1 (fraction rank).2 = exponent rank := by
  have hsig : 0 < significand rank := by
    unfold significand
    split <;> omega
  have hnum : 0 < (fraction rank).1 := Nat.mul_pos hsig (Nat.pow_pos two_pos)
  have hpow : (0 : ℚ) < 2 ^ exponent rank := by positivity
  have hhigh : (significand rank : ℚ) * 2 ^ exponent rank < 2 ^ (53 + exponent rank) := by
    rw [zpow_add₀ two_ne_zero]
    have : (significand rank : ℚ) < 2 ^ (53 : Int) := by exact_mod_cast significand_lt rank
    gcongr
  -- Subnormal numbers are all on the last grid, normal ones fill their binade.
  by_cases hsmall : rank < 2 ^ 53
  · have hexp : exponent rank = -1074 := if_pos hsmall
    have hbinade : binade (fraction rank).1 (fraction rank).2 - 1 < 53 + exponent rank := by
      refine (zpow_lt_zpow_iff_right₀ one_lt_two).1
        ((binade_spec hnum (fraction_den_pos rank)).1.trans_lt ?_)
      rwa [fraction_value]
    unfold gridExponent
    omega
  · have hnormal : 2 ^ 52 ≤ significand rank := by
      rw [significand, if_neg hsmall]
      exact Nat.le_add_right ..
    have hlow : (2 : ℚ) ^ (53 + exponent rank - 1) ≤ significand rank * 2 ^ exponent rank := by
      rw [show 53 + exponent rank - 1 = 52 + exponent rank by ring, zpow_add₀ two_ne_zero]
      have : (2 : ℚ) ^ (52 : Int) ≤ significand rank := by exact_mod_cast hnormal
      gcongr
    rw [← fraction_value] at hlow hhigh
    have hexp : -1074 ≤ exponent rank := by
      rw [exponent, if_neg hsmall]
      omega
    rw [gridExponent, binade_eq hnum (fraction_den_pos rank) hlow hhigh]
    omega

/-- **The value of a finite rank rounds to this rank.** -/
theorem nearestRank_fraction {rank : Nat} (hrank : rank < infinityRank) :
    nearestRank (fraction rank).1 (fraction rank).2 = rank := by
  rcases Nat.eq_zero_or_pos rank with rfl | hpos
  · exact nearestRank_zero _
  · have hgrid := gridExponent_fraction hpos
    have hnum : 0 < (fraction rank).1 := by
      refine Nat.mul_pos ?_ (Nat.pow_pos two_pos)
      unfold significand
      split <;> omega
    have hsteps : gridSteps (fraction rank).1 (fraction rank).2 = significand rank := by
      rw [gridSteps, hgrid]
      show roundHalfEven (significand rank * 2 ^ (exponent rank).toNat *
        2 ^ (-exponent rank).toNat) _ = _
      rw [Nat.mul_assoc, Nat.mul_comm (2 ^ (exponent rank).toNat)]
      exact roundHalfEven_mul_self (Nat.mul_pos (fraction_den_pos rank) (Nat.pow_pos two_pos)) _
    rw [nearestRank_eq hnum, hgrid, hsteps, rank_eq, Nat.min_eq_left hrank.le]

/-! ## Overflow -/

/-- The least value that rounds to infinity: half a step beyond the largest finite double. -/
def overflowBound : Nat := (2 ^ 54 - 1) * 2 ^ 970

theorem gridSteps_le (hnum : 0 < num) (hden : 0 < den) : gridSteps num den ≤ 2 ^ 53 := by
  refine roundHalfEven_le (Nat.mul_pos hden (Nat.pow_pos two_pos)) ?_
  rw [scaled_le_iff hden]
  refine (binade_spec hnum hden).2.le.trans ?_
  have hexp : binade num den ≤ 53 + gridExponent num den := by
    unfold gridExponent
    omega
  calc (2 : ℚ) ^ binade num den ≤ 2 ^ (53 + gridExponent num den) :=
        zpow_le_zpow_right₀ one_le_two hexp
    _ = (2 ^ 53 : Nat) * 2 ^ gridExponent num den := by
        rw [zpow_add₀ two_ne_zero]
        norm_cast

theorem le_gridSteps (hnum : 0 < num) (hden : 0 < den)
    (hgrid : gridExponent num den = binade num den - 53) : 2 ^ 52 ≤ gridSteps num den := by
  refine le_roundHalfEven (Nat.mul_pos hden (Nat.pow_pos two_pos)) ?_
  rw [le_scaled_iff hden]
  refine le_trans (le_of_eq ?_) (binade_spec hnum hden).1
  rw [hgrid, show binade num den - 1 = 52 + (binade num den - 53) by ring, zpow_add₀ two_ne_zero]
  norm_cast

/-- The bound lies in the binade of the largest finite double. -/
theorem overflowBound_spec :
    (2 : ℚ) ^ (1023 : Int) ≤ overflowBound ∧ (overflowBound : ℚ) ≤ 2 ^ (1024 : Int) := by
  have hlow : (1023 : Int) = 53 + 970 := rfl
  have hhigh : (1024 : Int) = 54 + 970 := rfl
  have hbound : (overflowBound : ℚ) = (2 ^ 54 - 1) * 2 ^ (970 : Int) := by
    have hsteps : ((2 ^ 54 - 1 : Nat) : ℚ) = 2 ^ 54 - 1 := by norm_num
    have hscale : (2 : ℚ) ^ (970 : Int) = 2 ^ 970 := zpow_natCast 2 970
    rw [overflowBound, Nat.cast_mul, hsteps, Nat.cast_pow, Nat.cast_two, hscale]
  have hpow : (0 : ℚ) < 2 ^ (970 : Int) := by positivity
  rw [hbound, hlow, hhigh, zpow_add₀ two_ne_zero, zpow_add₀ two_ne_zero]
  -- The power is kept as a variable, since norm_num would compute it.
  generalize (2 : ℚ) ^ (970 : Int) = x at hpow ⊢
  norm_num
  constructor <;> linarith

/-- A value rounds to `2 ^ 53` steps from half a step before on. -/
theorem full_roundHalfEven_iff (hden : 0 < den) (n : Nat) :
    2 ^ 53 ≤ roundHalfEven num (den * 2 ^ (n + 1)) ↔ (2 ^ 54 - 1) * 2 ^ n * den ≤ num := by
  have hhalf : 2 ^ 53 - 1 + 1 ≤ roundHalfEven num (den * 2 ^ (n + 1)) ↔
      (2 * (2 ^ 53 - 1) + 1) * (den * 2 ^ (n + 1)) ≤ 2 * num :=
    succ_le_roundHalfEven_iff (Nat.mul_pos hden (Nat.two_pow_pos (n + 1))) (by norm_num)
  have hdouble : (2 * (2 ^ 53 - 1) + 1) * (den * 2 ^ (n + 1)) =
      2 * ((2 ^ 54 - 1) * 2 ^ n * den) := by ring
  rwa [hdouble, Nat.mul_le_mul_left_iff two_pos] at hhalf

/-- In the binade of the bound, the bound is half a step before the next binade. -/
theorem full_gridSteps_iff (hden : 0 < den) (hgrid : gridExponent num den = 971) :
    2 ^ 53 ≤ gridSteps num den ↔ overflowBound * den ≤ num := by
  have h0 : (-971 : Int).toNat = 0 := rfl
  have h1 : (971 : Int).toNat = 970 + 1 := rfl
  rw [gridSteps, hgrid, h0, h1, Nat.pow_zero, Nat.mul_one]
  exact full_roundHalfEven_iff hden 970

theorem overflowBound_pos : 0 < overflowBound := by
  unfold overflowBound
  positivity

/-- **Rounding overflows from the bound on.** -/
theorem nearestRank_eq_infinityRank_iff (hden : 0 < den) :
    nearestRank num den = infinityRank ↔ overflowBound * den ≤ num := by
  have hinf : infinityRank = 2047 * 2 ^ 52 := rfl
  rcases Nat.eq_zero_or_pos num with rfl | hnum
  · have hbound : 0 < overflowBound * den := Nat.mul_pos overflowBound_pos hden
    rw [nearestRank_zero]
    omega
  · have hd : (0 : ℚ) < den := by exact_mod_cast hden
    have hvalue : overflowBound * den ≤ num ↔ (overflowBound : ℚ) ≤ num / den := by
      rw [le_div_iff₀ hd]
      exact_mod_cast Iff.rfl
    obtain ⟨hlow, hhigh⟩ := binade_spec hnum hden
    have hfull := gridSteps_le hnum hden
    rw [nearestRank_eq hnum]
    rcases lt_trichotomy (binade num den) 1024 with hlt | heq | hgt
    · -- A lower binade: even its last step stays below infinity.
      have hexp : gridExponent num den ≤ 970 := by unfold gridExponent; omega
      have hsmall : (num : ℚ) / den < overflowBound :=
        (hhigh.trans_le (zpow_le_zpow_right₀ one_le_two (by omega))).trans_le overflowBound_spec.1
      rw [hvalue]
      exact iff_of_false (by omega) (not_le.2 hsmall)
    · have hgrid : gridExponent num den = 971 := by unfold gridExponent; omega
      rw [← full_gridSteps_iff hden hgrid, hgrid]
      omega
    · -- A higher binade: its first step is infinity already.
      have hgrid : gridExponent num den = binade num den - 53 := by unfold gridExponent; omega
      have hsteps := le_gridSteps hnum hden hgrid
      have hlarge : (overflowBound : ℚ) ≤ num / den :=
        overflowBound_spec.2.trans
          ((zpow_le_zpow_right₀ one_le_two (by omega)).trans hlow)
      rw [hvalue]
      exact iff_of_true (by omega) hlarge

/-! ## Equality -/

theorem numEq_self {x : Binary64} (h : x.isFinite = true) : x.numEq x = true := by
  cases x with
  | nan => cases h
  | ranked negative rank le => simp [numEq, key]

theorem numEq_ofInt_of_toInt? {x : Binary64} {z : Int} (h : x.toInt? = some z) :
    (ofInt z).numEq x = true := by
  cases x with
  | nan => cases h
  | ranked negative rank le =>
    unfold toInt? at h
    simp only at h
    split at h
    next hint =>
      obtain ⟨hrank, hmod⟩ := hint
      have hden := fraction_den_pos rank
      have hwhole := Nat.div_mul_cancel (Nat.dvd_of_mod_eq_zero hmod)
      have hnearest : nearestRank ((fraction rank).1 / (fraction rank).2) 1 = rank :=
        (nearestRank_congr one_pos hden (by rw [hwhole, Nat.mul_one])).trans
          (nearestRank_fraction hrank)
      generalize (fraction rank).1 / (fraction rank).2 = n at h hnearest
      have hsigned : (ofRank negative rank).numEq (.ranked negative rank le) = true := by
        simp [ofRank, numEq, key, le]
      cases hn : n with
      | zero =>
        rw [hn, nearestRank_zero] at hnearest
        subst hnearest
        rw [hn] at h
        cases negative <;> cases h <;> rfl
      | succ m =>
        have hz : z.natAbs = n ∧ (decide (z < 0)) = negative := by
          cases negative with
          | true =>
            simp only [if_true, Option.some.injEq] at h
            exact ⟨by omega, decide_eq_true (by omega)⟩
          | false =>
            simp only [Bool.false_eq_true, if_false, Option.some.injEq] at h
            exact ⟨by omega, decide_eq_false (by omega)⟩
        rwa [ofInt, hz.1, hz.2, hnearest]
    next => cases h

theorem nearestRank_le (num den : Nat) : nearestRank num den ≤ infinityRank := by
  unfold nearestRank
  split
  · exact Nat.zero_le _
  · exact Nat.min_le_right ..

theorem isFinite_ofRank (negative : Bool) {rank : Nat} (le : rank ≤ infinityRank) :
    (ofRank negative rank).isFinite = true ↔ rank ≠ infinityRank := by
  simp only [ofRank, isFinite, Nat.min_eq_left le, decide_eq_true_eq]
  omega

end Binary64

end FactGraph
