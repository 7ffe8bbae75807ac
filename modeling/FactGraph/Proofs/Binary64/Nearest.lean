import FactGraph.Proofs.Binary64.Rounding

/-!
# The nearest double

**Theorem (`Binary64.isNearest_ofRank`).** A value below the bound of overflow is rounded to the
finite double nearest to it, and of two that are as near to the one with an even significand. There
is only one such double, up to the sign of zero (`Binary64.IsNearest.unique`).

A value is rounded on the grid of its binade. No double between the points of this grid is nearer:
all of them lie below the binade, and so does its first point, which is nearer than they are
(`gridSteps_spec`).
-/

namespace FactGraph

variable {num den : Nat}

/-- Rounding to an integer takes a nearest one, and of two the even one. -/
theorem roundHalfEven_spec (num : Nat) (hden : 0 < den) (m : Nat) :
    ((roundHalfEven num den * den : Nat) - num : Int).natAbs ≤
        ((m * den : Nat) - num : Int).natAbs ∧
      (((m * den : Nat) - num : Int).natAbs =
          ((roundHalfEven num den * den : Nat) - num : Int).natAbs →
        m ≠ roundHalfEven num den → roundHalfEven num den % 2 = 0) := by
  have hsplit := Nat.div_add_mod num den
  have hrest := Nat.mod_lt num hden
  rw [Nat.mul_comm] at hsplit
  have hsucc : (num / den + 1) * den = num / den * den + den := Nat.succ_mul _ _
  -- The multiples around the value are known, and the others are farther by a step.
  have hmultiples : m < num / den ∧ m * den + den ≤ num / den * den ∨ m = num / den ∨
      m = num / den + 1 ∨ num / den + 1 < m ∧ num / den * den + den + den ≤ m * den := by
    rcases lt_trichotomy m (num / den) with hlt | heq | hgt
    · have hle := Nat.mul_le_mul_right den (Nat.succ_le_of_lt hlt)
      rw [Nat.succ_mul] at hle
      exact .inl ⟨hlt, hle⟩
    · exact .inr (.inl heq)
    · rcases (Nat.succ_le_of_lt hgt).eq_or_lt with heq | hlt
      · exact .inr (.inr (.inl heq.symm))
      · have hle := Nat.mul_le_mul_right den (Nat.succ_le_of_lt hlt)
        rw [Nat.succ_mul, Nat.succ_mul] at hle
        exact .inr (.inr (.inr ⟨hlt, hle⟩))
  unfold roundHalfEven
  simp only
  rcases hmultiples with ⟨hlt, hle⟩ | rfl | rfl | ⟨hlt, hle⟩ <;> split_ifs <;> omega

theorem abs_sub_div (hden : 0 < den) (m : Nat) :
    |(m : ℚ) - num / den| = (((m * den : Nat) - num : Int).natAbs : ℚ) / den := by
  have hpos : (0 : ℚ) < den := by exact_mod_cast hden
  have hsub : (m : ℚ) - num / den = (((m * den : Nat) - num : Int) : ℚ) / den := by
    push_cast
    field_simp
  rw [hsub, abs_div, abs_of_pos hpos, Nat.cast_natAbs, Int.cast_abs]

theorem abs_steps_sub (m : Nat) (e : Int) :
    |(m : ℚ) * 2 ^ e - num / den| =
      |(m : ℚ) - (num * 2 ^ (-e).toNat : Nat) / (den * 2 ^ e.toNat : Nat)| * 2 ^ e := by
  have hpow : (0 : ℚ) < 2 ^ e := by positivity
  rw [scaled_ratio 2 two_pos, ← abs_of_pos hpow, ← abs_mul, abs_of_pos hpow, sub_mul, mul_assoc,
    Nat.cast_two, ← zpow_add₀ two_ne_zero, neg_add_cancel, zpow_zero, mul_one]

namespace Binary64

/-! ## Values -/

/-- The magnitude of a finite rank. -/
def magnitude (rank : Nat) : ℚ := significand rank * 2 ^ exponent rank

/-- The sign as a factor. -/
def signFactor (negative : Bool) : ℚ := if negative then -1 else 1

/-- The value of a finite double. -/
def value : Binary64 → ℚ
  | .nan => 0
  | .ranked negative rank _ => signFactor negative * magnitude rank

/-- The integer factor of the value is even. -/
def isEven : Binary64 → Prop
  | .nan => False
  | .ranked _ rank _ => significand rank % 2 = 0

/-- The double is finite, no finite one is nearer to the value, and it is even if another one is as
near. -/
structure IsNearest (q : ℚ) (x : Binary64) : Prop where
  finite : x.isFinite = true
  nearest : ∀ y : Binary64, y.isFinite = true → |x.value - q| ≤ |y.value - q|
  even : ∀ y : Binary64, y.isFinite = true → |y.value - q| = |x.value - q| →
    y.value ≠ x.value → x.isEven

theorem magnitude_nonneg (rank : Nat) : 0 ≤ magnitude rank := by
  unfold magnitude
  positivity

theorem magnitude_steps {steps : Nat} (e : Nat) (hle : steps ≤ 2 ^ 53)
    (hfull : e = 0 ∨ 2 ^ 52 ≤ steps) :
    magnitude (steps + e * 2 ^ 52) = steps * 2 ^ ((e : Int) - 1074) := by
  by_cases hcarry : steps = 2 ^ 53
  · -- The carry leads to the next grid.
    have hrank : ¬ steps + e * 2 ^ 52 < 2 ^ 53 := by omega
    have hsignificand : significand (steps + e * 2 ^ 52) = 2 ^ 52 := by
      rw [significand, if_neg hrank]
      omega
    have hexponent : exponent (steps + e * 2 ^ 52) = (e : Int) - 1074 + 1 := by
      rw [exponent, if_neg hrank]
      omega
    rw [magnitude, hsignificand, hexponent, zpow_add₀ two_ne_zero, hcarry]
    push_cast
    ring
  · have hsignificand : significand (steps + e * 2 ^ 52) = steps := by
      unfold significand
      split_ifs <;> omega
    have hexponent : exponent (steps + e * 2 ^ 52) = (e : Int) - 1074 := by
      unfold exponent
      split_ifs <;> omega
    rw [magnitude, hsignificand, hexponent]

theorem significand_steps_even {steps e : Nat} (h : steps % 2 = 0) :
    significand (steps + e * 2 ^ 52) % 2 = 0 := by
  unfold significand
  split_ifs <;> omega

theorem exponent_ge (rank : Nat) : -1074 ≤ exponent rank := by
  unfold exponent
  split_ifs <;> omega

theorem exists_steps {rank : Nat} {e : Int} (he : e ≤ exponent rank) :
    ∃ steps : Nat, magnitude rank = steps * 2 ^ e := by
  obtain ⟨n, hn⟩ := Int.le.dest he
  refine ⟨significand rank * 2 ^ n, ?_⟩
  rw [magnitude, ← hn, zpow_add₀ two_ne_zero, zpow_natCast]
  push_cast
  ring

theorem magnitude_lt {rank : Nat} {e : Int} (he : exponent rank < e) :
    magnitude rank < 2 ^ (52 + e) := by
  have hsignificand : (significand rank : ℚ) < 2 ^ 53 := by exact_mod_cast significand_lt rank
  have hpow : (0 : ℚ) < 2 ^ exponent rank := by positivity
  calc magnitude rank < 2 ^ 53 * 2 ^ exponent rank := by
        unfold magnitude
        gcongr
    _ = 2 ^ (53 + exponent rank) := by
        rw [zpow_add₀ two_ne_zero]
        norm_cast
    _ ≤ 2 ^ (52 + e) := zpow_le_zpow_right₀ one_le_two (by omega)

/-! ## The nearest point of the grid -/

/-- **The point of the grid is a nearest finite double**, and even if another one is as near. -/
theorem gridSteps_spec (hnum : 0 < num) (hden : 0 < den) (rank : Nat) :
    |(gridSteps num den : ℚ) * 2 ^ gridExponent num den - num / den| ≤
        |magnitude rank - num / den| ∧
      (|magnitude rank - num / den| =
          |(gridSteps num den : ℚ) * 2 ^ gridExponent num den - num / den| →
        magnitude rank ≠ gridSteps num den * 2 ^ gridExponent num den →
        gridSteps num den % 2 = 0) := by
  set e := gridExponent num den with he
  have hpow : (0 : ℚ) < 2 ^ e := by positivity
  have hscaled : 0 < den * 2 ^ e.toNat := Nat.mul_pos hden (Nat.pow_pos two_pos)
  have hpos : (0 : ℚ) < (den * 2 ^ e.toNat : Nat) := by exact_mod_cast hscaled
  have hsteps : gridSteps num den =
      roundHalfEven (num * 2 ^ (-e).toNat) (den * 2 ^ e.toNat) := rfl
  have hpoint (m : Nat) :
      |(gridSteps num den : ℚ) * 2 ^ e - num / den| ≤ |(m : ℚ) * 2 ^ e - num / den| ∧
      (|(m : ℚ) * 2 ^ e - num / den| = |(gridSteps num den : ℚ) * 2 ^ e - num / den| →
        m ≠ gridSteps num den → gridSteps num den % 2 = 0) := by
    obtain ⟨hnearest, heven⟩ := roundHalfEven_spec (num * 2 ^ (-e).toNat) hscaled m
    rw [abs_steps_sub, abs_steps_sub, mul_le_mul_iff_left₀ hpow,
      mul_left_inj' hpow.ne', abs_sub_div hscaled, abs_sub_div hscaled,
      div_le_div_iff_of_pos_right hpos, div_left_inj' hpos.ne', Nat.cast_le, Nat.cast_inj, hsteps]
    exact ⟨hnearest, heven⟩
  -- A double of a coarser grid is a point of this one, too.
  rcases le_or_gt e (exponent rank) with hcoarse | hfine
  · obtain ⟨m, hm⟩ := exists_steps hcoarse
    obtain ⟨hnearest, heven⟩ := hpoint m
    rw [hm]
    exact ⟨hnearest, fun heq hne => heven heq fun hsame => hne (by rw [hsame])⟩
  · -- The first point of the binade lies between the double and the value.
    have hgrid : e = binade num den - 53 := by
      have hleast := exponent_ge rank
      have hmax : e = max (binade num den - 53) (-1074) := rfl
      omega
    have hfirst : ((2 ^ 52 : Nat) : ℚ) * 2 ^ e = 2 ^ (52 + e) := by
      rw [zpow_add₀ two_ne_zero]
      norm_cast
    have hvalue : ((2 ^ 52 : Nat) : ℚ) * 2 ^ e ≤ num / den := by
      rw [hfirst, hgrid, show 52 + (binade num den - 53) = binade num den - 1 by ring]
      exact (binade_spec hnum hden).1
    have hbelow : magnitude rank < ((2 ^ 52 : Nat) : ℚ) * 2 ^ e := by
      rw [hfirst]
      exact magnitude_lt hfine
    have hstrict :
        |(gridSteps num den : ℚ) * 2 ^ e - num / den| < |magnitude rank - num / den| := by
      refine (hpoint (2 ^ 52)).1.trans_lt ?_
      rw [abs_sub_comm, abs_of_nonneg (sub_nonneg.2 hvalue), abs_sub_comm,
        abs_of_nonneg (sub_nonneg.2 (hbelow.le.trans hvalue))]
      exact sub_lt_sub_left hbelow _
    exact ⟨hstrict.le, fun heq => absurd heq hstrict.ne'⟩

/-- **A value below the bound of overflow has the rank of a nearest double.** -/
theorem nearestRank_spec (hden : 0 < den) (hbound : num < overflowBound * den) (rank : Nat) :
    |magnitude (nearestRank num den) - num / den| ≤ |magnitude rank - num / den| ∧
      (|magnitude rank - num / den| = |magnitude (nearestRank num den) - num / den| →
        magnitude rank ≠ magnitude (nearestRank num den) →
        significand (nearestRank num den) % 2 = 0) := by
  rcases Nat.eq_zero_or_pos num with rfl | hnum
  · rw [nearestRank_zero]
    have hzero : magnitude 0 = 0 := by simp [magnitude, significand]
    refine ⟨by simp [hzero], fun _ _ => rfl⟩
  · have hfinite : nearestRank num den ≠ infinityRank := fun h =>
      absurd ((nearestRank_eq_infinityRank_iff hden).1 h) (Nat.not_le.2 hbound)
    have hgrid : -1074 ≤ gridExponent num den := le_max_right _ _
    have hrank : nearestRank num den =
        gridSteps num den + (gridExponent num den + 1074).toNat * 2 ^ 52 := by
      have hmin : nearestRank num den = _ := nearestRank_eq hnum
      omega
    have hfull : (gridExponent num den + 1074).toNat = 0 ∨ 2 ^ 52 ≤ gridSteps num den := by
      rcases max_choice (binade num den - 53) (-1074) with hmax | hmax
      · exact .inr (le_gridSteps hnum hden hmax)
      · refine .inl ?_
        have hleast : gridExponent num den = -1074 := hmax
        rw [hleast]
        rfl
    have hmagnitude : magnitude (nearestRank num den) =
        gridSteps num den * 2 ^ gridExponent num den := by
      have hcast : (((gridExponent num den + 1074).toNat : Nat) : Int) - 1074 =
          gridExponent num den := by omega
      rw [hrank, magnitude_steps _ (gridSteps_le hnum hden) hfull, hcast]
    obtain ⟨hnearest, heven⟩ := gridSteps_spec hnum hden rank
    rw [hmagnitude]
    refine ⟨hnearest, fun heq hne => ?_⟩
    rw [hrank]
    exact significand_steps_even (heven heq hne)

/-! ## The nearest double -/

theorem abs_signFactor (negative : Bool) : |signFactor negative| = 1 := by
  cases negative <;> simp [signFactor]

theorem abs_signed_sub (negative : Bool) (a b : ℚ) :
    |signFactor negative * a - signFactor negative * b| = |a - b| := by
  rw [← mul_sub, abs_mul, abs_signFactor, one_mul]

theorem abs_signed_sub_of_ne {negative sign : Bool} (hne : negative ≠ sign) {a b : ℚ} (ha : 0 ≤ a)
    (hb : 0 ≤ b) : |signFactor negative * a - signFactor sign * b| = a + b := by
  have hsigns : signFactor negative * a - signFactor sign * b = signFactor negative * (a + b) := by
    cases negative <;> cases sign
    · exact absurd rfl hne
    · simp [signFactor]
    · simp [signFactor, sub_eq_add_neg, add_comm]
    · exact absurd rfl hne
  rw [hsigns, abs_mul, abs_signFactor, one_mul, abs_of_nonneg (add_nonneg ha hb)]

theorem abs_sub_le_add {a b : ℚ} (ha : 0 ≤ a) (hb : 0 ≤ b) : |a - b| ≤ a + b :=
  abs_le.2 ⟨by linarith, by linarith⟩

theorem magnitude_zero : magnitude 0 = 0 := by simp [magnitude, significand]

/-- **A value below the bound of overflow is rounded to the nearest double.** -/
theorem isNearest_ofRank (negative : Bool) (hden : 0 < den) (hbound : num < overflowBound * den) :
    IsNearest (signFactor negative * (num / den)) (ofRank negative (nearestRank num den)) := by
  have hspec := nearestRank_spec hden hbound
  have hle := nearestRank_le num den
  have hfinite : nearestRank num den ≠ infinityRank := fun h =>
    absurd ((nearestRank_eq_infinityRank_iff hden).1 h) (Nat.not_le.2 hbound)
  have hvalue : (ofRank negative (nearestRank num den)).value =
      signFactor negative * magnitude (nearestRank num den) := by
    rw [ofRank, value, Nat.min_eq_left hle]
  have hq : (0 : ℚ) ≤ num / den := by positivity
  generalize (num : ℚ) / den = q at hspec hq ⊢
  generalize nearestRank num den = r at *
  refine ⟨(isFinite_ofRank negative hle).2 hfinite, ?_, ?_⟩
  · rintro (_ | ⟨sign, rank, le⟩) hy
    · cases hy
    · rw [hvalue, abs_signed_sub, value]
      by_cases hsign : sign = negative
      · rw [hsign, abs_signed_sub]
        exact (hspec rank).1
      · rw [abs_signed_sub_of_ne hsign (magnitude_nonneg rank) hq]
        exact (hspec rank).1.trans (abs_sub_le_add (magnitude_nonneg rank) hq)
  · rintro (_ | ⟨sign, rank, le⟩) hy heq hne
    · cases hy
    · have heven (h : |magnitude rank - q| = |magnitude r - q|)
          (hne : magnitude rank ≠ magnitude r) : (ofRank negative r).isEven := by
        rw [ofRank, isEven, Nat.min_eq_left hle]
        exact (hspec rank).2 h hne
      rw [hvalue, abs_signed_sub, value] at heq
      rw [hvalue, value] at hne
      by_cases hsign : sign = negative
      · rw [hsign, abs_signed_sub] at heq
        exact heven heq fun hsame => hne (by rw [hsign, hsame])
      · -- With the other sign only a zero is as near, and a zero has both signs.
        rw [abs_signed_sub_of_ne hsign (magnitude_nonneg rank) hq] at heq
        have hnearest := (hspec 0).1
        rw [magnitude_zero, zero_sub, abs_neg, abs_of_nonneg hq, ← heq] at hnearest
        have hzero : magnitude rank = 0 :=
          le_antisymm (by linarith) (magnitude_nonneg rank)
        rw [hzero, zero_add] at heq
        have hsame : |magnitude rank - q| = |magnitude r - q| := by
          rwa [hzero, zero_sub, abs_neg, abs_of_nonneg hq]
        refine heven hsame fun heqZero => hne ?_
        rw [← heqZero, hzero, mul_zero, mul_zero]

/-! ## There is one nearest double -/

theorem magnitude_strictMono : StrictMono magnitude := by
  refine strictMono_nat_of_lt_succ fun rank => ?_
  have hexponent := exponent_ge rank
  have hcast : (((exponent rank + 1074).toNat : Nat) : Int) - 1074 = exponent rank := by omega
  have hfull : (exponent rank + 1074).toNat = 0 ∨ 2 ^ 52 ≤ significand rank + 1 := by
    unfold exponent significand
    split_ifs <;> omega
  have hsucc : rank + 1 = significand rank + 1 + (exponent rank + 1074).toNat * 2 ^ 52 := by
    have hrank := rank_eq rank
    omega
  have hpow : (0 : ℚ) < 2 ^ exponent rank := by positivity
  rw [hsucc, magnitude_steps _ (significand_lt rank) hfull, hcast, magnitude, Nat.cast_succ]
  gcongr
  exact lt_add_one _

theorem significand_mod_two (rank : Nat) : significand rank % 2 = rank % 2 := by
  unfold significand
  split_ifs <;> omega

theorem exists_magnitude_between {r s : Nat} (hr : significand r % 2 = 0)
    (hs : significand s % 2 = 0) (hlt : magnitude r < magnitude s) :
    r + 1 < s ∧ magnitude r < magnitude (r + 1) ∧ magnitude (r + 1) < magnitude s := by
  have hrank : r < s := magnitude_strictMono.lt_iff_lt.1 hlt
  rw [significand_mod_two] at hr hs
  have hgap : r + 1 < s := by omega
  exact ⟨hgap, magnitude_strictMono (Nat.lt_succ_self r), magnitude_strictMono hgap⟩

theorem exists_between {x y : Binary64} (hx : x.isEven) (hy : y.isEven)
    (hxfinite : x.isFinite = true) (hyfinite : y.isFinite = true) (hlt : x.value < y.value) :
    ∃ z : Binary64, z.isFinite = true ∧ x.value < z.value ∧ z.value < y.value := by
  rcases x with _ | ⟨signX, r, hr⟩
  · cases hxfinite
  rcases y with _ | ⟨signY, s, hs⟩
  · cases hyfinite
  replace hxfinite : r < infinityRank := of_decide_eq_true hxfinite
  replace hyfinite : s < infinityRank := of_decide_eq_true hyfinite
  have hpositive (rank : Nat) : signFactor false * magnitude rank = magnitude rank := one_mul _
  have hnegative (rank : Nat) : signFactor true * magnitude rank = -magnitude rank :=
    neg_one_mul _
  have hbetween (sign : Bool) (rank : Nat) (hfinite : rank < infinityRank) {a b : ℚ}
      (hlow : a < signFactor sign * magnitude rank) (hhigh : signFactor sign * magnitude rank < b) :
      ∃ z : Binary64, z.isFinite = true ∧ a < z.value ∧ z.value < b :=
    ⟨ranked sign rank hfinite.le, decide_eq_true hfinite, hlow, hhigh⟩
  have hzero : significand 0 % 2 = 0 := rfl
  have hrNonneg := magnitude_nonneg r
  have hsNonneg := magnitude_nonneg s
  cases signX <;> cases signY <;> simp only [value, hpositive, hnegative] at hlt ⊢
  · -- Both are positive.
    obtain ⟨hgap, hlow, hhigh⟩ := exists_magnitude_between hx hy hlt
    exact hbetween false (r + 1) (by omega) (by rwa [hpositive]) (by rwa [hpositive])
  · linarith
  · -- Zero lies between them, unless one of them is zero.
    rcases hrNonneg.eq_or_lt with hrZero | hrPos
    · obtain ⟨hgap, hlow, hhigh⟩ :=
        exists_magnitude_between hzero hy (by rw [magnitude_zero]; linarith)
      rw [magnitude_zero] at hlow
      exact hbetween false 1 (by omega) (by rw [hpositive]; linarith) (by rwa [hpositive])
    · rcases hsNonneg.eq_or_lt with hsZero | hsPos
      · obtain ⟨hgap, hlow, hhigh⟩ := exists_magnitude_between hzero hx (by rwa [magnitude_zero])
        rw [magnitude_zero] at hlow
        exact hbetween true 1 (by omega) (by rw [hnegative]; exact neg_lt_neg hhigh)
          (by rw [hnegative]; linarith)
      · exact hbetween false 0 (by omega) (by rw [magnitude_zero]; linarith)
          (by rwa [magnitude_zero, mul_zero])
  · -- Both are negative.
    obtain ⟨hgap, hlow, hhigh⟩ := exists_magnitude_between hy hx (neg_lt_neg_iff.1 hlt)
    exact hbetween true (s + 1) (by omega) (by rw [hnegative]; exact neg_lt_neg hhigh)
      (by rw [hnegative]; exact neg_lt_neg hlow)

theorem abs_sub_lt_of_between {a b c q : ℚ} (hac : a < c) (hcb : c < b) (h : |a - q| = |b - q|) :
    |c - q| < |b - q| := by
  rcases abs_eq_abs.1 h with heq | hmiddle
  · linarith
  · have hb : 0 < b - q := by linarith
    rw [abs_of_pos hb, abs_lt]
    constructor <;> linarith

/-- **There is one nearest value.** -/
theorem IsNearest.unique {q : ℚ} {x y : Binary64} (hx : IsNearest q x) (hy : IsNearest q y) :
    x.value = y.value := by
  have hdistance : |x.value - q| = |y.value - q| :=
    le_antisymm (hx.nearest y hy.finite) (hy.nearest x hx.finite)
  -- Of two that are as near, both would be even, and even ones have a double between them that is
  -- nearer.
  have hnot {x y : Binary64} (hx : IsNearest q x) (hy : IsNearest q y)
      (hdistance : |x.value - q| = |y.value - q|) : ¬ x.value < y.value := by
    intro hlt
    have hxeven := hx.even y hy.finite hdistance.symm hlt.ne'
    have hyeven := hy.even x hx.finite hdistance hlt.ne
    obtain ⟨z, hz, hxz, hzy⟩ := exists_between hxeven hyeven hx.finite hy.finite hlt
    exact absurd (hy.nearest z hz) (not_le.2 (abs_sub_lt_of_between hxz hzy hdistance))
  exact le_antisymm (not_lt.1 (hnot hy hx hdistance.symm)) (not_lt.1 (hnot hx hy hdistance))

end Binary64

end FactGraph
