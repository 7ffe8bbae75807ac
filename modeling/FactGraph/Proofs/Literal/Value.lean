import Mathlib.Data.Nat.Digits.Defs
import FactGraph.Proofs.Binary64.Nearest
import FactGraph.Proofs.Literal.Overflow
import FactGraph.Proofs.Literal.Recognition

/-!
# The values of numbers

**Theorem (`Number.ofText_eq_value`).** An integer is read as its value, where 64 bits hold it, and
else as the nearest double; with the mark of a base it is out of range from `2 ^ 64` on. A number
with a point or an exponent is read as the nearest double, and is out of range where this is
infinite. No number is malformed.

The value is told by the forms of the grammar (`Grammar.IsInteger`, `Grammar.IsFloat`), which all
numbers have (`Grammar.mem_signedNumber_iff`): it is put together from the values of its digits, its
exponent and its sign, while the reader puts all digits in one natural number and rounds once.
-/

namespace FactGraph

open Computability Grammar
open Binary64 (overflowBound IsNearest signFactor)

namespace Grammar

/-! ## Values by the grammar -/

/-- The value of a character as a digit. -/
def digitOf (c : Char) : Nat :=
  if c ≤ '9' then c.toNat - '0'.toNat
  else if 'a' ≤ c then c.toNat - 'a'.toNat + 10
  else c.toNat - 'A'.toNat + 10

/-- The digits of a text without its underscores. -/
def digitsOf (w : List Char) : List Nat := (w.filter (· ≠ '_')).map digitOf

/-- The natural number that a text of digits denotes. -/
def natOf (base : Nat) (w : List Char) : Nat := Nat.ofDigits base (digitsOf w).reverse

/-- A natural number with a sign before it. -/
def intOf (sign : List Char) (n : Nat) : Int := if sign = ['-'] then -n else n

/-- Digits on both sides of a point. -/
def pointedValue (before behind : List Char) : ℚ :=
  natOf 10 before + natOf 10 behind / 10 ^ (digitsOf behind).length

/-- The text is an integer of this value, with the mark of a base or without. -/
inductive IsInteger : Bool → List Char → Int → Prop
  | decimal {s digits : List Char} (hsign : s ∈ optional sign) (hdigits : digits ∈ decInteger) :
    IsInteger false (s ++ digits) (intOf s (natOf 10 digits))
  | based {s digits : List Char} {base : Base} {mark : Char} (hsign : s ∈ optional sign)
    (hmark : isMark base mark) (hdigits : digits ∈ oneOrMore (spaced (oneOf (inBase base)))) :
    IsInteger true (s ++ '0' :: mark :: digits) (intOf s (natOf base.size digits))

/-- The text stands behind the mark of an exponent of this value. -/
inductive IsScale : List Char → Int → Prop
  | mk {s digits : List Char} (hsign : s ∈ optional sign) (hdigits : digits ∈ digitPart) :
    IsScale (s ++ digits) (intOf s (natOf 10 digits))

/-- The text stands before an exponent and has this value. -/
inductive IsMantissa : List Char → ℚ → Prop
  | digits {digits : List Char} (hdigits : digits ∈ digitPart) :
    IsMantissa digits (natOf 10 digits)
  | pointed {before behind : List Char} (hpointed : ArePointed before behind) :
    IsMantissa (before ++ '.' :: behind) (pointedValue before behind)

/-- The text is a number with a point or an exponent, with this sign and magnitude. -/
inductive IsFloat : List Char → Bool → ℚ → Prop
  | pointed {s before behind : List Char} (hsign : s ∈ optional sign)
    (hpointed : ArePointed before behind) :
    IsFloat (s ++ (before ++ '.' :: behind)) (s = ['-']) (pointedValue before behind)
  | scaled {s mantissa rest : List Char} {mark : Char} {q : ℚ} {e : Int}
    (hsign : s ∈ optional sign) (hmantissa : IsMantissa mantissa q)
    (hmark : mark = 'e' ∨ mark = 'E') (hscale : IsScale rest e) :
    IsFloat (s ++ (mantissa ++ mark :: rest)) (s = ['-']) (q * 10 ^ e)

variable {w : List Char}

theorem mem_scale_iff : w ∈ scale ↔ ∃ e, IsScale w e := by
  constructor
  · rintro ⟨s, hs, digits, hdigits, rfl⟩
    exact ⟨_, .mk hs hdigits⟩
  · rintro ⟨_, ⟨hs, hdigits⟩⟩
    exact ⟨_, hs, _, hdigits, rfl⟩

theorem mem_mantissa_iff : w ∈ pointFloat ∨ w ∈ digitPart ↔ ∃ q, IsMantissa w q := by
  rw [mem_pointFloat_iff]
  constructor
  · rintro (⟨before, behind, rfl, hpointed⟩ | hdigits)
    · exact ⟨_, .pointed hpointed⟩
    · exact ⟨_, .digits hdigits⟩
  · rintro ⟨_, hdigits | hpointed⟩
    · exact .inr hdigits
    · exact .inl ⟨_, _, rfl, hpointed⟩

/-- **The numbers are the integers and the numbers with a point or an exponent.** -/
theorem mem_signedNumber_iff : w ∈ signedNumber ↔
    (∃ marked z, IsInteger marked w z) ∨ ∃ negative q, IsFloat w negative q := by
  constructor
  · rintro ⟨s, hs, number, hnumber, rfl⟩
    rcases mem_number_iff.1 hnumber with (hfloat | hinteger) | ⟨base, hbased⟩
    · rcases hfloat with hexponent | hpoint
      · obtain ⟨mantissa, mark, rest, hmantissa, hmark, hrest, rfl⟩ :=
          mem_exponentFloat_iff.1 hexponent
        obtain ⟨q, hq⟩ := mem_mantissa_iff.1 hmantissa
        obtain ⟨e, he⟩ := mem_scale_iff.1 hrest
        exact .inr ⟨_, _, .scaled hs hq hmark he⟩
      · obtain ⟨before, behind, rfl, hpointed⟩ := mem_pointFloat_iff.1 hpoint
        exact .inr ⟨_, _, .pointed hs hpointed⟩
    · exact .inl ⟨_, _, .decimal hs hinteger⟩
    · obtain ⟨mark, digits, rfl, hmark, hdigits⟩ := mem_basedInteger_iff.1 hbased
      exact .inl ⟨_, _, .based hs hmark
        ((mem_oneOrMore_iff nil_not_mem_spaced_oneOf).2 hdigits)⟩
  · rintro (⟨marked, z, hinteger⟩ | ⟨negative, q, hfloat⟩)
    · cases hinteger with
      | decimal hs hdigits => exact ⟨_, hs, _, mem_number_iff.2 (.inl (.inr hdigits)), rfl⟩
      | based hs hmark hdigits =>
        have hbased := mem_basedInteger_iff.2
          ⟨_, _, rfl, hmark, (mem_oneOrMore_iff nil_not_mem_spaced_oneOf).1 hdigits⟩
        exact ⟨_, hs, _, mem_number_iff.2 (.inr ⟨_, hbased⟩), rfl⟩
    · cases hfloat with
      | pointed hs hpointed =>
        exact ⟨_, hs, _, mem_number_iff.2 (.inl (.inl (.inr
          (mem_pointFloat_iff.2 ⟨_, _, rfl, hpointed⟩)))), rfl⟩
      | scaled hs hmantissa hmark hscale =>
        exact ⟨_, hs, _, mem_number_iff.2 (.inl (.inl (.inl (mem_exponentFloat_iff.2
          ⟨_, _, _, mem_mantissa_iff.2 ⟨_, hmantissa⟩, hmark, mem_scale_iff.2 ⟨_, hscale⟩,
            rfl⟩)))), rfl⟩

end Grammar

/-! ## Digits -/

variable {base : Nat} {w : List Char} {ds : List Nat}

theorem digitOf_eq {c : Char} {d : Nat} (h : digitValue? base c = some d) :
    digitOf c = d ∧ c ≠ '_' := by
  have hunderscore : c ≠ '_' := by
    rintro rfl
    cases h
  rw [digitValue?_eq_some_iff] at h
  refine ⟨?_, hunderscore⟩
  simp only [digitOf, char_le_iff, digit_codes]
  split_ifs <;> omega

theorem digitsOf_cons {c : Char} {d : Nat} (h : digitValue? base c = some d) (rest : List Char) :
    digitsOf (c :: rest) = d :: digitsOf rest := by
  obtain ⟨hdigit, hunderscore⟩ := digitOf_eq h
  simp [digitsOf, hunderscore, hdigit]

/-- **The digits that are read are those of the text.** -/
theorem digitsOf_eq_of_furtherDigits? (h : furtherDigits? base w = some ds) : digitsOf w = ds := by
  induction w using furtherDigits?.induct generalizing ds with
  | case1 =>
    cases h
    rfl
  | case2 c rest ih =>
    obtain ⟨d, hd, h⟩ := Option.bind_eq_some_iff.1 h
    obtain ⟨ds', hds, h⟩ := Option.bind_eq_some_iff.1 h
    cases h
    exact (digitsOf_cons hd rest).trans (by rw [ih hds])
  | case3 c rest hnot ih =>
    rw [furtherDigits?] at h
    · obtain ⟨d, hd, h⟩ := Option.bind_eq_some_iff.1 h
      obtain ⟨ds', hds, h⟩ := Option.bind_eq_some_iff.1 h
      cases h
      rw [digitsOf_cons hd, ih hds]
    · exact hnot

theorem digitsOf_eq_of_digits? (h : digits? base w = some ds) : digitsOf w = ds := by
  cases w with
  | nil => cases h
  | cons c rest =>
    obtain ⟨d, hd, h⟩ := Option.bind_eq_some_iff.1 h
    obtain ⟨ds', hds, h⟩ := Option.bind_eq_some_iff.1 h
    cases h
    rw [digitsOf_cons hd, digitsOf_eq_of_furtherDigits? hds]

/-- Digits are valued from the last one on, or from the first one. -/
theorem natOf_eq (base : Nat) (w : List Char) : natOf base w = valueOfDigits base (digitsOf w) := by
  rw [natOf]
  generalize digitsOf w = ds
  induction ds using List.reverseRecOn with
  | nil => rfl
  | append_singleton ds d ih =>
    rw [List.reverse_append, List.reverse_singleton, List.singleton_append, Nat.ofDigits_cons, ih,
      valueOfDigits_append]
    simp [valueOfDigits, Nat.mul_comm, Nat.add_comm]

theorem digits?_of_mem_digitPart (h : w ∈ digitPart) : digits? 10 w = some (digitsOf w) := by
  obtain ⟨ds, hds⟩ := mem_digitPart_iff.1 h
  rw [hds, digitsOf_eq_of_digits? hds]

namespace Magnitude

theorem optionalDigits?_eq (h : w = [] ∨ w ∈ digitPart) :
    optionalDigits? w = some (digitsOf w) := by
  rcases h with rfl | h
  · rfl
  · have hne : w.isEmpty = false := by
      cases w with
      | nil => exact absurd h nil_not_mem_digitPart
      | cons => rfl
    rw [optionalDigits?, hne, if_neg (by simp), digits?_of_mem_digitPart h]

theorem exponent?_eq {e : Int} (h : IsScale w e) : exponent? w = some e := by
  obtain ⟨hs, hdigits⟩ := h
  obtain ⟨c, rest, hc, rfl⟩ := digitPart_le_starts hdigits
  rw [exponent?, splitSign_append_cons hs (ne_sign_of_startsNumber (.inl hc))]
  simp [digits?_of_mem_digitPart hdigits, natOf_eq, intOf]

/-! ## Numbers without their sign -/

theorem read?_of_inDecimal (h : ∀ c ∈ w, inDecimal c) : read? w = readDecimal? w :=
  read?_eq_readDecimal? fun mark rest heq => Option.eq_none_iff_forall_ne_some.2 fun _ hmark =>
    not_inDecimal_of_isMark (ofMark?_eq_some_iff.1 hmark) (h mark (by simp [heq]))

theorem read?_decInteger (h : w ∈ decInteger) : read? w = some (.whole (digitsOf w)) := by
  obtain ⟨ds, hds, hzeros⟩ := mem_decInteger_iff.1 h
  rw [read?_of_inDecimal (decInteger_le_over h),
    readDecimal?_before_eq (isBefore_of_mem_decInteger h), hds, Option.bind_some, if_neg hzeros,
    digitsOf_eq_of_digits? hds]

theorem read?_based {base : Base} {mark : Char} (hmark : isMark base mark)
    (h : w ∈ oneOrMore (spaced (oneOf (inBase base)))) :
    read? ('0' :: mark :: w) = some (.based base (digitsOf w)) := by
  have hbase := ofMark?_eq_some_iff.2 hmark
  have hmem : '0' :: mark :: w ∈ basedInteger base :=
    mem_basedInteger_iff.2 ⟨mark, w, rfl, hmark,
      (mem_oneOrMore_iff nil_not_mem_spaced_oneOf).1 h⟩
  obtain ⟨m, hread⟩ := Option.isSome_iff_exists.1 ((read?_marked_isSome_iff hbase).2 hmem)
  rw [hread]
  simp only [read?, hbase] at hread
  obtain ⟨ds, hds, hread⟩ := Option.bind_eq_some_iff.1 hread
  obtain ⟨-, hm⟩ := Option.ite_none_left_eq_some.1 hread
  rw [← hm, digitsOf_eq_of_furtherDigits? hds]

theorem readDecimal?_pointed_value {before behind marked : List Char} {e : Int}
    (h : ArePointed before behind) (hmark : ∀ c, marked.head? = some c → isExponentMark c = true)
    (hscale : marked = [] ∧ e = 0 ∨ marked ≠ [] ∧ exponent? marked.tail = some e) :
    readDecimal? (before ++ '.' :: behind ++ marked) =
      some (.decimal (digitsOf before) (digitsOf behind) e) := by
  have hbehind : ∀ c ∈ behind, isExponentMark c = false := fun c hc =>
    (isBefore_of_eq_nil_or_mem h.digitsBehind c hc).2
  have hdigits : ¬ (before.isEmpty = true ∧ behind.isEmpty = true) := by
    rw [List.isEmpty_iff, List.isEmpty_iff]
    exact h.hasDigits
  have hexponent : (if marked.isEmpty then some 0 else exponent? marked.tail) = some e := by
    rcases hscale with ⟨rfl, rfl⟩ | ⟨hne, hread⟩
    · rfl
    · rw [if_neg (by rwa [List.isEmpty_iff]), hread]
  rw [readDecimal?_pointed_eq (isBefore_of_eq_nil_or_mem h.digitsBefore) hbehind hmark,
    if_neg hdigits, hexponent, optionalDigits?_eq h.digitsBefore, optionalDigits?_eq h.digitsBehind]
  rfl

theorem decimal_value (before behind : List Nat) (e : Int) :
    (valueOfDigits 10 (before ++ behind) : ℚ) * 10 ^ (e - behind.length) =
      (valueOfDigits 10 before + valueOfDigits 10 behind / 10 ^ behind.length) * 10 ^ e := by
  rw [valueOfDigits_append, zpow_sub₀ (by norm_num), zpow_natCast]
  push_cast
  field_simp

/-- A magnitude is that of a decimal. -/
def IsDecimal (m : Magnitude) (q : ℚ) : Prop :=
  ∃ before behind e, m = .decimal before behind e ∧
    q = valueOfDigits 10 (before ++ behind) * 10 ^ (e - (behind.length : Int))

theorem readDecimal?_scaled {mantissa rest : List Char} {mark : Char} {q : ℚ} {e : Int}
    (hmantissa : IsMantissa mantissa q) (hmark : mark = 'e' ∨ mark = 'E')
    (hscale : IsScale rest e) :
    ∃ m, readDecimal? (mantissa ++ mark :: rest) = some m ∧ m.IsDecimal (q * 10 ^ e) := by
  have hexponent := exponent?_eq hscale
  have hisMark := isExponentMark_iff.2 hmark
  cases hmantissa with
  | digits hdigits =>
    refine ⟨_, ?_, digitsOf mantissa, [], e, rfl, ?_⟩
    · rw [readDecimal?_marked_eq (isBefore_of_mem_digitPart hdigits) hisMark,
        digits?_of_mem_digitPart hdigits, hexponent]
      rfl
    · simp [natOf_eq]
  | pointed hpointed =>
    refine ⟨_, readDecimal?_pointed_value hpointed (by simpa using hisMark)
      (.inr ⟨List.cons_ne_nil _ _, hexponent⟩), _, _, _, rfl, ?_⟩
    rw [decimal_value, pointedValue, natOf_eq, natOf_eq]

theorem readDecimal?_pointed_plain {before behind : List Char} (h : ArePointed before behind) :
    ∃ m, readDecimal? (before ++ '.' :: behind) = some m ∧
      m.IsDecimal (pointedValue before behind) := by
  have hnone : ∀ c, ([] : List Char).head? = some c → isExponentMark c = true :=
    fun c hc => nomatch hc
  have hread := readDecimal?_pointed_value h hnone (.inl ⟨rfl, rfl⟩)
  rw [List.append_nil] at hread
  refine ⟨_, hread, _, _, _, rfl, ?_⟩
  rw [decimal_value, pointedValue, natOf_eq, natOf_eq, zpow_zero, mul_one]

end Magnitude

/-! ## Numbers with their sign -/

theorem Numeral.read?_signed {s number : List Char} (hs : s ∈ optional sign) {m : Magnitude}
    (h : Magnitude.read? number = some m) :
    Numeral.read? (s ++ number) = some ⟨s ++ number, s = ['-'], m⟩ := by
  have hnumber : number ∈ Grammar.number := Magnitude.read?_isSome_iff.1 (by rw [h]; rfl)
  obtain ⟨c, rest, hc, rfl⟩ := number_le_starts hnumber
  rw [Numeral.read?, splitSign_append_cons hs (ne_sign_of_startsNumber hc)]
  simp only [h, Option.map_some]

/-- **A number with a point or an exponent is read as a decimal of its magnitude.** -/
theorem Numeral.read?_of_isFloat {negative : Bool} {q : ℚ} (h : IsFloat w negative q) :
    ∃ m, Numeral.read? w = some ⟨w, negative, m⟩ ∧ m.IsDecimal q := by
  have hover {number : List Char} (hnumber : number ∈ floatNumber) :
      Magnitude.read? number = Magnitude.readDecimal? number :=
    Magnitude.read?_of_inDecimal (floatNumber_le_over hnumber)
  cases h with
  | pointed hs hpointed =>
    obtain ⟨m, hread, hvalue⟩ := Magnitude.readDecimal?_pointed_plain hpointed
    rw [← hover (.inr (mem_pointFloat_iff.2 ⟨_, _, rfl, hpointed⟩))] at hread
    exact ⟨m, Numeral.read?_signed hs hread, hvalue⟩
  | scaled hs hmantissa hmark hscale =>
    obtain ⟨m, hread, hvalue⟩ := Magnitude.readDecimal?_scaled hmantissa hmark hscale
    rw [← hover (.inl (mem_exponentFloat_iff.2 ⟨_, _, _, mem_mantissa_iff.2 ⟨_, hmantissa⟩, hmark,
      mem_scale_iff.2 ⟨_, hscale⟩, rfl⟩))] at hread
    exact ⟨m, Numeral.read?_signed hs hread, hvalue⟩

theorem signed_eq_intOf (s : List Char) (n : Nat) :
    Number.signed (decide (s = ['-'])) n = intOf s n := by
  by_cases hs : s = ['-'] <;> simp [Number.signed, intOf, hs]

theorem natAbs_intOf (s : List Char) (n : Nat) : (intOf s n).natAbs = n := by
  rw [← signed_eq_intOf, Number.natAbs_signed]

/-! ## Rounding -/

/-- An integer below the bound of overflow is rounded to the nearest double. -/
theorem Binary64.isNearest_ofInt {z : Int} (h : z.natAbs < overflowBound) :
    IsNearest z (ofInt z) := by
  have hnearest := isNearest_ofRank (decide (z < 0)) Nat.one_pos (by rwa [Nat.mul_one])
  have hvalue : signFactor (decide (z < 0)) * ((z.natAbs : ℚ) / (1 : Nat)) = z := by
    have hcast : (z.natAbs : ℚ) = |(z : ℚ)| := by rw [Nat.cast_natAbs, Int.cast_abs]
    rw [hcast, Nat.cast_one, div_one, signFactor]
    by_cases hz : z < 0
    · rw [abs_of_neg (by exact_mod_cast hz)]
      simp [hz]
    · rw [abs_of_nonneg (by exact_mod_cast not_lt.1 hz)]
      simp [hz]
  rwa [hvalue] at hnearest

theorem decimal_fraction (digits : Nat) (exp : Int) :
    ((digits * 10 ^ exp.toNat : Nat) : ℚ) / (10 ^ (-exp).toNat : Nat) = digits * 10 ^ exp := by
  have h := scaled_ratio 10 (by norm_num) digits 1 (-exp)
  simpa using h

namespace Binary64

variable {digits : Nat} {exp : Int}

theorem isFinite_ofDecimal_iff (negative : Bool) :
    (ofDecimal negative digits exp).isFinite = true ↔
      (digits : ℚ) * 10 ^ exp < overflowBound := by
  have hden : 0 < 10 ^ (-exp).toNat := Nat.pow_pos (by norm_num)
  have hpos : (0 : ℚ) < (10 ^ (-exp).toNat : Nat) := by exact_mod_cast hden
  rw [ofDecimal, isFinite_ofRank _ (decimalRank_le _ _), decimalRank_eq, Ne,
    nearestRank_eq_infinityRank_iff hden, Nat.not_le, ← decimal_fraction, div_lt_iff₀ hpos]
  exact_mod_cast Iff.rfl

/-- A decimal below the bound of overflow is rounded to the nearest double of its sign. -/
theorem isNearest_ofDecimal (negative : Bool) (h : (digits : ℚ) * 10 ^ exp < overflowBound) :
    IsNearest (signFactor negative * (digits * 10 ^ exp)) (ofDecimal negative digits exp) := by
  have hden : 0 < 10 ^ (-exp).toNat := Nat.pow_pos (by norm_num)
  have hpos : (0 : ℚ) < (10 ^ (-exp).toNat : Nat) := by exact_mod_cast hden
  rw [← decimal_fraction, div_lt_iff₀ hpos] at h
  rw [ofDecimal, decimalRank_eq, ← decimal_fraction]
  exact isNearest_ofRank negative hden (by exact_mod_cast h)

end Binary64

/-! ## The values of numbers -/

namespace Number

/-- **An integer is read as its value**, which is limited if it has the mark of a base. -/
theorem ofText_of_isInteger {marked : Bool} {z : Int} (h : IsInteger marked w z) :
    ofText (String.ofList w) =
      if marked = true ∧ 2 ^ 64 ≤ z.natAbs then .error (.tooLarge (String.ofList w))
      else .ok (ofInt z) := by
  rw [ofText, String.toList_ofList]
  cases h with
  | decimal hs hdigits =>
    rw [Numeral.read?_signed hs (Magnitude.read?_decInteger hdigits)]
    simp only [ofNumeral, ← natOf_eq, signed_eq_intOf]
    rfl
  | @based s digits base mark hs hmark hdigits =>
    rw [Numeral.read?_signed hs (Magnitude.read?_based hmark hdigits)]
    simp only [ofNumeral, ← natOf_eq, signed_eq_intOf, natAbs_intOf, true_and]
    by_cases hsmall : natOf base.size digits < 2 ^ 64
    · rw [if_pos hsmall, if_neg (Nat.not_le.2 hsmall)]
    · rw [if_neg hsmall, if_pos (Nat.not_lt.1 hsmall)]

/-- **A number with a point or an exponent is read as the nearest double**, or is out of range. -/
theorem ofText_of_isFloat {negative : Bool} {q : ℚ} (h : IsFloat w negative q) :
    (q < overflowBound → ∃ rank le,
        ofText (String.ofList w) = .ok (.float (.ranked negative rank le)) ∧
          IsNearest (signFactor negative * q) (.ranked negative rank le)) ∧
      (overflowBound ≤ q → ofText (String.ofList w) = .error (.notFinite (String.ofList w))) := by
  obtain ⟨m, hread, before, behind, exp, rfl, rfl⟩ := Numeral.read?_of_isFloat h
  rw [ofText, String.toList_ofList, hread]
  simp only [ofNumeral]
  refine ⟨fun hbound => ?_, fun hbound => ?_⟩
  · rw [if_pos ((Binary64.isFinite_ofDecimal_iff negative).2 hbound)]
    exact ⟨_, Nat.min_le_right .., rfl, Binary64.isNearest_ofDecimal negative hbound⟩
  · have hfinite := mt (Binary64.isFinite_ofDecimal_iff negative).1 (not_lt.2 hbound)
    rw [if_neg hfinite]

theorem ofInt_spec (z : Int) :
    (∀ v, ofInt z = .int v → v.toInt = z) ∧ ((∃ v, ofInt z = .int v) ↔ FitsInt64 z) ∧
      (¬ FitsInt64 z → ofInt z = .float (.ofInt z)) := by
  by_cases hfits : FitsInt64 z
  · rw [ofInt, if_pos hfits]
    refine ⟨fun v hv => ?_, iff_of_true ⟨_, rfl⟩ hfits, fun hnot => absurd hfits hnot⟩
    cases hv
    exact Int64.toInt_ofInt_of_le hfits.1 hfits.2
  · rw [ofInt, if_neg hfits]
    simp [hfits]

/-- **Numbers are read as their values.** Each is an integer or has a point or an exponent. -/
theorem ofText_eq_value (w : List Char) :
    (w ∈ signedNumber ↔ (∃ marked z, IsInteger marked w z) ∨ ∃ negative q, IsFloat w negative q) ∧
    (∀ marked z, IsInteger marked w z →
      ((∃ v, ofText (.ofList w) = .ok (.int v)) ↔ FitsInt64 z) ∧
      (∀ v, ofText (.ofList w) = .ok (.int v) → v.toInt = z) ∧
      (marked = true → 2 ^ 64 ≤ z.natAbs →
        ∃ e, ofText (.ofList w) = .error e ∧ e.kind = .outOfRange) ∧
      (¬ FitsInt64 z → (marked = true → z.natAbs < 2 ^ 64) → z.natAbs < overflowBound →
        ∃ x, ofText (.ofList w) = .ok (.float x) ∧ IsNearest z x)) ∧
    (∀ negative q, IsFloat w negative q →
      (q < overflowBound →
        ∃ rank le, ofText (.ofList w) = .ok (.float (.ranked negative rank le)) ∧
          IsNearest (signFactor negative * q) (.ranked negative rank le)) ∧
      (overflowBound ≤ q → ∃ e, ofText (.ofList w) = .error e ∧ e.kind = .outOfRange)) ∧
    (w ∈ signedNumber → ∀ e, ofText (.ofList w) = .error e → e.kind ≠ .malformed) := by
  refine ⟨mem_signedNumber_iff, fun marked z h => ?_, fun negative q h => ?_, fun h e he => ?_⟩
  · have hread := ofText_of_isInteger h
    obtain ⟨hvalue, hfits, hrounded⟩ := ofInt_spec z
    by_cases hlarge : marked = true ∧ 2 ^ 64 ≤ z.natAbs
    · have hnot : ¬ FitsInt64 z := by
        unfold FitsInt64
        omega
      rw [hread, if_pos hlarge]
      exact ⟨iff_of_false (fun ⟨v, hv⟩ => nomatch hv) hnot, fun v hv => (nomatch hv),
        fun _ _ => ⟨_, rfl, rfl⟩, fun _ hsmall => absurd (hsmall hlarge.1) (Nat.not_lt.2 hlarge.2)⟩
    · rw [hread, if_neg hlarge]
      refine ⟨by simpa using hfits, fun v hv => hvalue v (Except.ok.inj hv),
        fun hmarked hle => absurd ⟨hmarked, hle⟩ hlarge, fun hnot _ hbound => ?_⟩
      rw [hrounded hnot]
      exact ⟨_, rfl, Binary64.isNearest_ofInt hbound⟩
  · obtain ⟨hrounded, hrefused⟩ := ofText_of_isFloat h
    exact ⟨hrounded, fun hbound => ⟨_, hrefused hbound, rfl⟩⟩
  · have hkind : e.kind = .outOfRange := by
      obtain ⟨n, hn⟩ := Option.isSome_iff_exists.1 (Numeral.read?_isSome_iff.2 h)
      have hread : ofText (.ofList w) = ofNumeral n := by
        rw [ofText, String.toList_ofList, hn]
      exact kind_of_ofNumeral (hread.symm.trans he)
    rw [hkind]
    exact nofun

/-- The least integer of 64 bits in base sixteen is read as itself, and the first integer beyond the
largest one in base ten as the nearest double. -/
theorem ofText_eq_value_limits :
    (∃ v, ofText "-0x8000_0000_0000_0000" = .ok (.int v) ∧ v.toInt = -2 ^ 63) ∧
      ∃ x, ofText "9_223_372_036_854_775_808" = .ok (.float x) ∧ IsNearest (2 ^ 63) x := by
  have hleast : IsInteger true "-0x8000_0000_0000_0000".toList (-2 ^ 63) := by
    have htext : "-0x8000_0000_0000_0000".toList =
        ['-'] ++ '0' :: 'x' :: "8000_0000_0000_0000".toList := by decide +kernel
    have hvalue : intOf ['-'] (natOf Base.hexadecimal.size "8000_0000_0000_0000".toList) =
        -2 ^ 63 := by decide +kernel
    have hdigits : "8000_0000_0000_0000".toList ∈
        oneOrMore (spaced (oneOf (inBase .hexadecimal))) := by
      have hread :
          (Magnitude.read? ('0' :: 'x' :: "8000_0000_0000_0000".toList)).isSome = true := by
        decide +kernel
      obtain ⟨_, _, heq, -, hdigits⟩ :=
        mem_basedInteger_iff.1 ((Magnitude.read?_marked_isSome_iff rfl).1 hread)
      rw [(List.cons.inj (List.cons.inj heq).2).2]
      exact (mem_oneOrMore_iff nil_not_mem_spaced_oneOf).2 hdigits
    rw [htext, ← hvalue]
    exact .based (mem_optional.2 (.inr ⟨'-', .inl rfl, rfl⟩)) (.inl rfl) hdigits
  have hbeyond : IsInteger false "9_223_372_036_854_775_808".toList (2 ^ 63) := by
    have hvalue : intOf [] (natOf 10 "9_223_372_036_854_775_808".toList) = 2 ^ 63 := by
      decide +kernel
    have hdigits : "9_223_372_036_854_775_808".toList ∈ decInteger :=
      mem_decInteger_iff.2 ⟨[9, 2, 2, 3, 3, 7, 2, 0, 3, 6, 8, 5, 4, 7, 7, 5, 8, 0, 8],
        by decide +kernel, by decide +kernel⟩
    rw [← hvalue]
    exact .decimal (mem_optional.2 (.inl rfl)) hdigits
  obtain ⟨hfits, hvalue, -, -⟩ := (ofText_eq_value _).2.1 true _ hleast
  obtain ⟨-, -, -, hrounded⟩ := (ofText_eq_value _).2.1 false _ hbeyond
  rw [String.ofList_toList] at hfits hvalue hrounded
  obtain ⟨v, hv⟩ := hfits.2 (by decide)
  have hbound : (2 ^ 63 : Int).natAbs < overflowBound := by decide +kernel
  obtain ⟨x, hx, hnearest⟩ := hrounded (by decide) (fun h => nomatch h) hbound
  exact ⟨⟨v, hv, hvalue v hv⟩, x, hx, by exact_mod_cast hnearest⟩

end Number

end FactGraph
