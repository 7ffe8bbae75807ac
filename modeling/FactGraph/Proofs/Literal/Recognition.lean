import FactGraph.Proofs.Literal.Grammar
import FactGraph.Proofs.Literal.Numeral

/-!
# Numbers are recognised

What is read as a numeral is exactly the words of `Grammar.signedNumber`
(`Numeral.read?_isSome_iff`). The reader cuts a text at its first mark of an exponent and its first
point; no part of a number has these marks elsewhere, so it cuts a number where the grammar puts it
together (`Magnitude.readDecimal?_isSome_iff`).
-/

namespace FactGraph

open Computability Grammar

/-! ## Digits -/

theorem char_le_iff {c d : Char} : c ≤ d ↔ c.toNat ≤ d.toNat := UInt32.le_iff_toNat_le

theorem digit_codes : '0'.toNat = 48 ∧ '1'.toNat = 49 ∧ '7'.toNat = 55 ∧ '9'.toNat = 57 ∧
    'a'.toNat = 97 ∧ 'f'.toNat = 102 ∧ 'A'.toNat = 65 ∧ 'F'.toNat = 70 := by decide

theorem eq_zeroChar_iff {c : Char} : c = '0' ↔ c.toNat = 48 := Char.toNat_inj.symm

theorem digitValue?_eq_some_iff {base : Nat} {c : Char} {d : Nat} :
    digitValue? base c = some d ↔ d < base ∧
      (48 ≤ c.toNat ∧ c.toNat ≤ 57 ∧ d = c.toNat - 48 ∨
        97 ≤ c.toNat ∧ c.toNat ≤ 102 ∧ d = c.toNat - 87 ∨
        65 ≤ c.toNat ∧ c.toNat ≤ 70 ∧ d = c.toNat - 55) := by
  simp only [digitValue?, char_le_iff, digit_codes, Option.filter_eq_some_iff, decide_eq_true_eq]
  split_ifs <;> simp <;> omega

theorem exists_digitValue?_iff {base : Nat} {c : Char} :
    (∃ d, digitValue? base c = some d) ↔
      48 ≤ c.toNat ∧ c.toNat ≤ 57 ∧ c.toNat - 48 < base ∨
        97 ≤ c.toNat ∧ c.toNat ≤ 102 ∧ c.toNat - 87 < base ∨
        65 ≤ c.toNat ∧ c.toNat ≤ 70 ∧ c.toNat - 55 < base := by
  simp only [digitValue?_eq_some_iff]
  constructor
  · rintro ⟨d, hd⟩
    omega
  · rintro (h | h | h)
    · exact ⟨c.toNat - 48, by omega⟩
    · exact ⟨c.toNat - 87, by omega⟩
    · exact ⟨c.toNat - 55, by omega⟩

theorem inBase_iff {base : Base} {c : Char} :
    inBase base c ↔ ∃ d, digitValue? base.size c = some d := by
  have hone : c = '1' ↔ c.toNat = 49 := Char.toNat_inj.symm
  rw [exists_digitValue?_iff]
  cases base with
  | binary =>
    simp only [inBase, eq_zeroChar_iff, hone, Base.size]
    omega
  | octal =>
    simp only [inBase, char_le_iff, digit_codes, Base.size]
    omega
  | hexadecimal =>
    simp only [inBase, char_le_iff, digit_codes, Base.size]
    omega

theorem isDecimal_iff {c : Char} : '0' ≤ c ∧ c ≤ '9' ↔ ∃ d, digitValue? 10 c = some d := by
  simp only [exists_digitValue?_iff, char_le_iff, digit_codes]
  omega

theorem digitValue?_underscore (base : Nat) : digitValue? base '_' = none := rfl

namespace Grammar

variable {p : Char → Prop} {cs rest : List Char} {c : Char}

theorem cons_mem_kstar_spaced : c :: rest ∈ (spaced (oneOf p))∗ ↔
    p c ∧ rest ∈ (spaced (oneOf p))∗ ∨ c = '_' ∧ rest ∈ oneOf p * (spaced (oneOf p))∗ := by
  have hspaced : spaced (oneOf p) * (spaced (oneOf p))∗ =
      optional (word "_") * (oneOf p * (spaced (oneOf p))∗) := mul_assoc ..
  rw [mem_kstar_iff, hspaced, mem_optional_mul, cons_mem_oneOf_mul, mem_word_mul]
  simp [and_comm]

end Grammar

theorem exists_cons_iff {first : Option Nat} {others : Option (List Nat)} {P : Nat → Prop} :
    (∃ ds, (first.bind fun d => others.bind fun ds => some (d :: ds)) = some ds ∧
        ∀ d ∈ ds, P d) ↔
      (∃ d, first = some d ∧ P d) ∧ ∃ ds, others = some ds ∧ ∀ d ∈ ds, P d := by
  cases first <;> cases others <;> simp

/-- The digits of a text with a property. -/
def spacedDigits (base : Nat) (P : Nat → Prop) : Language Char :=
  (spaced (oneOf fun c => ∃ d, digitValue? base c = some d ∧ P d))∗

/-- **The digits of a text are read exactly if it is written with single underscores.** -/
theorem furtherDigits?_iff {base : Nat} {P : Nat → Prop} {cs : List Char} :
    (∃ ds, furtherDigits? base cs = some ds ∧ ∀ d ∈ ds, P d) ↔
      cs ∈ spacedDigits base P := by
  unfold spacedDigits
  induction cs using furtherDigits?.induct with
  | case1 => simp [furtherDigits?, Language.nil_mem_kstar]
  | case2 c rest ih =>
    have hunderscore : ¬ ∃ d, digitValue? base '_' = some d ∧ P d := by
      simp [digitValue?_underscore]
    rw [cons_mem_kstar_spaced, cons_mem_oneOf_mul, ← ih]
    simp only [hunderscore, false_and, true_and, false_or]
    exact exists_cons_iff
  | case3 c rest hnot ih =>
    have hplain : furtherDigits? base (c :: rest) = (digitValue? base c).bind fun d =>
        (furtherDigits? base rest).bind fun ds => some (d :: ds) := by
      rw [furtherDigits?]
      · rfl
      · exact hnot
    have hrest : ¬ (c = '_' ∧
        rest ∈ oneOf (fun c => ∃ d, digitValue? base c = some d ∧ P d) *
          (spaced (oneOf fun c => ∃ d, digitValue? base c = some d ∧ P d))∗) := by
      rintro ⟨hc, hmem⟩
      obtain ⟨d, more, -, -, heq⟩ := mem_oneOf_mul.1 hmem
      exact hnot d more hc heq
    rw [cons_mem_kstar_spaced, ← ih, hplain, exists_cons_iff, or_iff_left hrest]

theorem digits?_iff {base : Nat} {P : Nat → Prop} {cs : List Char} :
    (∃ ds, digits? base cs = some ds ∧ ∀ d ∈ ds, P d) ↔
      cs ∈ oneOf (fun c => ∃ d, digitValue? base c = some d ∧ P d) * spacedDigits base P := by
  cases cs with
  | nil => simp [digits?, nil_not_mem_oneOf_mul]
  | cons c rest =>
    rw [cons_mem_oneOf_mul, ← furtherDigits?_iff]
    exact exists_cons_iff

theorem oneOf_congr {p q : Char → Prop} (h : ∀ c, p c ↔ q c) : oneOf p = oneOf q := by
  rw [funext fun c => propext (h c)]

theorem digit_eq : digit = oneOf fun c => ∃ d, digitValue? 10 c = some d ∧ True :=
  oneOf_congr fun c => by simpa using isDecimal_iff

theorem zero_eq : word "0" = oneOf fun c => ∃ d, digitValue? 10 c = some d ∧ d = 0 := by
  have hzero (c : Char) : (∃ d, digitValue? 10 c = some d ∧ d = 0) ↔ c = '0' := by
    simp only [exists_eq_right, digitValue?_eq_some_iff, eq_zeroChar_iff]
    omega
  rw [oneOf_congr hzero]
  ext w
  simp

/-- **Digits with single underscores between them are read.** -/
theorem mem_digitPart_iff {cs : List Char} : cs ∈ digitPart ↔ ∃ ds, digits? 10 cs = some ds := by
  have hdigits : (∃ ds, digits? 10 cs = some ds ∧ ∀ d ∈ ds, True) ↔
      cs ∈ oneOf (fun c => ∃ d, digitValue? 10 c = some d ∧ True) * spacedDigits 10 fun _ => True :=
    digits?_iff
  rw [spacedDigits, ← digit_eq, ← digitPart] at hdigits
  simpa using hdigits.symm

/-- Zeros that come first are zeros with underscores between them, too. -/
theorem oneOrMore_mul_kstar_spaced (l : Language Char) :
    oneOrMore l * (spaced l)∗ = l * (spaced l)∗ := by
  have hle : l ≤ spaced l := fun w hw => ⟨[], mem_optional.2 (.inl rfl), w, hw, rfl⟩
  have hmore : l∗ * (spaced l)∗ ≤ (spaced l)∗ :=
    kstar_mul_le_self ((mul_le_mul_left hle _).trans mul_kstar_le_kstar)
  have hone : (spaced l)∗ ≤ l∗ * (spaced l)∗ := fun w hw =>
    ⟨[], Language.nil_mem_kstar l, w, hw, rfl⟩
  rw [oneOrMore, mul_assoc, le_antisymm hmore hone]

theorem cons_mem_decInteger_iff {c : Char} {rest : List Char} :
    c :: rest ∈ decInteger ↔
      ('1' ≤ c ∧ c ≤ '9') ∧ (∃ ds, furtherDigits? 10 rest = some ds) ∨
        c = '0' ∧ ∃ ds, furtherDigits? 10 rest = some ds ∧ ∀ d ∈ ds, d = 0 := by
  have hany : (∃ ds, furtherDigits? 10 rest = some ds ∧ ∀ d ∈ ds, True) ↔
      rest ∈ spacedDigits 10 fun _ => True := furtherDigits?_iff
  have hzeros : (∃ ds, furtherDigits? 10 rest = some ds ∧ ∀ d ∈ ds, d = 0) ↔
      rest ∈ spacedDigits 10 (· = 0) := furtherDigits?_iff
  rw [spacedDigits, ← digit_eq] at hany
  rw [spacedDigits, ← zero_eq] at hzeros
  simp only [implies_true, and_true] at hany
  rw [decInteger, oneOrMore_mul_kstar_spaced, Language.mem_add, cons_mem_oneOf_mul, mem_word_mul,
    hany, hzeros]
  simp [and_comm]

/-- **An integer of base ten has no leading zero, unless all its digits are zero.** -/
theorem mem_decInteger_iff {cs : List Char} :
    cs ∈ decInteger ↔
      ∃ ds, digits? 10 cs = some ds ∧ ¬ (ds.head? = some 0 ∧ ds.any (· ≠ 0) = true) := by
  cases cs with
  | nil =>
    have hnil : [] ∉ decInteger := by
      rw [decInteger, oneOrMore_mul_kstar_spaced, Language.mem_add, mem_word_mul]
      simp [nil_not_mem_oneOf_mul]
    simp [hnil, digits?]
  | cons c rest =>
    have hone : '1' ≤ c ∧ c ≤ '9' ↔ ∃ d, digitValue? 10 c = some d ∧ d ≠ 0 := by
      simp only [char_le_iff, digit_codes, digitValue?_eq_some_iff]
      constructor
      · exact fun h => ⟨c.toNat - 48, by omega⟩
      · rintro ⟨d, hd⟩
        omega
    have hzero : c = '0' ↔ digitValue? 10 c = some 0 := by
      rw [eq_zeroChar_iff, digitValue?_eq_some_iff]
      omega
    -- The grammar has zeros only behind a zero, and the reader refuses a zero in front of other
    -- digits.
    rw [cons_mem_decInteger_iff, hone, hzero, digits?]
    cases hvalue : digitValue? 10 c with
    | none => simp
    | some d =>
      cases hrest : furtherDigits? 10 rest with
      | none => simp
      | some ds => by_cases hd : d = 0 <;> simp [hd]

/-! ## Signs -/

theorem mem_optional_sign_mul_iff {l : Language Char} (hl : l ≤ Starts fun c => c ≠ '-' ∧ c ≠ '+')
    {cs : List Char} : cs ∈ optional sign * l ↔ (splitSign cs).2 ∈ l := by
  have hsigned {c : Char} {rest : List Char} (hc : c = '-' ∨ c = '+') :
      c :: rest ∈ optional sign * l ↔ rest ∈ l := by
    -- No number starts with a sign, so a sign in front is the optional one.
    have hbare : c :: rest ∉ l := by
      intro hmem
      obtain ⟨d, more, hd, heq⟩ := hl hmem
      rw [← (List.cons.inj heq).1] at hd
      exact hc.elim hd.1 hd.2
    rw [mem_optional_mul, sign, cons_mem_oneOf_mul]
    simp [hbare, hc]
  unfold splitSign
  split
  next rest => exact hsigned (.inl rfl)
  next rest => exact hsigned (.inr rfl)
  next hminus hplus =>
    rw [mem_optional_mul, or_iff_left]
    intro hmem
    obtain ⟨c, rest, hc, -, rfl⟩ := mem_oneOf_mul.1 hmem
    rcases hc with rfl | rfl
    · exact hminus rest rfl
    · exact hplus rest rfl

theorem splitSign_append_cons {s : List Char} (hs : s ∈ optional sign) {c : Char}
    (hc : c ≠ '-' ∧ c ≠ '+') (rest : List Char) :
    splitSign (s ++ c :: rest) = (decide (s = ['-']), c :: rest) := by
  rcases mem_optional.1 hs with rfl | ⟨d, rfl | rfl, rfl⟩
  · unfold splitSign
    split
    next heq => exact absurd (List.cons.inj heq).1 hc.1
    next heq => exact absurd (List.cons.inj heq).1 hc.2
    next => rfl
  · rfl
  · rfl

theorem ne_sign_of_startsNumber {c : Char} (h : startsNumber c) : c ≠ '-' ∧ c ≠ '+' := by
  constructor <;> rintro rfl <;> exact absurd h (by decide)

namespace Magnitude

/-- **An exponent is digits with or without a sign.** -/
theorem exponent?_isSome_iff {cs : List Char} : (exponent? cs).isSome = true ↔ cs ∈ scale := by
  have hstarts : digitPart ≤ Starts fun c => c ≠ '-' ∧ c ≠ '+' := by
    intro w hw
    obtain ⟨c, rest, hc, rfl⟩ := digitPart_le_starts hw
    exact ⟨c, rest, ne_sign_of_startsNumber (.inl hc), rfl⟩
  rw [scale, mem_optional_sign_mul_iff hstarts, mem_digitPart_iff, exponent?]
  cases hdigits : digits? 10 (splitSign cs).2 <;> simp [hdigits]

theorem optionalDigits?_isSome_iff {cs : List Char} :
    (optionalDigits? cs).isSome = true ↔ cs = [] ∨ cs ∈ digitPart := by
  rw [mem_digitPart_iff, ← Option.isSome_iff_exists]
  cases cs <;> simp [optionalDigits?]

/-! ## Numerals of base ten -/

theorem span_of_all {α : Type} {p : α → Bool} {front : List α} (h : ∀ c ∈ front, p c = true) :
    front.span p = (front, []) := by
  have hnone : ∀ c, ([] : List α).head? = some c → p c = false := fun c hc => nomatch hc
  simpa using span_append h hnone

/-- Before the point and the mark of the exponent. -/
def IsBefore (before : List Char) : Prop := ∀ c ∈ before, c ≠ '.' ∧ isExponentMark c = false

variable {before behind marked rest : List Char} {mark : Char}

theorem IsBefore.span_point (h : IsBefore before) :
    before.span (fun c => decide (c ≠ '.')) = (before, []) :=
  span_of_all fun c hc => decide_eq_true (h c hc).1

theorem readDecimal?_before_eq (hbefore : IsBefore before) :
    readDecimal? before = (digits? 10 before).bind fun ds =>
      if ds.head? = some 0 ∧ ds.any (· ≠ 0) then none else some (.whole ds) := by
  have hmantissa : before.span (fun c => !isExponentMark c) = (before, []) :=
    span_of_all fun c hc => by simpa using (hbefore c hc).2
  rw [readDecimal?, hmantissa]
  simp only [hbefore.span_point]
  rfl

theorem readDecimal?_before (hbefore : IsBefore before) :
    (readDecimal? before).isSome = true ↔ before ∈ decInteger := by
  rw [mem_decInteger_iff, readDecimal?_before_eq hbefore]
  cases digits? 10 before with
  | none => simp
  | some ds => by_cases hzeros : ds.head? = some 0 ∧ ds.any (· ≠ 0) = true <;> simp [hzeros]

theorem readDecimal?_marked_eq (hbefore : IsBefore before) (hmark : isExponentMark mark = true) :
    readDecimal? (before ++ mark :: rest) = (digits? 10 before).bind fun ds =>
      (exponent? rest).bind fun exp => some (.decimal ds [] exp) := by
  have hmantissa : (before ++ mark :: rest).span (fun c => !isExponentMark c) =
      (before, mark :: rest) :=
    span_append (fun c hc => by simpa using (hbefore c hc).2) (by simp [hmark])
  rw [readDecimal?, hmantissa]
  simp only [hbefore.span_point]
  rfl

theorem readDecimal?_marked (hbefore : IsBefore before) (hmark : isExponentMark mark = true) :
    (readDecimal? (before ++ mark :: rest)).isSome = true ↔
      before ∈ digitPart ∧ rest ∈ scale := by
  rw [mem_digitPart_iff, ← exponent?_isSome_iff, readDecimal?_marked_eq hbefore hmark]
  cases digits? 10 before <;> cases exponent? rest <;> simp

theorem readDecimal?_pointed_eq (hbefore : IsBefore before)
    (hbehind : ∀ c ∈ behind, isExponentMark c = false)
    (hmarked : ∀ c, marked.head? = some c → isExponentMark c = true) :
    readDecimal? (before ++ '.' :: behind ++ marked) =
      if before.isEmpty ∧ behind.isEmpty then none
      else (if marked.isEmpty then some 0 else exponent? marked.tail).bind fun exp =>
        (optionalDigits? before).bind fun whole =>
          (optionalDigits? behind).bind fun fraction => some (.decimal whole fraction exp) := by
  have hmantissa : (before ++ '.' :: behind ++ marked).span (fun c => !isExponentMark c) =
      (before ++ '.' :: behind, marked) := by
    refine span_append (fun c hc => ?_) fun c hc => by simp [hmarked c hc]
    rcases List.mem_append.1 hc with hc | hc
    · simpa using (hbefore c hc).2
    · rcases List.mem_cons.1 hc with rfl | hc
      · decide
      · simpa using hbehind c hc
  have hpoint : (before ++ '.' :: behind).span (fun c => decide (c ≠ '.')) =
      (before, '.' :: behind) :=
    span_append (fun c hc => decide_eq_true (hbefore c hc).1) (by simp)
  rw [readDecimal?, hmantissa]
  simp only [hpoint]
  cases marked <;> rfl

theorem readDecimal?_pointed (hbefore : IsBefore before)
    (hbehind : ∀ c ∈ behind, isExponentMark c = false)
    (hmarked : ∀ c, marked.head? = some c → isExponentMark c = true) :
    (readDecimal? (before ++ '.' :: behind ++ marked)).isSome = true ↔
      ArePointed before behind ∧ (marked = [] ∨ marked.tail ∈ scale) := by
  have hparts : ArePointed before behind ↔ (optionalDigits? before).isSome = true ∧
      (optionalDigits? behind).isSome = true ∧
        ¬ (before.isEmpty = true ∧ behind.isEmpty = true) := by
    rw [optionalDigits?_isSome_iff, optionalDigits?_isSome_iff, List.isEmpty_iff, List.isEmpty_iff]
    exact ⟨fun h => ⟨h.1, h.2, h.3⟩, fun h => ⟨h.1, h.2.1, h.2.2⟩⟩
  have hscale : marked = [] ∨ marked.tail ∈ scale ↔
      (if marked.isEmpty then some 0 else exponent? marked.tail).isSome = true := by
    rw [← exponent?_isSome_iff]
    cases marked <;> simp
  rw [readDecimal?_pointed_eq hbefore hbehind hmarked, hparts, hscale]
  by_cases hempty : before.isEmpty = true ∧ behind.isEmpty = true
  · simp [hempty]
  · simp only [hempty, if_false, not_false_eq_true, and_true]
    cases marked with
    | nil => cases optionalDigits? before <;> cases optionalDigits? behind <;> simp
    | cons mark rest =>
      cases hexponent : exponent? rest <;> cases optionalDigits? before <;>
        cases optionalDigits? behind <;> simp [hexponent]

theorem isExponentMark_iff {c : Char} : isExponentMark c = true ↔ c = 'e' ∨ c = 'E' := by
  simp [isExponentMark]

theorem isBefore_of_mem_digitPart (h : before ∈ digitPart) : IsBefore before := by
  intro c hc
  have hdigits : inDigits c := digitPart_le_over h c hc
  rw [← Bool.not_eq_true, isExponentMark_iff]
  refine ⟨?_, ?_⟩
  · rintro rfl
    exact absurd hdigits (by decide)
  · rintro (rfl | rfl) <;> exact absurd hdigits (by decide)

theorem isBefore_of_eq_nil_or_mem (h : before = [] ∨ before ∈ digitPart) : IsBefore before := by
  rcases h with rfl | h
  · exact fun c hc => nomatch hc
  · exact isBefore_of_mem_digitPart h

theorem isBefore_of_mem_decInteger (h : before ∈ decInteger) : IsBefore before := by
  obtain ⟨ds, hds, -⟩ := mem_decInteger_iff.1 h
  exact isBefore_of_mem_digitPart (mem_digitPart_iff.2 ⟨ds, hds⟩)

/-- Every text falls into the digits, what starts with the point, and what starts with the mark of
an exponent. -/
theorem exists_decimalParts (cs : List Char) : ∃ before pointed marked,
    cs = before ++ pointed ++ marked ∧ IsBefore before ∧
      (∀ c, pointed.head? = some c → c = '.') ∧ (∀ c ∈ pointed, isExponentMark c = false) ∧
      ∀ c, marked.head? = some c → isExponentMark c = true := by
  let mantissa := cs.takeWhile fun c => !isExponentMark c
  have hmantissa : ∀ c ∈ mantissa, isExponentMark c = false := fun c hc => by
    simpa using List.all_eq_true.1 List.all_takeWhile c hc
  refine ⟨mantissa.takeWhile (· ≠ '.'), mantissa.dropWhile (· ≠ '.'),
    cs.dropWhile fun c => !isExponentMark c, ?_, fun c hc => ⟨?_, ?_⟩, fun c hc => ?_,
    fun c hc => ?_, fun c hc => ?_⟩
  · rw [List.takeWhile_append_dropWhile, List.takeWhile_append_dropWhile]
  · simpa using List.all_eq_true.1 List.all_takeWhile c hc
  · exact hmantissa c (List.takeWhile_subset _ hc)
  · have hhead := List.head?_dropWhile_not (fun c => decide (c ≠ '.')) mantissa
    rw [hc] at hhead
    simpa using hhead
  · exact hmantissa c (List.dropWhile_subset _ hc)
  · have hhead := List.head?_dropWhile_not (fun c => !isExponentMark c) cs
    rw [hc] at hhead
    simpa using hhead

theorem readDecimal?_of_arePointed (h : ArePointed before behind)
    (hmark : ∀ c, marked.head? = some c → isExponentMark c = true)
    (hscale : marked = [] ∨ marked.tail ∈ scale) :
    (readDecimal? (before ++ '.' :: behind ++ marked)).isSome = true :=
  (readDecimal?_pointed (isBefore_of_eq_nil_or_mem h.digitsBefore)
    (fun c hc => (isBefore_of_eq_nil_or_mem h.digitsBehind c hc).2) hmark).2 ⟨h, hscale⟩

/-- **What is read as a numeral of base ten is a number with a point or an exponent, or an
integer.** -/
theorem readDecimal?_isSome_iff {cs : List Char} :
    (readDecimal? cs).isSome = true ↔ cs ∈ floatNumber ∨ cs ∈ decInteger := by
  rw [floatNumber, Language.mem_add, mem_exponentFloat_iff, mem_pointFloat_iff]
  constructor
  · intro h
    obtain ⟨before, pointed, marked, rfl, hbefore, hpoint, hbehind, hmark⟩ :=
      exists_decimalParts cs
    -- With a point, with an exponent, with both, or with neither and so an integer.
    cases pointed with
    | nil =>
      rw [List.append_nil] at h ⊢
      cases marked with
      | nil =>
        rw [List.append_nil] at h ⊢
        exact .inr ((readDecimal?_before hbefore).1 h)
      | cons mark rest =>
        obtain ⟨hdigits, hscale⟩ := (readDecimal?_marked hbefore (hmark mark rfl)).1 h
        exact .inl (.inl ⟨before, mark, rest, .inr hdigits, isExponentMark_iff.1 (hmark mark rfl),
          hscale, rfl⟩)
    | cons point behind =>
      obtain rfl : point = '.' := hpoint point rfl
      obtain ⟨hpointed, hscale⟩ := (readDecimal?_pointed hbefore
        (fun c hc => hbehind c (List.mem_cons_of_mem _ hc)) hmark).1 h
      cases marked with
      | nil => exact .inl (.inr ⟨before, behind, List.append_nil _, hpointed⟩)
      | cons mark rest =>
        have hfloat : before ++ '.' :: behind ∈ pointFloat :=
          mem_pointFloat_iff.2 ⟨before, behind, rfl, hpointed⟩
        exact .inl (.inl ⟨_, mark, rest, .inl hfloat, isExponentMark_iff.1 (hmark mark rfl),
          hscale.resolve_left (by simp), rfl⟩)
  · rintro ((⟨mantissa, c, rest, hmantissa, hc, hrest, rfl⟩ | ⟨before, behind, rfl, hpointed⟩) |
      hinteger)
    · have hmark := isExponentMark_iff.2 hc
      rcases hmantissa with hfloat | hdigits
      · obtain ⟨before, behind, rfl, hpointed⟩ := mem_pointFloat_iff.1 hfloat
        exact readDecimal?_of_arePointed hpointed (by simp [hmark]) (.inr hrest)
      · exact (readDecimal?_marked (isBefore_of_mem_digitPart hdigits) hmark).2 ⟨hdigits, hrest⟩
    · have hnone : ∀ c, ([] : List Char).head? = some c → isExponentMark c = true :=
        fun c hc => nomatch hc
      simpa using readDecimal?_of_arePointed hpointed hnone (.inl rfl)
    · exact (readDecimal?_before (isBefore_of_mem_decInteger hinteger)).2 hinteger

/-! ## Numerals with the mark of a base -/

theorem ofMark?_eq_some_iff {c : Char} {base : Base} :
    Base.ofMark? c = some base ↔ isMark base c := by
  unfold Base.ofMark?
  constructor
  · intro h
    split_ifs at h with hx ho hb <;> cases h
    · exact hx
    · exact ho
    · exact hb
  · intro h
    cases base <;> rcases h with rfl | rfl <;> rfl

theorem furtherDigits?_eq_nil_iff {base : Nat} {cs : List Char} :
    furtherDigits? base cs = some [] ↔ cs = [] := by
  have hcons (first : Option Nat) (others : Option (List Nat)) :
      (first.bind fun d => others.bind fun ds => some (d :: ds)) ≠ some [] := by
    cases first <;> cases others <;> simp
  constructor
  · intro h
    unfold furtherDigits? at h
    split at h
    · rfl
    · exact absurd h (hcons _ _)
    · exact absurd h (hcons _ _)
  · rintro rfl
    rfl

/-- **After its mark a base has digits.** -/
theorem read?_marked_isSome_iff {base : Base} (hmark : Base.ofMark? mark = some base) :
    (read? ('0' :: mark :: rest)).isSome = true ↔ '0' :: mark :: rest ∈ basedInteger base := by
  have hdigits : rest ∈ (spaced (oneOf (inBase base)))∗ ↔
      ∃ ds, furtherDigits? base.size rest = some ds := by
    have hany : (∃ ds, furtherDigits? base.size rest = some ds ∧ ∀ d ∈ ds, True) ↔
        rest ∈ spacedDigits base.size fun _ => True := furtherDigits?_iff
    rw [spacedDigits, oneOf_congr fun c => by simpa using inBase_iff.symm] at hany
    simpa using hany.symm
  have hnil : furtherDigits? base.size rest = some [] ↔ rest = [] := furtherDigits?_eq_nil_iff
  have hmember : '0' :: mark :: rest ∈ basedInteger base ↔
      (∃ ds, furtherDigits? base.size rest = some ds) ∧ rest ≠ [] := by
    rw [mem_basedInteger_iff, ← hdigits]
    constructor
    · rintro ⟨_, _, heq, -, hrest⟩
      obtain ⟨-, rfl⟩ := List.cons.inj (List.cons.inj heq).2
      exact hrest
    · exact fun hrest => ⟨mark, rest, rfl, ofMark?_eq_some_iff.1 hmark, hrest⟩
  rw [hmember, read?]
  simp only [hmark]
  cases hread : furtherDigits? base.size rest with
  | none => simp
  | some ds =>
    rw [hread] at hnil
    cases ds <;> simp_all

theorem not_mem_basedInteger {base : Base} (h : Base.ofMark? mark ≠ some base) :
    '0' :: mark :: rest ∉ basedInteger base := by
  intro hmem
  obtain ⟨_, _, heq, hmark, -⟩ := mem_basedInteger_iff.1 hmem
  obtain ⟨rfl, -⟩ := List.cons.inj (List.cons.inj heq).2
  exact h (ofMark?_eq_some_iff.2 hmark)

/-- A text that does not start with a marked zero is read as a numeral of base ten. -/
theorem read?_eq_readDecimal? {cs : List Char}
    (h : ∀ mark rest, cs = '0' :: mark :: rest → Base.ofMark? mark = none) :
    read? cs = readDecimal? cs := by
  unfold read?
  split
  next mark rest => rw [h mark rest rfl]
  next => rfl

/-- **What is read as a numeral without sign is a number.** -/
theorem read?_isSome_iff {cs : List Char} : (read? cs).isSome = true ↔ cs ∈ number := by
  rw [mem_number_iff]
  by_cases hmarked : ∃ mark rest base, cs = '0' :: mark :: rest ∧ Base.ofMark? mark = some base
  · obtain ⟨mark, rest, base, rfl, hmark⟩ := hmarked
    -- No decimal number has a mark as its second character.
    have hdecimal : ¬ ('0' :: mark :: rest ∈ floatNumber ∨ '0' :: mark :: rest ∈ decInteger) := by
      intro hmem
      have hover := hmem.elim (@floatNumber_le_over _) (@decInteger_le_over _)
      exact not_inDecimal_of_isMark (ofMark?_eq_some_iff.1 hmark) (hover mark (by simp))
    rw [read?_marked_isSome_iff hmark, or_iff_right hdecimal]
    constructor
    · exact fun hmem => ⟨base, hmem⟩
    · rintro ⟨other, hmem⟩
      by_contra hnot
      refine not_mem_basedInteger (fun heq => hnot ?_) hmem
      rw [hmark] at heq
      rwa [Option.some.inj heq]
  · have hbased : ¬ ∃ base, cs ∈ basedInteger base := by
      rintro ⟨base, hmem⟩
      obtain ⟨mark, rest, heq, hmark, -⟩ := mem_basedInteger_iff.1 hmem
      exact hmarked ⟨mark, rest, base, heq, ofMark?_eq_some_iff.2 hmark⟩
    have hnone (mark : Char) (rest : List Char) (heq : cs = '0' :: mark :: rest) :
        Base.ofMark? mark = none :=
      Option.eq_none_iff_forall_ne_some.2 fun base hmark =>
        hmarked ⟨mark, rest, base, heq, hmark⟩
    rw [read?_eq_readDecimal? hnone, readDecimal?_isSome_iff, or_iff_left hbased]

end Magnitude

/-- **What is read as a numeral is a number with or without a sign.** -/
theorem Numeral.read?_isSome_iff {cs : List Char} :
    (Numeral.read? cs).isSome = true ↔ cs ∈ signedNumber := by
  have hstarts : number ≤ Starts fun c => c ≠ '-' ∧ c ≠ '+' := by
    intro w hw
    obtain ⟨c, rest, hc, rfl⟩ := number_le_starts hw
    exact ⟨c, rest, ne_sign_of_startsNumber hc, rfl⟩
  rw [signedNumber, mem_optional_sign_mul_iff hstarts, ← Magnitude.read?_isSome_iff, Numeral.read?,
    Option.isSome_map]

end FactGraph
