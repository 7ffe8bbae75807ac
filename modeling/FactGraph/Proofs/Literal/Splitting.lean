import FactGraph.Proofs.Literal.Overflow
import FactGraph.Proofs.Literal.Recognition
import FactGraph.Proofs.Literal.RoundTrip
import FactGraph.Proofs.Literal.Unit

/-!
# How quantities are taken apart

A text splits into a number, a tolerance and a unit in several ways, or in none
(`QuantityParts.Splits`).

**Theorem (`Literal.decode_splits`).** A text that starts like a quantity is malformed exactly if it
has no split. Otherwise there is one split with the longest number, and what is read is its value,
unless that is out of range.

The reader tries numbers only as far as their characters go. It misses none: the characters of a
number with which a text starts are among those (`isNumeralChar_of_mem_signedNumber`).
-/

namespace FactGraph

open Computability Grammar

/-! ## Characters of numbers -/

section Characters

variable {w rest : List Char} {c : Char}

theorem isNumeralChar_iff {cs : List Char} : isNumeralChar cs c = true ↔
    c = '_' ∨ c = '+' ∨ c = '-' ∨ (∃ base, isMark base c) ∨
      if startsHexadecimal cs then inBase .hexadecimal c
      else '0' ≤ c ∧ c ≤ '9' ∨ c = '.' ∨ c = 'e' ∨ c = 'E' := by
  have hmark : (Base.ofMark? c).isSome = true ↔ ∃ base, isMark base c := by
    simp only [Option.isSome_iff_exists, Magnitude.ofMark?_eq_some_iff]
  have hhexadecimal : (digitValue? 16 c).isSome = true ↔ inBase .hexadecimal c := by
    rw [inBase_iff, Option.isSome_iff_exists]
    rfl
  rw [isNumeralChar]
  cases startsHexadecimal cs <;>
    simp [hmark, isDigit_iff, hhexadecimal, Magnitude.isExponentMark_iff, or_assoc]

theorem splitSign_append {sign number : List Char} (hsign : sign ∈ optional Grammar.sign)
    (hnumber : number ∈ Grammar.number) (rest : List Char) :
    (splitSign (sign ++ number ++ rest)).2 = number ++ rest := by
  obtain ⟨c, more, hc, rfl⟩ := number_le_starts hnumber
  rw [List.append_assoc, List.cons_append,
    splitSign_append_cons hsign (ne_sign_of_startsNumber hc)]

theorem startsHexadecimal_iff {cs : List Char} : startsHexadecimal cs = true ↔
    ∃ mark more, (splitSign cs).2 = '0' :: mark :: more ∧ isMark .hexadecimal mark := by
  unfold startsHexadecimal
  split
  next mark more heq =>
    rw [decide_eq_true_iff, Magnitude.ofMark?_eq_some_iff, heq]
    constructor
    · exact fun hmark => ⟨mark, more, rfl, hmark⟩
    · rintro ⟨_, _, hsame, hmark⟩
      rwa [(List.cons.inj (List.cons.inj hsame).2).1]
  next hnot =>
    refine iff_of_false Bool.false_ne_true ?_
    rintro ⟨mark, more, heq, -⟩
    exact hnot mark more heq

/-- The characters of a number of base ten are tried: a text that starts like a numeral of base
sixteen has no such number but the zero. -/
theorem isNumeralChar_of_decimal {cs : List Char} (hcs : (splitSign cs).2 = w ++ rest)
    (hover : w ∈ Over inDecimal) (hc : c ∈ w) : isNumeralChar cs c = true := by
  rw [isNumeralChar_iff]
  by_cases hstarts : startsHexadecimal cs = true
  · -- In a text that starts like a hexadecimal number, a decimal one is the zero alone: the mark
    -- behind the zero is no character of decimal numbers.
    obtain ⟨mark, more, heq, hmark⟩ := startsHexadecimal_iff.1 hstarts
    rw [if_pos hstarts]
    rw [hcs] at heq
    match w, hc with
    | [d], hc =>
      obtain rfl := List.mem_singleton.1 hc
      rw [(List.cons.inj heq).1]
      exact .inr (.inr (.inr (.inr (by decide))))
    | _ :: d :: _, _ =>
      have hsame : d = mark := (List.cons.inj (List.cons.inj heq).2).1
      exact absurd (hover d (by simp)) (hsame ▸ not_inDecimal_of_isMark hmark)
  · rw [if_neg hstarts]
    rcases hover c hc with (hdigit | rfl) | rfl | rfl | rfl | rfl | rfl
    · exact .inr (.inr (.inr (.inr (.inl hdigit))))
    all_goals simp

theorem isDecimal_of_inBase {base : Base} (h : base ≠ .hexadecimal) (hc : inBase base c) :
    '0' ≤ c ∧ c ≤ '9' := by
  cases base with
  | binary => rcases hc with rfl | rfl <;> decide
  | octal => exact ⟨hc.1, Nat.le_trans (UInt32.le_iff_toNat_le.1 hc.2) (by decide)⟩
  | hexadecimal => exact absurd rfl h

theorem isNumeralChar_of_based {cs : List Char} {base : Base} (hcs : (splitSign cs).2 = w ++ rest)
    (hbased : w ∈ basedInteger base) (hc : c ∈ w) : isNumeralChar cs c = true := by
  have hover := basedInteger_le_over base hbased c hc
  obtain ⟨mark, more, rfl, hmark, -⟩ := mem_basedInteger_iff.1 hbased
  have hstarts : startsHexadecimal cs = true ↔ base = .hexadecimal := by
    rw [startsHexadecimal_iff, hcs]
    constructor
    · rintro ⟨_, _, heq, hother⟩
      obtain ⟨rfl, -⟩ := List.cons.inj (List.cons.inj heq).2
      have hsame := Magnitude.ofMark?_eq_some_iff.2 hmark
      rw [Magnitude.ofMark?_eq_some_iff.2 hother] at hsame
      exact (Option.some.inj hsame).symm
    · rintro rfl
      exact ⟨mark, more ++ rest, rfl, hmark⟩
  -- The digits of the other bases are decimal digits, so they may stand in a number whatever its
  -- mark.
  have hdigit (hdigit : c = '0' ∨ inBase base c) :
      if startsHexadecimal cs then inBase .hexadecimal c
      else '0' ≤ c ∧ c ≤ '9' ∨ c = '.' ∨ c = 'e' ∨ c = 'E' := by
    split
    next hhexadecimal =>
      obtain rfl := hstarts.1 hhexadecimal
      exact hdigit.elim (by rintro rfl; decide) id
    next hother =>
      exact .inl (hdigit.elim (by rintro rfl; decide)
        (isDecimal_of_inBase fun heq => hother (hstarts.2 heq)))
  rw [isNumeralChar_iff]
  rcases hover with hzero | hmark | hbase | rfl
  · exact .inr (.inr (.inr (.inr (hdigit (.inl hzero)))))
  · exact .inr (.inr (.inr (.inl ⟨base, hmark⟩)))
  · exact .inr (.inr (.inr (.inr (hdigit (.inr hbase)))))
  · exact .inl rfl

/-- The characters of a number are those that are tried. -/
theorem isNumeralChar_of_mem_signedNumber (h : w ∈ signedNumber) :
    ∀ c ∈ w, isNumeralChar (w ++ rest) c = true := by
  obtain ⟨sign, hsign, number, hnumber, rfl⟩ := h
  have hbehind := splitSign_append hsign hnumber rest
  refine List.forall_mem_append.2 ⟨fun c hc => ?_, fun c hc => ?_⟩
  · rw [isNumeralChar_iff]
    rcases mem_optional.1 hsign with rfl | ⟨d, rfl | rfl, rfl⟩
    · cases hc
    · exact .inr (.inr (.inl (List.mem_singleton.1 hc)))
    · exact .inr (.inl (List.mem_singleton.1 hc))
  · rcases mem_number_iff.1 hnumber with hdecimal | ⟨base, hbased⟩
    · exact isNumeralChar_of_decimal hbehind
        (hdecimal.elim (@floatNumber_le_over _) (@decInteger_le_over _)) hc
    · exact isNumeralChar_of_based hbehind hbased hc

end Characters

/-! ## Parts and splits -/

/-- What a text of a quantity is made of. -/
structure QuantityParts where
  number : List Char
  /-- The lower and the upper end. -/
  tolerance : Option (List Char × List Char)
  unit : Quantity.UnitText
  deriving DecidableEq, Repr

namespace QuantityParts

/-- What follows the number. -/
def tail (p : QuantityParts) : List Char :=
  match p.tolerance with
  | none => p.unit.chars
  | some (low, high) => '[' :: low ++ ',' :: high ++ ']' :: p.unit.chars

/-- The parts are of the grammar, and put together they are the text. -/
structure Splits (p : QuantityParts) (cs : List Char) : Prop where
  chars : cs = p.number ++ p.tail
  number : p.number ∈ signedNumber
  tolerance : ∀ low high, p.tolerance = some (low, high) → low ∈ signedNumber ∧ high ∈ signedNumber
  unit : p.unit.Formed

/-- The value of the parts. The number is valued first, then the ends of the tolerance. -/
def value (p : QuantityParts) : Except LiteralError Quantity := do
  let number ← Number.ofText (String.ofList p.number)
  let tolerance ← match p.tolerance with
    | none => .ok none
    | some (low, high) => do
      let low ← Number.ofText (String.ofList low)
      let high ← Number.ofText (String.ofList high)
      .ok (some (low.toBinary64, high.toBinary64))
  .ok {
    number
    lowTolerance := tolerance.map (·.1)
    highTolerance := tolerance.map (·.2)
    siUnits := match p.unit with
      | .expression cs => some (String.ofList cs)
      | _ => none
    unitsNode := match p.unit with
      | .node cs => some (String.ofList cs)
      | _ => none }

end QuantityParts

/-! ## Tails -/

theorem Numeral.text_of_read? {cs : List Char} {n : Numeral} (h : Numeral.read? cs = some n) :
    n.text = cs := by
  obtain ⟨magnitude, -, rfl⟩ := Option.map_eq_some_iff.1 h
  rfl

/-- The numeral is what its text is read as. -/
def Numeral.IsRead (n : Numeral) : Prop := Numeral.read? n.text = some n

theorem Numeral.read?_eq_some_iff {cs : List Char} {n : Numeral} :
    Numeral.read? cs = some n ↔ n.IsRead ∧ n.text = cs := by
  constructor
  · intro h
    have htext := text_of_read? h
    exact ⟨by rwa [IsRead, htext], htext⟩
  · rintro ⟨h, rfl⟩
    exact h

theorem Numeral.IsRead.mem_signedNumber {n : Numeral} (h : n.IsRead) : n.text ∈ signedNumber :=
  Numeral.read?_isSome_iff.1 (Option.isSome_iff_exists.2 ⟨n, h⟩)

theorem Numeral.exists_isRead {cs : List Char} (h : cs ∈ signedNumber) :
    ∃ n : Numeral, n.IsRead ∧ n.text = cs := by
  obtain ⟨n, hn⟩ := Option.isSome_iff_exists.1 (Numeral.read?_isSome_iff.2 h)
  exact ⟨n, Numeral.read?_eq_some_iff.1 hn⟩

namespace Quantity

variable {cs seen front back : List Char} {s : Split} {tolerance : Option (Numeral × Numeral)}
  {unit : UnitText}

theorem UnitText.Formed.head?_ne (h : unit.Formed) : unit.chars.head? ≠ some '[' := by
  cases unit with
  | absent => simp [UnitText.chars]
  | node text =>
    obtain ⟨rest, rfl, -⟩ := mem_unitsNode_iff.1 h
    simp [UnitText.chars]
  | expression text =>
    have hexpression : isUnitExpression text = true := isUnitExpression_iff.2 h
    cases text with
    | nil => simp [UnitText.chars]
    | cons c rest =>
      have halpha := (startsUnit_spec (startsUnit_of_isUnitExpression hexpression)).1
      simp only [UnitText.chars, List.head?_cons, ne_eq, Option.some.injEq]
      rintro rfl
      cases halpha

/-- The texts of the two numerals of a tolerance. -/
def toleranceTexts (tolerance : Option (Numeral × Numeral)) : Option (List Char × List Char) :=
  tolerance.map fun (low, high) => (low.text, high.text)

/-- The parts that a split was made of. -/
def Split.parts (s : Split) : QuantityParts := ⟨s.number.text, toleranceTexts s.tolerance, s.unit⟩

/-- The numerals were read, and the unit is of the grammar. -/
structure Split.IsRead (s : Split) : Prop where
  number : s.number.IsRead
  tolerance : ∀ low high, s.tolerance = some (low, high) → low.IsRead ∧ high.IsRead
  unit : s.unit.Formed

theorem eq_of_span_eq_cons {α : Type} {p : α → Bool} {xs front back : List α} {x : α}
    (h : xs.span p = (front, x :: back)) : xs = front ++ x :: back ∧ p x = false := by
  rw [List.span_eq_takeWhile_dropWhile] at h
  obtain ⟨hfront, hback⟩ := Prod.mk.inj h
  have hhead := List.head?_dropWhile_not p xs
  rw [hback] at hhead
  exact ⟨by rw [← hfront, ← hback, List.takeWhile_append_dropWhile], by simpa using hhead⟩

theorem readTail?_tail (hread : ∀ low high, tolerance = some (low, high) → low.IsRead ∧ high.IsRead)
    (hunit : unit.Formed) :
    readTail? (QuantityParts.tail ⟨[], toleranceTexts tolerance, unit⟩) =
      some (tolerance, unit) := by
  have hunitRead : UnitText.read? unit.chars = some unit :=
    UnitText.read?_eq_some_iff.2 ⟨hunit, rfl⟩
  cases tolerance with
  | none =>
    show readTail? unit.chars = _
    rw [readTail?_unit hunit.head?_ne, hunitRead]
    rfl
  | some ends =>
    obtain ⟨low, high⟩ := ends
    obtain ⟨hlow, hhigh⟩ := hread low high rfl
    show readTail? ('[' :: low.text ++ ',' :: high.text ++ ']' :: unit.chars) = _
    rw [readTail?_tolerance (fun c hc => (ne_of_mem_signedNumber hlow.mem_signedNumber c hc).1)
      (fun c hc => (ne_of_mem_signedNumber hhigh.mem_signedNumber c hc).2), hunitRead, hlow,
      hhigh]
    rfl

/-- **What is read behind the number is its tolerance and its unit.** -/
theorem readTail?_eq_some_iff :
    readTail? cs = some (tolerance, unit) ↔
      (∀ low high, tolerance = some (low, high) → low.IsRead ∧ high.IsRead) ∧ unit.Formed ∧
        cs = QuantityParts.tail ⟨[], toleranceTexts tolerance, unit⟩ := by
  constructor
  · intro h
    unfold readTail? at h
    split at h
    next rest =>
      split at h
      next low comma rest' hlow =>
        obtain ⟨rfl, hcomma⟩ := eq_of_span_eq_cons hlow
        obtain rfl : comma = ',' := by simpa using hcomma
        split at h
        next high bracket rest hhigh =>
          obtain ⟨rfl, hbracket⟩ := eq_of_span_eq_cons hhigh
          obtain rfl : bracket = ']' := by simpa using hbracket
          obtain ⟨lowNumeral, hlowRead, h⟩ := Option.bind_eq_some_iff.1 h
          obtain ⟨highNumeral, hhighRead, h⟩ := Option.bind_eq_some_iff.1 h
          obtain ⟨unit, hunit, h⟩ := Option.bind_eq_some_iff.1 h
          cases h
          obtain ⟨hlowNumeral, rfl⟩ := Numeral.read?_eq_some_iff.1 hlowRead
          obtain ⟨hhighNumeral, rfl⟩ := Numeral.read?_eq_some_iff.1 hhighRead
          obtain ⟨hformed, rfl⟩ := UnitText.read?_eq_some_iff.1 hunit
          refine ⟨?_, hformed, by simp [QuantityParts.tail, toleranceTexts]⟩
          rintro low high heq
          obtain ⟨rfl, rfl⟩ := Prod.mk.inj (Option.some.inj heq)
          exact ⟨hlowNumeral, hhighNumeral⟩
        next => cases h
      next => cases h
    next =>
      obtain ⟨unit, hunit, h⟩ := Option.map_eq_some_iff.1 h
      cases h
      obtain ⟨hformed, rfl⟩ := UnitText.read?_eq_some_iff.1 hunit
      exact ⟨fun _ _ heq => (nomatch heq), hformed, rfl⟩
  · rintro ⟨hread, hunit, rfl⟩
    exact readTail?_tail hread hunit

theorem splitAt?_eq_some_iff :
    splitAt? seen back = some s ↔
      s.IsRead ∧ s.parts.number = seen.reverse ∧ s.parts.tail = back := by
  obtain ⟨number, tolerance, unit⟩ := s
  constructor
  · intro h
    obtain ⟨⟨tolerance', unit'⟩, htail, h⟩ := Option.bind_eq_some_iff.1 h
    obtain ⟨number', hnumber, h⟩ := Option.bind_eq_some_iff.1 h
    cases h
    obtain ⟨htolerance, hunit, rfl⟩ := readTail?_eq_some_iff.1 htail
    obtain ⟨hnumber, htext⟩ := Numeral.read?_eq_some_iff.1 hnumber
    exact ⟨⟨hnumber, htolerance, hunit⟩, htext, rfl⟩
  · rintro ⟨⟨hnumber, htolerance, hunit⟩, htext, rfl⟩
    have htail : readTail? (Split.parts ⟨number, tolerance, unit⟩).tail = some (tolerance, unit) :=
      readTail?_eq_some_iff.2 ⟨htolerance, hunit, rfl⟩
    have hread : Numeral.read? seen.reverse = some number :=
      Numeral.read?_eq_some_iff.2 ⟨hnumber, htext⟩
    rw [splitAt?, htail, hread]
    rfl

theorem Number.ofText_text {n : Numeral} (h : n.IsRead) :
    Number.ofText (String.ofList n.text) = Number.ofNumeral n := by
  rw [Number.ofText, String.toList_ofList, h]

theorem Split.IsRead.value_parts (h : s.IsRead) : s.parts.value = ofSplit s := by
  obtain ⟨number, tolerance, unit⟩ := s
  obtain ⟨hnumber, htolerance, -⟩ := h
  rw [QuantityParts.value, ofSplit]
  cases tolerance with
  | none =>
    cases unit <;>
      simp only [Split.parts, toleranceTexts, Option.map_none, Number.ofText_text hnumber]
  | some ends =>
    obtain ⟨hlow, hhigh⟩ := htolerance ends.1 ends.2 rfl
    cases unit <;>
      simp only [Split.parts, toleranceTexts, Option.map_some, Number.ofText_text hnumber,
        Number.ofText_text hlow, Number.ofText_text hhigh]

theorem exists_split_of_splits {p : QuantityParts} (h : p.Splits cs) :
    ∃ s : Split, s.IsRead ∧ s.parts = p := by
  obtain ⟨number, tolerance, unit⟩ := p
  obtain ⟨-, hnumber, htolerance, hunit⟩ := h
  obtain ⟨n, hn, rfl⟩ := Numeral.exists_isRead hnumber
  cases tolerance with
  | none => exact ⟨⟨n, none, unit⟩, ⟨hn, fun _ _ heq => (nomatch heq), hunit⟩, rfl⟩
  | some ends =>
    obtain ⟨low, high⟩ := ends
    obtain ⟨hlow, hhigh⟩ := htolerance low high rfl
    obtain ⟨lowNumeral, hlowRead, rfl⟩ := Numeral.exists_isRead hlow
    obtain ⟨highNumeral, hhighRead, rfl⟩ := Numeral.exists_isRead hhigh
    refine ⟨⟨n, some (lowNumeral, highNumeral), unit⟩, ⟨hn, ?_, hunit⟩, rfl⟩
    rintro low high heq
    obtain ⟨rfl, rfl⟩ := Prod.mk.inj (Option.some.inj heq)
    exact ⟨hlowRead, hhighRead⟩

theorem Split.IsRead.splits_parts (h : s.IsRead) :
    s.parts.Splits (s.parts.number ++ s.parts.tail) := by
  refine ⟨rfl, h.number.mem_signedNumber, fun low high heq => ?_, h.unit⟩
  obtain ⟨ends, hends, heq⟩ := Option.map_eq_some_iff.1 heq
  obtain ⟨rfl, rfl⟩ := Prod.mk.inj heq
  obtain ⟨hlow, hhigh⟩ := h.tolerance ends.1 ends.2 hends
  exact ⟨hlow.mem_signedNumber, hhigh.mem_signedNumber⟩

/-! ## The longest number -/

theorem splitFrom?_eq_none {inNumeral : Char → Bool} (h : splitFrom? inNumeral seen cs = none)
    (htext : cs = front ++ back) (hfront : ∀ c ∈ front, inNumeral c = true) :
    splitAt? (front.reverse ++ seen) back = none := by
  -- On the text, as the characters before the cut grow. Longer numbers are tried first, so that
  -- nothing was found includes them.
  induction cs generalizing seen front with
  | nil =>
    obtain ⟨rfl, rfl⟩ := List.append_eq_nil_iff.1 htext.symm
    exact h
  | cons c cs ih =>
    rw [splitFrom?_cons, Option.orElse_eq_orElse, Option.orElse_eq_or, Option.or_eq_none_iff] at h
    cases front with
    | nil =>
      obtain rfl : c :: cs = back := htext
      exact h.2
    | cons d front =>
      obtain ⟨rfl, rfl⟩ := List.cons.inj htext
      obtain ⟨hc, hrest⟩ := List.forall_mem_cons.1 hfront
      have hlonger := h.1
      rw [if_pos hc] at hlonger
      simpa using ih hlonger rfl hrest

/-- A longer number is tried before a shorter one: where a text splits in one place, it splits in no
later one. -/
theorem splitFrom?_eq_some {inNumeral : Char → Bool} (h : splitFrom? inNumeral seen cs = some s) :
    ∃ front back, cs = front ++ back ∧ splitAt? (front.reverse ++ seen) back = some s ∧
      ∀ longer rest, cs = longer ++ rest → (∀ c ∈ longer, inNumeral c = true) →
        (splitAt? (longer.reverse ++ seen) rest).isSome = true → longer.length ≤ front.length := by
  induction cs generalizing seen with
  | nil =>
    refine ⟨[], [], rfl, h, fun longer rest htext _ _ => ?_⟩
    rw [(List.append_eq_nil_iff.1 htext.symm).1]
  | cons c cs ih =>
    rw [splitFrom?_cons, Option.orElse_eq_orElse, Option.orElse_eq_or, Option.or_eq_some_iff] at h
    rcases h with hlonger | ⟨hnone, hhere⟩
    · -- Found behind this character: every number that is longer has this character, too.
      obtain ⟨-, hsplit⟩ := Option.ite_none_right_eq_some.1 hlonger
      obtain ⟨front, back, rfl, hfront, hlongest⟩ := ih hsplit
      refine ⟨c :: front, back, rfl, by simpa using hfront, fun longer rest htext hin hsome => ?_⟩
      cases longer with
      | nil => exact Nat.zero_le _
      | cons d longer =>
        obtain ⟨rfl, hmore⟩ := List.cons.inj htext
        exact Nat.succ_le_succ (hlongest longer rest hmore
          (fun c hc => hin c (List.mem_cons_of_mem _ hc)) (by simpa using hsome))
    · refine ⟨[], c :: cs, rfl, hhere, fun longer rest htext hin hsome => ?_⟩
      cases longer with
      | nil => exact Nat.le_refl _
      | cons d longer =>
        -- The longer numbers have been tried in vain.
        obtain ⟨rfl, hmore⟩ := List.cons.inj htext
        obtain ⟨hc, hlonger⟩ := List.forall_mem_cons.1 hin
        rw [if_pos hc] at hnone
        have hsplit := splitFrom?_eq_none hnone hmore hlonger
        rw [List.reverse_cons, List.append_assoc, List.singleton_append, hsplit] at hsome
        cases hsome

theorem splitAt?_of_splits {p : QuantityParts} (h : p.Splits cs) :
    ∃ s, splitAt? (p.number.reverse ++ []) p.tail = some s ∧ s.parts = p := by
  obtain ⟨s, hread, rfl⟩ := exists_split_of_splits h
  exact ⟨s, splitAt?_eq_some_iff.2 ⟨hread, by simp, rfl⟩, rfl⟩

/-- **A text without split is not taken apart.** -/
theorem split?_eq_none_iff : split? cs = none ↔ ¬ ∃ p : QuantityParts, p.Splits cs := by
  constructor
  · rintro h ⟨p, hp⟩
    obtain ⟨s, hsplit, -⟩ := splitAt?_of_splits hp
    -- The search stops at a character that is in no number, and the number of a split has none
    -- such.
    have hchars : ∀ c ∈ p.number, isNumeralChar cs c = true := by
      rw [hp.chars]
      exact isNumeralChar_of_mem_signedNumber hp.number
    rw [splitFrom?_eq_none h hp.chars hchars] at hsplit
    cases hsplit
  · intro h
    cases hsplit : split? cs with
    | none => rfl
    | some s =>
      obtain ⟨front, back, rfl, hfront, -⟩ := splitFrom?_eq_some hsplit
      obtain ⟨hread, hnumber, rfl⟩ := splitAt?_eq_some_iff.1 hfront
      have hsplits := hread.splits_parts
      rw [hnumber, List.append_nil, List.reverse_reverse] at hsplits
      exact absurd ⟨_, hsplits⟩ h

/-- **A text is taken apart at the end of its longest number.** -/
theorem splits_of_split? (h : split? cs = some s) :
    s.IsRead ∧ s.parts.Splits cs ∧
      ∀ p : QuantityParts, p.Splits cs → p ≠ s.parts →
        p.number.length < s.parts.number.length := by
  obtain ⟨front, back, hcs, hfront, hlongest⟩ := splitFrom?_eq_some h
  obtain ⟨hread, hnumber, rfl⟩ := splitAt?_eq_some_iff.1 hfront
  rw [List.append_nil, List.reverse_reverse] at hnumber
  subst hnumber
  refine ⟨hread, hcs ▸ hread.splits_parts, fun p hp hne => ?_⟩
  obtain ⟨other, hother, rfl⟩ := splitAt?_of_splits hp
  have hchars : ∀ c ∈ other.parts.number, isNumeralChar cs c = true := by
    rw [hp.chars]
    exact isNumeralChar_of_mem_signedNumber hp.number
  have hle := hlongest _ _ hp.chars hchars (by rw [hother]; rfl)
  refine Nat.lt_of_le_of_ne hle fun hlength => hne ?_
  -- Numbers of the same length are the same, and what follows them, too.
  obtain ⟨hnumber, htail⟩ := List.append_inj (hp.chars.symm.trans hcs) hlength
  rw [hnumber, htail, hfront] at hother
  rw [Option.some.inj hother]

end Quantity

namespace Literal

/-- **A quantity is read by the split with the longest number.** A text that starts like a quantity
is malformed exactly if it has no split. Otherwise one split has the longest number, and what is
read is its value or out of range. -/
theorem decode_splits {s : String} {c : Char} (hhead : s.toList.head? = some c)
    (hquantity : startsQuantity c = true) :
    ((∃ e, decode s = .error e ∧ e.kind = .malformed) ↔
      ¬ ∃ p : QuantityParts, p.Splits s.toList) ∧
    ((∃ p : QuantityParts, p.Splits s.toList) →
      ∃ p : QuantityParts, p.Splits s.toList ∧
        (∀ q : QuantityParts, q.Splits s.toList → q ≠ p → q.number.length < p.number.length) ∧
        decode s = p.value.map quantity ∧ ∀ e, p.value = .error e → e.kind = .outOfRange) := by
  rw [decode_quantity hhead hquantity]
  cases hsplit : Quantity.split? s.toList with
  | none =>
    have hnone := Quantity.split?_eq_none_iff.1 hsplit
    have herror : Quantity.read s = .error (.quantity s) := by rw [Quantity.read, hsplit]
    rw [herror]
    exact ⟨iff_of_true ⟨_, rfl, rfl⟩ hnone, fun hsome => absurd hsome hnone⟩
  | some split =>
    obtain ⟨hread, hsplits, hlongest⟩ := Quantity.splits_of_split? hsplit
    have hvalue : Quantity.read s = split.parts.value := by
      rw [Quantity.read, hsplit, hread.value_parts]
    have hkind {e : LiteralError} (he : split.parts.value = .error e) : e.kind = .outOfRange := by
      rw [hread.value_parts] at he
      exact Quantity.kind_of_ofSplit he
    rw [hvalue]
    refine ⟨iff_of_false ?_ (not_not_intro ⟨_, hsplits⟩), fun _ =>
      ⟨split.parts, hsplits, hlongest, rfl, fun _ => hkind⟩⟩
    rintro ⟨e, he, hmalformed⟩
    cases hparts : split.parts.value with
    | ok q =>
      rw [hparts] at he
      cases he
    | error e' =>
      rw [hparts] at he
      cases he
      rw [hkind hparts] at hmalformed
      cases hmalformed

/-- Digits of base sixteen are preferred to units: thirty-one, not one farad. -/
theorem decode_splits_hexadecimal :
    let whole : QuantityParts := ⟨"0x1F".toList, none, .absent⟩
    let farad : QuantityParts := ⟨"0x1".toList, none, .expression "F".toList⟩
    whole.Splits "0x1F".toList ∧ farad.Splits "0x1F".toList ∧
      decode "0x1F" = whole.value.map quantity ∧
      whole.value = .ok (.ofNumber (.int 31)) := by
  intro whole farad
  have hnumber (text : List Char) (h : (Numeral.read? text).isSome = true) :
      text ∈ signedNumber := Numeral.read?_isSome_iff.1 h
  have hwhole : whole.Splits "0x1F".toList :=
    ⟨rfl, hnumber _ (by decide), fun _ _ heq => (nomatch heq), trivial⟩
  have hfarad : farad.Splits "0x1F".toList :=
    ⟨rfl, hnumber _ (by decide), fun _ _ heq => (nomatch heq),
      Quantity.isUnitExpression_iff.1 (by decide)⟩
  obtain ⟨p, hp, hlongest, hdecode, -⟩ :=
    (decode_splits (s := "0x1F") (c := '0') rfl (by decide)).2 ⟨whole, hwhole⟩
  have hsame : whole = p := by
    by_contra hne
    have hshort := hlongest whole hwhole hne
    have hlength := congrArg List.length hp.chars
    rw [List.length_append] at hlength
    have hfour : whole.number.length = 4 ∧ "0x1F".toList.length = 4 := by decide
    omega
  exact ⟨hwhole, hfarad, hsame ▸ hdecode, by decide +kernel⟩

end Literal

end FactGraph
