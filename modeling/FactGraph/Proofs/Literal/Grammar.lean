import Mathlib.Computability.Language
import Mathlib.Order.CompletePartialOrder
import FactGraph.Literal.Quantity

/-!
# The grammar of quantities

The texts of quantities as languages, put together like the patterns of regular expressions, without
any reading: numbers (`signedNumber`), unit expressions (`unitExpression`) and unit nodes
(`unitsNode`). What a language is made of bounds the characters of its words (`Over`) and the first
of them (`Starts`).
-/

namespace FactGraph.Grammar

open Computability

/-! ## Patterns -/

/-- One character with the property. -/
def oneOf (p : Char → Prop) : Language Char := {w | ∃ c, p c ∧ w = [c]}

/-- This text alone. -/
def word (text : String) : Language Char := {w | w = text.toList}

/-- One of the texts. -/
def anyWord (texts : List String) : Language Char := {w | ∃ text ∈ texts, w = text.toList}

def optional (l : Language Char) : Language Char := 1 + l

def oneOrMore (l : Language Char) : Language Char := l * l∗

/-! ## Numbers -/

/-- The characters of a base. -/
def inBase : Base → Char → Prop
  | .binary, c => c = '0' ∨ c = '1'
  | .octal, c => '0' ≤ c ∧ c ≤ '7'
  | .hexadecimal, c => '0' ≤ c ∧ c ≤ '9' ∨ 'a' ≤ c ∧ c ≤ 'f' ∨ 'A' ≤ c ∧ c ≤ 'F'

instance : (base : Base) → (c : Char) → Decidable (inBase base c)
  | .binary, c => inferInstanceAs (Decidable (c = '0' ∨ c = '1'))
  | .octal, c => inferInstanceAs (Decidable ('0' ≤ c ∧ c ≤ '7'))
  | .hexadecimal, c => inferInstanceAs
    (Decidable ('0' ≤ c ∧ c ≤ '9' ∨ 'a' ≤ c ∧ c ≤ 'f' ∨ 'A' ≤ c ∧ c ≤ 'F'))

/-- The marks of a base. -/
def isMark : Base → Char → Prop
  | .binary, c => c = 'b' ∨ c = 'B'
  | .octal, c => c = 'o' ∨ c = 'O'
  | .hexadecimal, c => c = 'x' ∨ c = 'X'

instance : (base : Base) → (c : Char) → Decidable (isMark base c)
  | .binary, c => inferInstanceAs (Decidable (c = 'b' ∨ c = 'B'))
  | .octal, c => inferInstanceAs (Decidable (c = 'o' ∨ c = 'O'))
  | .hexadecimal, c => inferInstanceAs (Decidable (c = 'x' ∨ c = 'X'))

def digit : Language Char := oneOf fun c => '0' ≤ c ∧ c ≤ '9'

/-- A digit with or without an underscore before it. -/
def spaced (digit : Language Char) : Language Char := optional (word "_") * digit

/-- One or more digits with single underscores between them. -/
def digitPart : Language Char := digit * (spaced digit)∗

/-- An integer of base ten has no leading zero, unless all its digits are zero. -/
def decInteger : Language Char :=
  (oneOf fun c => '1' ≤ c ∧ c ≤ '9') * (spaced digit)∗ +
    oneOrMore (word "0") * (spaced (word "0"))∗

/-- An integer of another base: a zero, the mark of the base, and digits. -/
def basedInteger (base : Base) : Language Char :=
  word "0" * (oneOf (isMark base) * oneOrMore (spaced (oneOf (inBase base))))

def integer : Language Char :=
  basedInteger .hexadecimal + basedInteger .octal + basedInteger .binary + decInteger

def sign : Language Char := oneOf fun c => c = '-' ∨ c = '+'

def fraction : Language Char := word "." * digitPart

def pointFloat : Language Char := optional digitPart * fraction + digitPart * word "."

/-- What stands behind the mark of an exponent. -/
def scale : Language Char := optional sign * digitPart

def exponent : Language Char := (oneOf fun c => c = 'e' ∨ c = 'E') * scale

def exponentFloat : Language Char := (pointFloat + digitPart) * exponent

def floatNumber : Language Char := exponentFloat + pointFloat

/-- An integer, or a number with a point or an exponent. -/
def number : Language Char := floatNumber + integer

def signedNumber : Language Char := optional sign * number

/-! ## Units -/

/-- A unit symbol with or without a power. -/
def unitFactor : Language Char := anyWord unitSymbols * optional (anyWord unitPowers)

/-- Unit factors joined by points and slashes. -/
def unitExpression : Language Char :=
  unitFactor * ((oneOf fun c => c = '.' ∨ c = '/') * unitFactor)∗

/-- The characters of names. -/
def inName (c : Char) : Prop :=
  'A' ≤ c ∧ c ≤ 'Z' ∨ 'a' ≤ c ∧ c ≤ 'z' ∨ '0' ≤ c ∧ c ≤ '9' ∨ c = '_' ∨ c = '-'

/-- `Q` and at least one more character. -/
def unitsNode : Language Char := word "Q" * oneOrMore (oneOf inName)

/-! ## Words of patterns -/

variable {l m : Language Char} {p : Char → Prop} {w rest : List Char} {c : Char}

@[simp] theorem mem_oneOf : w ∈ oneOf p ↔ ∃ c, p c ∧ w = [c] := Iff.rfl

@[simp] theorem mem_word {text : String} : w ∈ word text ↔ w = text.toList := Iff.rfl

@[simp] theorem mem_optional : w ∈ optional l ↔ w = [] ∨ w ∈ l := by
  rw [optional, Language.mem_add, Language.mem_one]

theorem mem_kstar_iff : w ∈ l∗ ↔ w = [] ∨ w ∈ l * l∗ := by
  conv_lhs => rw [← Language.one_add_self_mul_kstar_eq_kstar]
  rw [Language.mem_add, Language.mem_one]

theorem mem_oneOf_mul : w ∈ oneOf p * l ↔ ∃ c rest, p c ∧ rest ∈ l ∧ w = c :: rest := by
  simp only [Language.mem_mul, mem_oneOf]
  constructor
  · rintro ⟨-, ⟨c, hc, rfl⟩, rest, hrest, rfl⟩
    exact ⟨c, rest, hc, hrest, rfl⟩
  · rintro ⟨c, rest, hc, hrest, rfl⟩
    exact ⟨[c], ⟨c, hc, rfl⟩, rest, hrest, rfl⟩

theorem cons_mem_oneOf_mul : c :: rest ∈ oneOf p * l ↔ p c ∧ rest ∈ l := by
  rw [mem_oneOf_mul]
  constructor
  · rintro ⟨d, more, hd, hmore, heq⟩
    obtain ⟨rfl, rfl⟩ := List.cons.inj heq
    exact ⟨hd, hmore⟩
  · exact fun ⟨hc, hrest⟩ => ⟨c, rest, hc, hrest, rfl⟩

theorem nil_not_mem_oneOf_mul : [] ∉ oneOf p * l := by
  rw [mem_oneOf_mul]
  rintro ⟨c, rest, -, -, heq⟩
  exact nomatch heq

theorem mem_word_mul {text : String} :
    w ∈ word text * l ↔ ∃ rest ∈ l, w = text.toList ++ rest := by
  simp only [Language.mem_mul, mem_word]
  constructor
  · rintro ⟨-, rfl, rest, hrest, rfl⟩
    exact ⟨rest, hrest, rfl⟩
  · rintro ⟨rest, hrest, rfl⟩
    exact ⟨_, rfl, rest, hrest, rfl⟩

theorem mem_optional_mul : w ∈ optional l * m ↔ w ∈ m ∨ w ∈ l * m := by
  rw [optional, add_mul, one_mul, Language.mem_add]

/-! ## Characters of words -/

/-- All words over characters with the property. -/
def Over (p : Char → Prop) : Language Char := {w | ∀ c ∈ w, p c}

theorem mul_le_over (hl : l ≤ Over p) (hm : m ≤ Over p) : l * m ≤ Over p := by
  rintro w ⟨a, ha, b, hb, rfl⟩
  exact List.forall_mem_append.2 ⟨hl ha, hm hb⟩

theorem add_le_over (hl : l ≤ Over p) (hm : m ≤ Over p) : l + m ≤ Over p :=
  fun _ hw => hw.elim (@hl _) (@hm _)

theorem optional_le_over (hl : l ≤ Over p) : optional l ≤ Over p := by
  intro w hw
  rcases mem_optional.1 hw with rfl | hw
  · exact fun c hc => nomatch hc
  · exact hl hw

theorem kstar_le_over (hl : l ≤ Over p) : l∗ ≤ Over p := by
  rintro w ⟨words, rfl, hwords⟩ c hc
  obtain ⟨part, hpart, hmem⟩ := List.mem_flatten.1 hc
  exact hl (hwords part hpart) c hmem

theorem oneOf_le_over {q : Char → Prop} (h : ∀ c, q c → p c) : oneOf q ≤ Over p := by
  rintro w ⟨c, hc, rfl⟩
  exact List.forall_mem_singleton.2 (h c hc)

theorem word_le_over {text : String} (h : ∀ c ∈ text.toList, p c) : word text ≤ Over p := by
  rintro w rfl
  exact h

theorem oneOrMore_le_over (hl : l ≤ Over p) : oneOrMore l ≤ Over p :=
  mul_le_over hl (kstar_le_over hl)

theorem spaced_le_over (hl : l ≤ Over p) (h : p '_') : spaced l ≤ Over p :=
  mul_le_over (optional_le_over (word_le_over (List.forall_mem_singleton.2 h))) hl

/-- The words that start with a character with the property. -/
def Starts (p : Char → Prop) : Language Char := {w | ∃ c rest, p c ∧ w = c :: rest}

theorem mul_le_starts (hl : l ≤ Starts p) : l * m ≤ Starts p := by
  rintro w ⟨a, ha, b, -, rfl⟩
  obtain ⟨c, rest, hc, rfl⟩ := hl ha
  exact ⟨c, rest ++ b, hc, rfl⟩

theorem add_le_starts (hl : l ≤ Starts p) (hm : m ≤ Starts p) : l + m ≤ Starts p :=
  fun _ hw => hw.elim (@hl _) (@hm _)

theorem oneOf_le_starts {q : Char → Prop} (h : ∀ c, q c → p c) : oneOf q ≤ Starts p := by
  rintro w ⟨c, hc, rfl⟩
  exact ⟨c, [], h c hc, rfl⟩

/-! ## Decimals -/

/-- The characters of digits with underscores between them. -/
def inDigits (c : Char) : Prop := '0' ≤ c ∧ c ≤ '9' ∨ c = '_'

instance (c : Char) : Decidable (inDigits c) := by unfold inDigits; infer_instance

theorem digitPart_le_over : digitPart ≤ Over inDigits :=
  have hdigit : digit ≤ Over inDigits := oneOf_le_over fun _ => .inl
  mul_le_over hdigit (kstar_le_over (spaced_le_over hdigit (.inr rfl)))

theorem digitPart_le_starts : digitPart ≤ Starts fun c => '0' ≤ c ∧ c ≤ '9' :=
  mul_le_starts (oneOf_le_starts fun _ => id)

theorem nil_not_mem_digitPart : [] ∉ digitPart := nil_not_mem_oneOf_mul

/-- What stands before and behind a point: digits, which can be left out on one side. -/
structure ArePointed (before behind : List Char) : Prop where
  digitsBefore : before = [] ∨ before ∈ digitPart
  digitsBehind : behind = [] ∨ behind ∈ digitPart
  hasDigits : ¬ (before = [] ∧ behind = [])

theorem mem_pointFloat_iff : w ∈ pointFloat ↔
    ∃ before behind, w = before ++ '.' :: behind ∧ ArePointed before behind := by
  rw [pointFloat, Language.mem_add, Language.mem_mul, Language.mem_mul]
  constructor
  · rintro (⟨before, hbefore, pointed, hpointed, rfl⟩ | ⟨before, hbefore, point, rfl, rfl⟩)
    · obtain ⟨behind, hbehind, rfl⟩ := mem_word_mul.1 hpointed
      refine ⟨before, behind, rfl, mem_optional.1 hbefore, .inr hbehind, ?_⟩
      rintro ⟨-, rfl⟩
      exact nil_not_mem_digitPart hbehind
    · refine ⟨before, [], rfl, .inr hbefore, .inl rfl, ?_⟩
      rintro ⟨rfl, -⟩
      exact nil_not_mem_digitPart hbefore
  · rintro ⟨before, behind, rfl, hbefore, hbehind, hsome⟩
    rcases hbehind with rfl | hbehind
    · exact .inr ⟨before, hbefore.resolve_left fun h => hsome ⟨h, rfl⟩, _, rfl, rfl⟩
    · exact .inl ⟨before, mem_optional.2 hbefore, _, mem_word_mul.2 ⟨behind, hbehind, rfl⟩, rfl⟩

theorem mem_exponent_iff : w ∈ exponent ↔ ∃ c rest, (c = 'e' ∨ c = 'E') ∧ rest ∈ scale ∧
    w = c :: rest :=
  mem_oneOf_mul

theorem mem_exponentFloat_iff : w ∈ exponentFloat ↔
    ∃ mantissa c rest, (mantissa ∈ pointFloat ∨ mantissa ∈ digitPart) ∧ (c = 'e' ∨ c = 'E') ∧
      rest ∈ scale ∧ w = mantissa ++ c :: rest := by
  rw [exponentFloat, Language.mem_mul]
  constructor
  · rintro ⟨mantissa, hmantissa, marked, hmarked, rfl⟩
    obtain ⟨c, rest, hc, hrest, rfl⟩ := mem_exponent_iff.1 hmarked
    exact ⟨mantissa, c, rest, hmantissa, hc, hrest, rfl⟩
  · rintro ⟨mantissa, c, rest, hmantissa, hc, hrest, rfl⟩
    exact ⟨mantissa, hmantissa, c :: rest, mem_exponent_iff.2 ⟨c, rest, hc, hrest, rfl⟩, rfl⟩

/-- The characters of numbers of base ten. -/
def inDecimal (c : Char) : Prop :=
  inDigits c ∨ c = '.' ∨ c = 'e' ∨ c = 'E' ∨ c = '-' ∨ c = '+'

instance (c : Char) : Decidable (inDecimal c) := by unfold inDecimal; infer_instance

theorem digitPart_le_over_inDecimal : digitPart ≤ Over inDecimal :=
  fun _ hw c hc => .inl (digitPart_le_over hw c hc)

theorem pointFloat_le_over : pointFloat ≤ Over inDecimal :=
  have hpoint : word "." ≤ Over inDecimal :=
    word_le_over (List.forall_mem_singleton.2 (.inr (.inl rfl)))
  add_le_over
    (mul_le_over (optional_le_over digitPart_le_over_inDecimal)
      (mul_le_over hpoint digitPart_le_over_inDecimal))
    (mul_le_over digitPart_le_over_inDecimal hpoint)

theorem exponent_le_over : exponent ≤ Over inDecimal :=
  mul_le_over (oneOf_le_over (by rintro c (rfl | rfl) <;> decide))
    (mul_le_over (optional_le_over (oneOf_le_over (by rintro c (rfl | rfl) <;> decide)))
      digitPart_le_over_inDecimal)

theorem floatNumber_le_over : floatNumber ≤ Over inDecimal :=
  add_le_over
    (mul_le_over (add_le_over pointFloat_le_over digitPart_le_over_inDecimal) exponent_le_over)
    pointFloat_le_over

theorem decInteger_le_over : decInteger ≤ Over inDecimal := by
  have hdigit : digit ≤ Over inDecimal := oneOf_le_over fun _ h => .inl (.inl h)
  have hzero : word "0" ≤ Over inDecimal :=
    word_le_over (List.forall_mem_singleton.2 (by decide))
  have hfirst {c : Char} (h : '1' ≤ c ∧ c ≤ '9') : inDecimal c :=
    .inl (.inl ⟨Nat.le_trans (by decide) (UInt32.le_iff_toNat_le.1 h.1), h.2⟩)
  exact add_le_over
    (mul_le_over (oneOf_le_over fun _ => hfirst)
      (kstar_le_over (spaced_le_over hdigit (by decide))))
    (mul_le_over (oneOrMore_le_over hzero) (kstar_le_over (spaced_le_over hzero (by decide))))

/-! ## Integers of another base -/

theorem mem_oneOrMore_iff (h : [] ∉ l) : w ∈ oneOrMore l ↔ w ∈ l∗ ∧ w ≠ [] := by
  have hnil : [] ∉ l * l∗ := by
    rintro ⟨a, ha, b, -, heq⟩
    exact h ((List.append_eq_nil_iff.1 heq).1 ▸ ha)
  rw [oneOrMore, mem_kstar_iff]
  constructor
  · exact fun hw => ⟨.inr hw, fun heq => hnil (heq ▸ hw)⟩
  · exact fun hw => hw.1.resolve_left hw.2

theorem nil_not_mem_spaced_oneOf : [] ∉ spaced (oneOf p) := by
  rintro ⟨a, -, b, ⟨c, -, rfl⟩, heq⟩
  exact absurd (List.append_eq_nil_iff.1 heq).2 (by simp)

theorem mem_kstar_oneOf_iff : w ∈ (oneOf p)∗ ↔ ∀ c ∈ w, p c := by
  constructor
  · exact fun hw => kstar_le_over (oneOf_le_over fun _ => id) hw
  · intro hw
    induction w with
    | nil => exact Language.nil_mem_kstar _
    | cons c w ih =>
      obtain ⟨hc, hw⟩ := List.forall_mem_cons.1 hw
      exact mem_kstar_iff.2 (.inr (cons_mem_oneOf_mul.2 ⟨hc, ih hw⟩))

theorem nil_not_mem_oneOf : [] ∉ oneOf p := by
  rintro ⟨c, -, heq⟩
  exact nomatch heq

theorem mem_unitsNode_iff : w ∈ unitsNode ↔
    ∃ rest, w = 'Q' :: rest ∧ rest ≠ [] ∧ ∀ c ∈ rest, inName c := by
  rw [unitsNode, mem_word_mul]
  constructor
  · rintro ⟨rest, hrest, rfl⟩
    obtain ⟨hall, hne⟩ := (mem_oneOrMore_iff nil_not_mem_oneOf).1 hrest
    exact ⟨rest, rfl, hne, mem_kstar_oneOf_iff.1 hall⟩
  · rintro ⟨rest, rfl, hne, hall⟩
    exact ⟨rest, (mem_oneOrMore_iff nil_not_mem_oneOf).2 ⟨mem_kstar_oneOf_iff.2 hall, hne⟩, rfl⟩

theorem mem_basedInteger_iff {base : Base} : w ∈ basedInteger base ↔
    ∃ mark rest, w = '0' :: mark :: rest ∧ isMark base mark ∧
      rest ∈ (spaced (oneOf (inBase base)))∗ ∧ rest ≠ [] := by
  rw [basedInteger, mem_word_mul]
  constructor
  · rintro ⟨more, hmore, rfl⟩
    obtain ⟨mark, rest, hmark, hrest, rfl⟩ := mem_oneOf_mul.1 hmore
    exact ⟨mark, rest, rfl, hmark, (mem_oneOrMore_iff nil_not_mem_spaced_oneOf).1 hrest⟩
  · rintro ⟨mark, rest, rfl, hmark, hrest⟩
    exact ⟨mark :: rest, mem_oneOf_mul.2 ⟨mark, rest, hmark,
      (mem_oneOrMore_iff nil_not_mem_spaced_oneOf).2 hrest, rfl⟩, rfl⟩

theorem not_inDecimal_of_isMark {base : Base} (h : isMark base c) : ¬ inDecimal c := by
  cases base <;> rcases h with rfl | rfl <;> decide

theorem mem_number_iff :
    w ∈ number ↔ (w ∈ floatNumber ∨ w ∈ decInteger) ∨ ∃ base, w ∈ basedInteger base := by
  simp only [number, integer, Language.mem_add]
  constructor
  · rintro (hfloat | ((hhex | hoct) | hbin) | hdec)
    · exact .inl (.inl hfloat)
    · exact .inr ⟨_, hhex⟩
    · exact .inr ⟨_, hoct⟩
    · exact .inr ⟨_, hbin⟩
    · exact .inl (.inr hdec)
  · rintro ((hfloat | hdec) | ⟨base, hbased⟩)
    · exact .inl hfloat
    · exact .inr (.inr hdec)
    · cases base with
      | binary => exact .inr (.inl (.inr hbased))
      | octal => exact .inr (.inl (.inl (.inr hbased)))
      | hexadecimal => exact .inr (.inl (.inl (.inl hbased)))

theorem basedInteger_le_over (base : Base) :
    basedInteger base ≤ Over fun c => c = '0' ∨ isMark base c ∨ inBase base c ∨ c = '_' :=
  have hdigit : oneOf (inBase base) ≤
      Over fun c => c = '0' ∨ isMark base c ∨ inBase base c ∨ c = '_' :=
    oneOf_le_over fun _ h => .inr (.inr (.inl h))
  mul_le_over (word_le_over (List.forall_mem_singleton.2 (.inl rfl)))
    (mul_le_over (oneOf_le_over fun _ h => .inr (.inl h))
      (oneOrMore_le_over (spaced_le_over hdigit (.inr (.inr (.inr rfl))))))

theorem ne_of_mem_signedNumber (h : w ∈ signedNumber) : ∀ c ∈ w, c ≠ ',' ∧ c ≠ ']' := by
  have hnumber : number ≤ Over fun c => c ≠ ',' ∧ c ≠ ']' := by
    intro w hw c hc
    rcases mem_number_iff.1 hw with hdecimal | ⟨base, hbased⟩
    · have hover : inDecimal c := hdecimal.elim (floatNumber_le_over · c hc)
        (decInteger_le_over · c hc)
      constructor <;> rintro rfl <;> exact absurd hover (by decide)
    · have hover := basedInteger_le_over base hbased c hc
      constructor <;> rintro rfl <;> cases base <;> exact absurd hover (by decide)
  have hsigned : signedNumber ≤ Over fun c => c ≠ ',' ∧ c ≠ ']' :=
    mul_le_over (optional_le_over (oneOf_le_over (by rintro c (rfl | rfl) <;> decide))) hnumber
  exact hsigned h

/-! ## How numbers start -/

/-- A digit or a point. -/
def startsNumber (c : Char) : Prop := '0' ≤ c ∧ c ≤ '9' ∨ c = '.'

instance (c : Char) : Decidable (startsNumber c) := by unfold startsNumber; infer_instance

theorem word_le_starts {text : String} {rest : List Char} (htext : text.toList = c :: rest)
    (hc : p c) : word text ≤ Starts p := by
  rintro w rfl
  exact ⟨c, rest, hc, htext⟩

theorem number_le_starts : number ≤ Starts startsNumber := by
  have hdigits : digitPart ≤ Starts startsNumber := mul_le_starts (oneOf_le_starts fun _ => .inl)
  have hzero : word "0" ≤ Starts startsNumber := word_le_starts rfl (.inl (by decide))
  have hfraction : fraction ≤ Starts startsNumber := mul_le_starts (word_le_starts rfl (.inr rfl))
  have hpoint : pointFloat ≤ Starts startsNumber := by
    rw [pointFloat, optional, add_mul, one_mul]
    exact add_le_starts (add_le_starts hfraction (mul_le_starts hdigits)) (mul_le_starts hdigits)
  have hbased (base : Base) : basedInteger base ≤ Starts startsNumber := mul_le_starts hzero
  have hfirst {c : Char} (h : '1' ≤ c ∧ c ≤ '9') : startsNumber c :=
    .inl ⟨Nat.le_trans (by decide) (UInt32.le_iff_toNat_le.1 h.1), h.2⟩
  have hdec : decInteger ≤ Starts startsNumber :=
    add_le_starts (mul_le_starts (oneOf_le_starts fun _ => hfirst))
      (mul_le_starts (mul_le_starts hzero))
  exact add_le_starts (add_le_starts (mul_le_starts (add_le_starts hpoint hdigits)) hpoint)
    (add_le_starts (add_le_starts (add_le_starts (hbased _) (hbased _)) (hbased _)) hdec)

end FactGraph.Grammar
