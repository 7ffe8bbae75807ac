import FactGraph.Literal.Quantity
import FactGraph.Proofs.Literal.Numeral

/-!
# Quantities read back

Nothing separates the number of a quantity from its unit. A written number is still found again: no
split before its end leaves a tail, because no unit starts with a character of a number
(`readTail?_of_isPlain`), and the two units that go on like a numeral, `ohms` and `Bq`, go on by one
character only, which leaves no unit either (`splitFrom?_tail`). So the split of a written quantity
is the one that was meant (`split?_append`), and quantities are read back (`Quantity.read_render`).
-/

namespace FactGraph

namespace Quantity

/-! ## How units start -/

/-- A unit symbol starts with the character. -/
def startsUnit (c : Char) : Bool := unitSymbols.any fun symbol => symbol.toList.head? = some c

/-- A letter that is in no numeral of base ten or below, also not as a mark. -/
def isForeign (c : Char) : Bool :=
  c.isAlpha && !Magnitude.isExponentMark c && (Base.ofMark? c).isNone

/-- The text starts like no numeral, or like one with a base mark after which it goes on like no
numeral and like no unit. -/
def leavesNumerals : List Char → Bool
  | c :: d :: _ => isForeign c ||
    (c = 'o' || c = 'B') && isForeign d && d ≠ 'Q' && !startsUnit d
  | [c] => isForeign c
  | [] => false

theorem unitSymbols_spec : unitSymbols.all (fun symbol =>
    leavesNumerals symbol.toList && symbol.toList.head?.all fun c =>
      c.isAlpha && c ≠ 'e' && c ≠ 'Q') = true := by
  decide

theorem leavesNumerals_append {front : List Char} (h : leavesNumerals front = true)
    (back : List Char) : leavesNumerals (front ++ back) = true := by
  match front with
  | [c] =>
    cases back with
    | nil => exact h
    | cons => exact Bool.or_eq_true_iff.2 (.inl h)
  | _ :: _ :: _ => exact h

theorem startsUnit_spec {c : Char} (h : startsUnit c = true) :
    c.isAlpha = true ∧ c ≠ 'e' ∧ c ≠ 'Q' := by
  obtain ⟨symbol, hsymbol, hhead⟩ := List.any_eq_true.1 h
  have hspec := List.all_eq_true.1 unitSymbols_spec symbol hsymbol
  rw [of_decide_eq_true hhead] at hspec
  simpa [and_assoc] using (Bool.and_eq_true_iff.1 hspec).2

theorem exists_symbol_of_isUnitFactor {cs : List Char} (h : isUnitFactor cs = true) :
    ∃ symbol ∈ unitSymbols, ∃ rest, cs = symbol.toList ++ rest := by
  obtain ⟨symbol, hsymbol, hfactor⟩ := List.any_eq_true.1 h
  rcases Bool.or_eq_true_iff.1 hfactor with hbare | hpower
  · exact ⟨symbol, hsymbol, [], by rw [of_decide_eq_true hbare, List.append_nil]⟩
  · obtain ⟨power, -, hpower⟩ := List.any_eq_true.1 hpower
    exact ⟨symbol, hsymbol, power.toList, of_decide_eq_true hpower⟩

/-- **A unit expression starts with a unit symbol.** -/
theorem exists_symbol_of_isUnitExpression {cs : List Char} (h : isUnitExpression cs = true) :
    ∃ symbol ∈ unitSymbols, ∃ rest, cs = symbol.toList ++ rest := by
  obtain ⟨symbol, hsymbol, rest, hfront⟩ :=
    exists_symbol_of_isUnitFactor (Bool.and_eq_true_iff.1 h).1
  refine ⟨symbol, hsymbol, rest ++ ((cs.take (maxUnitFactorLength + 1)).dropWhile
    (!joinsUnitFactors ·) ++ cs.drop (maxUnitFactorLength + 1)), ?_⟩
  rw [← List.append_assoc, ← hfront, ← List.append_assoc, List.takeWhile_append_dropWhile,
    List.take_append_drop]

theorem leavesNumerals_of_isUnitExpression {cs : List Char} (h : isUnitExpression cs = true) :
    leavesNumerals cs = true := by
  obtain ⟨symbol, hsymbol, rest, rfl⟩ := exists_symbol_of_isUnitExpression h
  have hspec := List.all_eq_true.1 unitSymbols_spec symbol hsymbol
  exact leavesNumerals_append (Bool.and_eq_true_iff.1 hspec).1 rest

theorem startsUnit_of_isUnitExpression {c : Char} {rest : List Char}
    (h : isUnitExpression (c :: rest) = true) : startsUnit c = true := by
  obtain ⟨symbol, hsymbol, back, hcs⟩ := exists_symbol_of_isUnitExpression h
  refine List.any_eq_true.2 ⟨symbol, hsymbol, decide_eq_true ?_⟩
  have hspec := List.all_eq_true.1 unitSymbols_spec symbol hsymbol
  cases hs : symbol.toList with
  | nil =>
    rw [hs] at hspec
    cases hspec
  | cons d ds =>
    rw [hs] at hcs
    rw [(List.cons.inj hcs).1]
    rfl

/-! ## What is no tail -/

theorem readTail?_eq_none {c : Char} (rest : List Char) (hbracket : c ≠ '[') (hnode : c ≠ 'Q')
    (hunit : startsUnit c = false) : readTail? (c :: rest) = none := by
  have hexpression : isUnitExpression (c :: rest) = false := by
    by_contra h
    rw [startsUnit_of_isUnitExpression (Bool.not_eq_false _ ▸ h)] at hunit
    cases hunit
  have hnodeText : isUnitsNodeText (c :: rest) = false := by
    unfold isUnitsNodeText
    split
    next hc => exact absurd (List.cons.inj hc).1 hnode
    next => rfl
  unfold readTail?
  split
  next hc => exact absurd (List.cons.inj hc).1 hbracket
  next => simp [UnitText.read?, hexpression, hnodeText]

theorem not_isAlpha_of_isDigit {c : Char} (h : c.isDigit = true) : c.isAlpha = false := by
  have hbelow (letter : Char) (hletter : '9'.toNat < letter.val.toNat) :
      ¬ letter.val ≤ c.val := by
    rw [UInt32.le_iff_toNat_le, Nat.not_le]
    exact Nat.lt_of_le_of_lt (Char.isDigit_iff_toNat.1 h).2 hletter
  have hupper : c.isUpper = false := decide_eq_false fun hc => hbelow 'A' (by decide) hc.1
  have hlower : c.isLower = false :=
    Bool.and_eq_false_iff.2 (.inl (decide_eq_false (hbelow 'a' (by decide))))
  exact Bool.or_eq_false_iff.2 ⟨hupper, hlower⟩

/-- A character of a written number starts no tail. -/
theorem readTail?_of_isPlain {c : Char} (h : IsPlain c) (rest : List Char) :
    readTail? (c :: rest) = none := by
  refine readTail?_eq_none rest (h.ne (by decide)) (h.ne (by decide)) ?_
  by_contra hunit
  obtain ⟨halpha, he, -⟩ := startsUnit_spec (Bool.not_eq_false _ ▸ hunit)
  rcases h with hdigit | rfl | rfl | rfl
  · rw [not_isAlpha_of_isDigit hdigit] at halpha
    cases halpha
  · cases halpha
  · exact he rfl
  · cases halpha

/-! ## The split of a written quantity -/

/-- What can follow the number of a quantity. -/
def IsTail (tail : List Char) : Prop :=
  tail = [] ∨ (∃ rest, tail = '[' :: rest) ∨ (∃ rest, tail = 'Q' :: rest) ∨
    isUnitExpression tail = true

variable {cs num tail : List Char}

theorem isNumeralChar_of_isForeign (hbase : startsHexadecimal cs = false) {c : Char}
    (h : isForeign c = true) : isNumeralChar cs c = false := by
  simp only [isForeign, Bool.and_eq_true, Bool.not_eq_true', Option.isNone_iff_eq_none] at h
  obtain ⟨⟨halpha, hexp⟩, hmark⟩ := h
  have hdigit : c.isDigit = false := by
    by_contra hdigit
    rw [not_isAlpha_of_isDigit (Bool.not_eq_false _ ▸ hdigit)] at halpha
    cases halpha
  have hother : c ≠ '_' ∧ c ≠ '+' ∧ c ≠ '-' ∧ c ≠ '.' := by
    refine ⟨?_, ?_, ?_, ?_⟩ <;> rintro rfl <;> cases halpha
  simp [isNumeralChar, hbase, hdigit, hexp, hmark, hother]

theorem splitFrom?_cons (inNumeral : Char → Bool) (seen : List Char) (c : Char) (rest : List Char) :
    splitFrom? inNumeral seen (c :: rest) =
      ((if inNumeral c then splitFrom? inNumeral (c :: seen) rest else none) <|>
        splitAt? seen (c :: rest)) := rfl

theorem splitAt?_eq_none {seen rest : List Char} (h : readTail? rest = none) :
    splitAt? seen rest = none := by
  rw [splitAt?, h]
  rfl

/-- **No split goes beyond the start of a tail.** -/
theorem splitFrom?_tail (hbase : startsHexadecimal cs = false) (htail : IsTail tail)
    (seen : List Char) : splitFrom? (isNumeralChar cs) seen tail = splitAt? seen tail := by
  have hforeign {c : Char} (rest : List Char) (hc : isNumeralChar cs c = false) :
      splitFrom? (isNumeralChar cs) seen (c :: rest) = splitAt? seen (c :: rest) := by
    rw [splitFrom?_cons, hc]
    rfl
  -- No tail starts like a numeral, except for units that begin with the mark of a base.
  rcases htail with rfl | ⟨rest, rfl⟩ | ⟨rest, rfl⟩ | hunit
  · rfl
  · exact hforeign rest (by simp [isNumeralChar, hbase]; decide)
  · exact hforeign rest (isNumeralChar_of_isForeign hbase (by decide))
  · have hleaves := leavesNumerals_of_isUnitExpression hunit
    match tail with
    | [c] => exact hforeign [] (isNumeralChar_of_isForeign hbase hleaves)
    | c :: d :: rest =>
      rcases Bool.or_eq_true_iff.1 hleaves with hc | hd
      · exact hforeign (d :: rest) (isNumeralChar_of_isForeign hbase hc)
      · -- The unit goes on like a numeral, by one character.
        simp only [Bool.and_eq_true, Bool.not_eq_true', decide_eq_true_eq] at hd
        obtain ⟨⟨⟨-, hd⟩, hnode⟩, hunit⟩ := hd
        have hbracket : d ≠ '[' := by
          rintro rfl
          cases hd
        have hnone : splitFrom? (isNumeralChar cs) (c :: seen) (d :: rest) = none := by
          rw [splitFrom?_cons, isNumeralChar_of_isForeign hbase hd,
            splitAt?_eq_none (readTail?_eq_none rest hbracket hnode hunit)]
          rfl
        rw [splitFrom?_cons, hnone]
        split <;> rfl

/-- The characters of a number are passed over: no split ends before them. -/
theorem splitFrom?_append (hnum : ∀ c ∈ num, IsPlain c ∧ isNumeralChar cs c = true)
    (seen : List Char) :
    splitFrom? (isNumeralChar cs) seen (num ++ tail) =
      splitFrom? (isNumeralChar cs) (num.reverse ++ seen) tail := by
  induction num generalizing seen with
  | nil => rfl
  | cons c num ih =>
    obtain ⟨hplain, hin⟩ := hnum c (List.mem_cons_self ..)
    rw [List.cons_append, splitFrom?_cons, hin, if_pos rfl,
      ih fun d hd => hnum d (List.mem_cons_of_mem c hd),
      splitAt?_eq_none (readTail?_of_isPlain hplain _), Option.orElse_eq_orElse]
    simp

theorem IsTail.ofMark?_ne {c : Char} {rest : List Char} (h : IsTail (c :: rest)) :
    Base.ofMark? c ≠ some .hexadecimal := by
  rcases h with h | ⟨_, h⟩ | ⟨_, h⟩ | hunit
  · cases h
  · rw [(List.cons.inj h).1]
    decide
  · rw [(List.cons.inj h).1]
    decide
  · have hforeign (hc : isForeign c = true) : Base.ofMark? c ≠ some .hexadecimal := by
      simp only [isForeign, Bool.and_eq_true, Option.isNone_iff_eq_none] at hc
      rw [hc.2]
      simp
    -- Of the letters of marks a unit may start with those of the binary and of the octal one only.
    have hleaves := leavesNumerals_of_isUnitExpression hunit
    match rest with
    | [] => exact hforeign hleaves
    | d :: rest =>
      rcases Bool.or_eq_true_iff.1 hleaves with hc | hd
      · exact hforeign hc
      · simp only [Bool.and_eq_true, Bool.or_eq_true, decide_eq_true_eq] at hd
        rcases hd.1.1.1 with rfl | rfl <;> decide

theorem startsHexadecimal_append (hnum : IsWritten num) (htail : IsTail tail) :
    startsHexadecimal (num ++ tail) = false := by
  obtain ⟨negative, w, hvalid, rfl⟩ := hnum
  unfold startsHexadecimal
  rw [List.append_assoc, Written.splitSign_text hvalid]
  simp only
  split
  next mark rest htext =>
    refine decide_eq_false ?_
    -- The mark would be in the number, or the start of the tail.
    rcases hw : w.text with _ | ⟨c, _ | ⟨d, more⟩⟩
    · simp only [Written.text, digitText, List.append_eq_nil_iff, List.map_eq_nil_iff] at hw
      exact absurd hw.1.1 hvalid.some
    · rw [hw] at htext
      obtain ⟨-, rfl⟩ := List.cons.inj htext
      exact htail.ofMark?_ne
    · rw [hw] at htext
      have hmark : d = mark := (List.cons.inj (List.cons.inj htext).2).1
      have hplain : IsPlain d := Written.isPlain_text hvalid d (by simp [hw])
      rw [← hmark, ofMark?_of_isPlain hplain]
      simp
  next => rfl

theorem isNumeralChar_of_isPlain (hbase : startsHexadecimal cs = false) {c : Char}
    (h : IsPlain c) : isNumeralChar cs c = true := by
  rcases h with h | rfl | rfl | rfl <;> simp_all [isNumeralChar, Magnitude.isExponentMark]

/-- **The split of a written quantity** is at the end of its number, or nowhere. -/
theorem split?_append (hnum : IsWritten num) (htail : IsTail tail) :
    split? (num ++ tail) = splitAt? num.reverse tail := by
  have hbase := startsHexadecimal_append hnum htail
  have hchars : ∀ c ∈ num, IsPlain c ∧ isNumeralChar (num ++ tail) c = true := fun c hc =>
    ⟨hnum.isPlain c hc, isNumeralChar_of_isPlain hbase (hnum.isPlain c hc)⟩
  rw [split?, splitFrom?_append hchars, List.append_nil, splitFrom?_tail hbase htail]

/-! ## Tails -/

theorem readTail?_tolerance {low high : List Char} (hlow : ∀ c ∈ low, c ≠ ',')
    (hhigh : ∀ c ∈ high, c ≠ ']') (unit : List Char) :
    readTail? ('[' :: low ++ ',' :: high ++ ']' :: unit) =
      (Numeral.read? low).bind fun low => (Numeral.read? high).bind fun high =>
        (UnitText.read? unit).map fun unit => (some (low, high), unit) := by
  have hspanLow : (low ++ ',' :: (high ++ ']' :: unit)).span (· ≠ ',') =
      (low, ',' :: (high ++ ']' :: unit)) :=
    span_append (fun c hc => decide_eq_true (hlow c hc)) fun c hc => by
      cases hc
      rfl
  have hspanHigh : (high ++ ']' :: unit).span (· ≠ ']') = (high, ']' :: unit) :=
    span_append (fun c hc => decide_eq_true (hhigh c hc)) fun c hc => by
      cases hc
      rfl
  have htext : '[' :: low ++ ',' :: high ++ ']' :: unit =
      '[' :: (low ++ ',' :: (high ++ ']' :: unit)) := by simp
  rw [htext, readTail?]
  simp only [hspanLow, hspanHigh, Option.bind_eq_bind]
  cases Numeral.read? low <;> cases Numeral.read? high <;> cases UnitText.read? unit <;> rfl

theorem isTail_tolerance (low high unit : List Char) :
    IsTail ('[' :: low ++ ',' :: high ++ ']' :: unit) :=
  .inr (.inl ⟨low ++ ',' :: high ++ ']' :: unit, rfl⟩)

theorem readTail?_unit {unit : List Char} (h : unit.head? ≠ some '[') :
    readTail? unit = (UnitText.read? unit).map fun unit => (none, unit) := by
  unfold readTail?
  split
  next => exact absurd rfl h
  next => rfl

/-! ## Well-formed quantities -/

/-- The number is finite, the ends of the tolerance are both absent or both finite, and there is at
most one unit, an expression or a node. -/
structure WellFormed (q : Quantity) : Prop where
  number : q.number.isFinite = true
  tolerance : q.lowTolerance = none ∧ q.highTolerance = none ∨
    ∃ low high, q.lowTolerance = some low ∧ q.highTolerance = some high ∧
      low.isFinite = true ∧ high.isFinite = true
  unit : q.siUnits = none ∧ q.unitsNode = none ∨
    (∃ unit, q.siUnits = some unit ∧ isUnitExpression unit.toList = true ∧ q.unitsNode = none) ∨
    ∃ node, q.unitsNode = some node ∧ isUnitsNode node = true ∧ q.siUnits = none

/-- What is written for the unit. -/
def unitChars (q : Quantity) : List Char := (q.unit.map String.toList).getD []

/-- What is read from it. -/
def unitText (q : Quantity) : UnitText :=
  match q.siUnits, q.unitsNode with
  | _, some node => .node node.toList
  | some unit, none => .expression unit.toList
  | none, none => .absent

/-- **The unit of a well-formed quantity is read back.** -/
theorem WellFormed.read?_unit {q : Quantity} (h : q.WellFormed) :
    UnitText.read? q.unitChars = some q.unitText ∧ IsTail q.unitChars ∧
      q.unitChars.head? ≠ some '[' := by
  rcases h.unit with ⟨hsi, hnode⟩ | ⟨unit, hsi, hunit, hnode⟩ | ⟨node, hnode, hunit, hsi⟩
  · simp [unitChars, unitText, Quantity.unit, hsi, hnode, UnitText.read?, IsTail]
  · have hchars : q.unitChars = unit.toList := by simp [unitChars, Quantity.unit, hsi, hnode]
    have htext : q.unitText = .expression unit.toList := by simp [unitText, hsi, hnode]
    rw [hchars, htext]
    obtain ⟨c, rest, hcs⟩ : ∃ c rest, unit.toList = c :: rest := by
      cases hcs : unit.toList with
      | nil =>
        rw [hcs] at hunit
        exact absurd (leavesNumerals_of_isUnitExpression hunit) (by decide)
      | cons c rest => exact ⟨c, rest, rfl⟩
    rw [hcs] at hunit ⊢
    -- An expression is not taken for a node, which is tried first.
    obtain ⟨halpha, -, hQ⟩ := startsUnit_spec (startsUnit_of_isUnitExpression hunit)
    refine ⟨?_, .inr (.inr (.inr hunit)), ?_⟩
    · have hnodeText : isUnitsNodeText (c :: rest) = false := by
        unfold isUnitsNodeText
        split
        next hc => exact absurd (List.cons.inj hc).1 hQ
        next => rfl
      simp [UnitText.read?, hnodeText, hunit]
    · rintro hc
      cases hc
      cases halpha
  · have hchars : q.unitChars = node.toList := by simp [unitChars, Quantity.unit, hnode]
    have htext : q.unitText = .node node.toList := by simp [unitText, hnode]
    rw [hchars, htext]
    unfold isUnitsNode at hunit
    obtain ⟨rest, hcs⟩ : ∃ rest, node.toList = 'Q' :: rest := by
      unfold isUnitsNodeText at hunit
      split at hunit
      next rest hcs => exact ⟨rest, hcs⟩
      next => cases hunit
    rw [hcs] at hunit ⊢
    exact ⟨by simp [UnitText.read?, hunit], .inr (.inr (.inl ⟨rest, rfl⟩)), by simp⟩

/-! ## Tolerances -/

/-- **The end of a tolerance is read back**, up to the sign of zero. -/
theorem read_renderTolerance {x : Binary64} (hx : x.isFinite = true) :
    IsWritten (renderTolerance x) ∧ ∃ n number, Numeral.read? (renderTolerance x) = some n ∧
      Number.ofNumeral n = .ok number ∧ number.toBinary64.numEq x = true := by
  have hliteral : IsWritten (NumberForm.literal.render x) ∧
      ∃ n number, Numeral.read? (NumberForm.literal.render x) = some n ∧
        Number.ofNumeral n = .ok number ∧ number.toBinary64.numEq x = true := by
    obtain ⟨hwritten, n, hread, hvalue⟩ := Number.read_literal hx
    exact ⟨hwritten, n, .float x, hread, hvalue, Binary64.numEq_self hx⟩
  unfold renderTolerance
  split
  next z hz =>
    split
    next hsmall =>
      obtain ⟨n, hread, hvalue⟩ := Number.read_toString z
      refine ⟨isWritten_toString z, n, _, hread, hvalue, ?_⟩
      have hfits : FitsInt64 z := by
        unfold FitsInt64
        omega
      rw [Number.ofInt, if_pos hfits, Number.toBinary64, Int64.toInt_ofInt_of_le hfits.1 hfits.2]
      exact Binary64.numEq_ofInt_of_toInt? hz
    next => exact hliteral
  next => exact hliteral

theorem ne_of_isWritten {cs : List Char} (h : IsWritten cs) :
    ∀ c ∈ cs, c ≠ ',' ∧ c ≠ ']' := by
  intro c hc
  exact ⟨(h.isPlain c hc).ne (by decide), (h.isPlain c hc).ne (by decide)⟩

/-! ## Reading -/

/-- Equal as two optional doubles are: both absent, or both numbers and equal. -/
def sameOption : Option Binary64 → Option Binary64 → Bool
  | none, none => true
  | some x, some y => x.numEq y
  | _, _ => false

/-- Equal as two quantities are: doubles are compared as numbers. -/
def same (q r : Quantity) : Bool :=
  (match q.number, r.number with
    | .int a, .int b => a = b
    | .float x, .float y => x.numEq y
    | _, _ => false) &&
  sameOption q.lowTolerance r.lowTolerance && sameOption q.highTolerance r.highTolerance &&
  q.siUnits = r.siUnits && q.unitsNode = r.unitsNode

theorem same_eq {q r : Quantity} (hnumber : q.number = r.number)
    (hfinite : q.number.isFinite = true) (hsi : q.siUnits = r.siUnits)
    (hnode : q.unitsNode = r.unitsNode) :
    q.same r = (sameOption q.lowTolerance r.lowTolerance &&
      sameOption q.highTolerance r.highTolerance) := by
  unfold same
  rw [← hnumber, hsi, hnode]
  cases hn : q.number with
  | int v => simp
  | float x =>
    rw [hn] at hfinite
    simp [Binary64.numEq_self hfinite]

theorem WellFormed.units_eq {q : Quantity} (h : q.WellFormed) :
    (match q.unitText with
      | .expression cs => some (String.ofList cs)
      | _ => none) = q.siUnits ∧
    (match q.unitText with
      | .node cs => some (String.ofList cs)
      | _ => none) = q.unitsNode := by
  rcases h.unit with ⟨hsi, hnode⟩ | ⟨unit, hsi, -, hnode⟩ | ⟨node, hnode, -, hsi⟩ <;>
    simp [unitText, hsi, hnode]

/-- **The number and the unit of a well-formed quantity are read back**, and its tolerance up to the
sign of zero. -/
theorem WellFormed.exists_read_render {q : Quantity} (h : q.WellFormed) :
    ∃ r, read (String.ofList q.render) = .ok r ∧ r.number = q.number ∧ r.siUnits = q.siUnits ∧
      r.unitsNode = q.unitsNode ∧ sameOption r.lowTolerance q.lowTolerance = true ∧
      sameOption r.highTolerance q.highTolerance = true := by
  obtain ⟨hwritten, n, hread, hnumber⟩ := Number.read_render h.number
  obtain ⟨hunit, htail, hhead⟩ := h.read?_unit
  obtain ⟨hsi, hnode⟩ := h.units_eq
  have hsplit (rest : List Char) (hrest : IsTail rest) :
      split? (q.number.render ++ rest) =
        (readTail? rest).map fun tail => ⟨n, tail.1, tail.2⟩ := by
    rw [split?_append hwritten hrest, splitAt?, List.reverse_reverse, hread]
    cases readTail? rest <;> rfl
  unfold read
  rw [String.toList_ofList]
  rcases h.tolerance with ⟨hlow, hhigh⟩ | ⟨low, high, hlow, hhigh, hlowFinite, hhighFinite⟩
  · have hrender : q.render = q.number.render ++ q.unitChars := by
      simp [render, hlow, hhigh, unitChars]
    rw [hrender, hsplit _ htail, readTail?_unit hhead, hunit]
    simp only [Option.map_some, ofSplit, hnumber]
    exact ⟨_, rfl, rfl, hsi, hnode, by rw [hlow]; rfl, by rw [hhigh]; rfl⟩
  · obtain ⟨hlowWritten, m, lowNumber, hlowRead, hlowValue, hlowEq⟩ :=
      read_renderTolerance hlowFinite
    obtain ⟨hhighWritten, m', highNumber, hhighRead, hhighValue, hhighEq⟩ :=
      read_renderTolerance hhighFinite
    have hrender : q.render = q.number.render ++
        ('[' :: renderTolerance low ++ ',' :: renderTolerance high ++ ']' :: q.unitChars) := by
      simp [render, hlow, hhigh, unitChars]
    have htolerance := readTail?_tolerance (fun c hc => (ne_of_isWritten hlowWritten c hc).1)
      (fun c hc => (ne_of_isWritten hhighWritten c hc).2) q.unitChars
    rw [hlowRead, hhighRead, hunit] at htolerance
    rw [hrender, hsplit _ (isTail_tolerance ..), htolerance]
    simp only [Option.bind_some, Option.map_some, ofSplit, hnumber, hlowValue, hhighValue]
    exact ⟨_, rfl, rfl, hsi, hnode, by rw [hlow]; exact hlowEq, by rw [hhigh]; exact hhighEq⟩

/-- **A well-formed quantity is read back.** -/
theorem WellFormed.read_render {q : Quantity} (h : q.WellFormed) :
    ∃ r, read (String.ofList q.render) = .ok r ∧ r.same q = true := by
  obtain ⟨r, hread, hnumber, hsi, hnode, hlow, hhigh⟩ := h.exists_read_render
  refine ⟨r, hread, ?_⟩
  rw [same_eq hnumber (hnumber ▸ h.number) hsi hnode, hlow, hhigh]
  rfl

end Quantity

end FactGraph
