import FactGraph.Proofs.Literal.Quantity

/-!
# Numerals beyond the doubles

The value of a numeral overflows when it rounds to infinity. Numerals with a base mark, a point or
an exponent are refused then, but an integer of base ten is taken for the infinite double. So a
quantity that is read is finite exactly if none of its numerals overflows
(`Quantity.IsValueOf.isFinite_iff`), and a quantity that is not finite is not read back
(`Quantity.Formed.render_of_infinite`).
-/

namespace FactGraph

open Binary64 (overflowBound)

/-! ## The value of numerals -/

namespace Magnitude

/-- The value as a fraction of naturals. -/
def fraction : Magnitude → Nat × Nat
  | whole ds => (valueOfDigits 10 ds, 1)
  | based base ds => (valueOfDigits base.size ds, 1)
  | decimal before behind exp =>
    (valueOfDigits 10 (before ++ behind) * 10 ^ (exp - behind.length).toNat,
      10 ^ (-(exp - behind.length)).toNat)

end Magnitude

namespace Numeral

/-- The value is so large that it rounds to infinity. -/
def Overflows (n : Numeral) : Prop :=
  overflowBound * n.magnitude.fraction.2 ≤ n.magnitude.fraction.1

instance (n : Numeral) : Decidable n.Overflows := by unfold Overflows; infer_instance

/-- The numeral is an integer of base ten. -/
def isWhole (n : Numeral) : Bool :=
  match n.magnitude with
  | .whole _ => true
  | _ => false

end Numeral

/-! ## Finite numbers -/

theorem two_pow_lt_overflowBound : 2 ^ 64 < overflowBound := by decide +kernel

theorem Binary64.isFinite_ofInt (z : Int) :
    (ofInt z).isFinite = true ↔ z.natAbs < overflowBound := by
  rw [ofInt, isFinite_ofRank _ (nearestRank_le _ _), Ne, nearestRank_eq_infinityRank_iff one_pos,
    Nat.mul_one, Nat.not_le]

namespace Number

theorem isFinite_toBinary64 (number : Number) :
    number.toBinary64.isFinite = number.isFinite := by
  cases number with
  | int v =>
    rw [toBinary64, isFinite, Binary64.isFinite_ofInt]
    have hbound := two_pow_lt_overflowBound
    have hlow := v.le_toInt
    have hhigh := v.toInt_lt
    omega
  | float x => rfl

theorem isFinite_ofInt (z : Int) : (ofInt z).isFinite = true ↔ z.natAbs < overflowBound := by
  rw [← isFinite_toBinary64, ofInt]
  split
  next hfits =>
    rw [toBinary64, Int64.toInt_ofInt_of_le hfits.1 hfits.2, Binary64.isFinite_ofInt]
  next => exact Binary64.isFinite_ofInt z

theorem natAbs_signed (negative : Bool) (n : Nat) : (signed negative n).natAbs = n := by
  cases negative <;> simp [signed]

/-- **The number of a numeral is finite exactly if the numeral does not overflow**, and then only an
integer of base ten has an infinite one. -/
theorem isFinite_iff_of_ofNumeral {n : Numeral} {number : Number}
    (h : ofNumeral n = .ok number) :
    (number.isFinite = true ↔ ¬ n.Overflows) ∧ (n.Overflows → n.isWhole = true) := by
  obtain ⟨text, negative, magnitude⟩ := n
  unfold ofNumeral at h
  -- Whole numbers are not checked, so they alone are read when they overflow.
  cases magnitude with
  | whole ds =>
    cases h
    refine ⟨?_, fun _ => rfl⟩
    rw [isFinite_ofInt, natAbs_signed]
    simp [Numeral.Overflows, Magnitude.fraction]
  | based base ds =>
    simp only at h
    split at h
    next hsmall =>
      cases h
      -- Numbers with a mark are refused from 2 to the 64 on, long before the floats end.
      have hbelow : valueOfDigits base.size ds < overflowBound :=
        hsmall.trans two_pow_lt_overflowBound
      have hnot : ¬ Numeral.Overflows ⟨text, negative, .based base ds⟩ := by
        simpa [Numeral.Overflows, Magnitude.fraction] using hbelow
      rw [isFinite_ofInt, natAbs_signed]
      exact ⟨iff_of_true hbelow hnot, fun hover => absurd hover hnot⟩
    next => cases h
  | decimal before behind exp =>
    simp only at h
    split at h
    next hfinite =>
      cases h
      have hnot : ¬ Numeral.Overflows ⟨text, negative, .decimal before behind exp⟩ := by
        have hrank := (Binary64.isFinite_ofRank _ (Binary64.decimalRank_le _ _)).1 hfinite
        rw [Binary64.decimalRank_eq, Ne,
          Binary64.nearestRank_eq_infinityRank_iff (Nat.pow_pos (by decide))] at hrank
        exact hrank
      exact ⟨iff_of_true hfinite hnot, fun hover => absurd hover hnot⟩
    next => cases h

theorem kind_of_ofNumeral {n : Numeral} {e : LiteralError} (h : ofNumeral n = .error e) :
    e.kind = .outOfRange := by
  unfold ofNumeral at h
  split at h
  · cases h
  · simp only at h
    split at h
    · cases h
    · cases h
      rfl
  · simp only at h
    split at h
    · cases h
    · cases h
      rfl

end Number

namespace Quantity

/-! ## What is read -/

/-- The ends of the tolerance are both absent or both present, and there is at most one unit, an
expression or a node. -/
structure Formed (q : Quantity) : Prop where
  tolerance : q.lowTolerance = none ∧ q.highTolerance = none ∨
    ∃ low high, q.lowTolerance = some low ∧ q.highTolerance = some high
  unit : q.siUnits = none ∧ q.unitsNode = none ∨
    (∃ unit, q.siUnits = some unit ∧ isUnitExpression unit.toList = true ∧ q.unitsNode = none) ∨
    ∃ node, q.unitsNode = some node ∧ isUnitsNode node = true ∧ q.siUnits = none

/-- The number and the ends of the tolerance are finite. -/
def isFinite (q : Quantity) : Bool :=
  q.number.isFinite && q.lowTolerance.all Binary64.isFinite && q.highTolerance.all Binary64.isFinite

theorem WellFormed.formed {q : Quantity} (h : q.WellFormed) : q.Formed := by
  refine ⟨h.tolerance.imp id ?_, h.unit⟩
  rintro ⟨low, high, hlow, hhigh, -⟩
  exact ⟨low, high, hlow, hhigh⟩

/-- A quantity is well-formed if it has the form of one and is finite. -/
theorem Formed.wellFormed_iff {q : Quantity} (h : q.Formed) :
    q.WellFormed ↔ q.isFinite = true := by
  constructor
  · rintro ⟨hnumber, htolerance, -⟩
    rcases htolerance with ⟨hlow, hhigh⟩ | ⟨low, high, hlow, hhigh, hlowFinite, hhighFinite⟩
    · simp [isFinite, hnumber, hlow, hhigh]
    · simp [isFinite, hnumber, hlow, hhigh, hlowFinite, hhighFinite]
  · intro hfinite
    simp only [isFinite, Bool.and_eq_true] at hfinite
    obtain ⟨⟨hnumber, hlowFinite⟩, hhighFinite⟩ := hfinite
    refine ⟨hnumber, ?_, h.unit⟩
    rcases h.tolerance with hnone | ⟨low, high, hlow, hhigh⟩
    · exact .inl hnone
    · rw [hlow] at hlowFinite
      rw [hhigh] at hhighFinite
      exact .inr ⟨low, high, hlow, hhigh, hlowFinite, hhighFinite⟩

/-- The numerals of a quantity taken apart. -/
def Split.numerals (s : Split) : List Numeral :=
  s.number :: match s.tolerance with
    | none => []
    | some (low, high) => [low, high]

/-- The unit of a split was read as one. -/
def Split.HasUnit (s : Split) : Prop := ∃ cs, UnitText.read? cs = some s.unit

theorem Split.hasUnit_of_readTail? {cs : List Char} {tolerance : Option (Numeral × Numeral)}
    {unit : UnitText} (h : readTail? cs = some (tolerance, unit)) (number : Numeral) :
    HasUnit ⟨number, tolerance, unit⟩ := by
  unfold readTail? at h
  split at h
  next =>
    split at h
    next =>
      split at h
      next rest _ =>
        simp only [Option.bind_eq_bind, Option.bind_eq_some_iff, Option.some.injEq,
          Prod.mk.injEq] at h
        obtain ⟨-, -, -, -, unit', hunit, -, rfl⟩ := h
        exact ⟨_, hunit⟩
      next => cases h
    next => cases h
  next =>
    obtain ⟨unit', hunit, heq⟩ := Option.map_eq_some_iff.1 h
    cases heq
    exact ⟨cs, hunit⟩

theorem Split.hasUnit_of_splitAt? {seen rest : List Char} {s : Split}
    (h : splitAt? seen rest = some s) : s.HasUnit := by
  obtain ⟨⟨tolerance, unit⟩, htail, h⟩ := Option.bind_eq_some_iff.1 h
  obtain ⟨number, -, h⟩ := Option.bind_eq_some_iff.1 h
  cases h
  exact hasUnit_of_readTail? htail number

/-- Wherever a text is split, the unit was read as one. -/
theorem Split.hasUnit_of_splitFrom? {inNumeral : Char → Bool} {seen cs : List Char} {s : Split}
    (h : splitFrom? inNumeral seen cs = some s) : s.HasUnit := by
  induction cs generalizing seen with
  | nil => exact hasUnit_of_splitAt? h
  | cons c rest ih =>
    rw [splitFrom?_cons, Option.orElse_eq_orElse, Option.orElse_eq_or, Option.or_eq_some_iff] at h
    rcases h with hlonger | ⟨-, hhere⟩
    · exact ih (Option.ite_none_right_eq_some.1 hlonger).2
    · exact hasUnit_of_splitAt? hhere

theorem UnitText.of_read?_eq_some {cs : List Char} {unit : UnitText}
    (h : UnitText.read? cs = some unit) :
    unit = .absent ∨ (unit = .expression cs ∧ isUnitExpression cs = true) ∨
      (unit = .node cs ∧ isUnitsNodeText cs = true) := by
  unfold UnitText.read? at h
  split at h
  · cases h
    exact .inl rfl
  · split at h
    next hnode =>
      cases h
      exact .inr (.inr ⟨rfl, hnode⟩)
    next =>
      split at h
      next hexpression =>
        cases h
        exact .inr (.inl ⟨rfl, hexpression⟩)
      next => cases h

/-- The quantity has the values of the numerals of the split, and its unit. -/
structure IsValueOf (q : Quantity) (s : Split) : Prop where
  number : Number.ofNumeral s.number = .ok q.number
  tolerance : s.tolerance = none ∧ q.lowTolerance = none ∧ q.highTolerance = none ∨
    ∃ low high lowNumber highNumber, s.tolerance = some (low, high) ∧
      Number.ofNumeral low = .ok lowNumber ∧ Number.ofNumeral high = .ok highNumber ∧
      q.lowTolerance = some lowNumber.toBinary64 ∧ q.highTolerance = some highNumber.toBinary64
  siUnits : q.siUnits = match s.unit with
    | .expression cs => some (String.ofList cs)
    | _ => none
  unitsNode : q.unitsNode = match s.unit with
    | .node cs => some (String.ofList cs)
    | _ => none

/-- **A split is refused for one of its numerals**, or gives a quantity with their values. -/
theorem ofSplit_cases (s : Split) :
    (∃ n ∈ s.numerals, ∃ e, Number.ofNumeral n = .error e ∧ ofSplit s = .error e) ∨
      ∃ q, ofSplit s = .ok q ∧ q.IsValueOf s := by
  obtain ⟨number, tolerance, unit⟩ := s
  unfold ofSplit
  cases hnumber : Number.ofNumeral number with
  | error e => exact .inl ⟨number, List.mem_cons_self, e, hnumber, rfl⟩
  | ok value =>
    cases tolerance with
    | none => exact .inr ⟨_, rfl, hnumber, .inl ⟨rfl, rfl, rfl⟩, rfl, rfl⟩
    | some ends =>
      obtain ⟨low, high⟩ := ends
      cases hlow : Number.ofNumeral low with
      | error e =>
        simp only [hlow]
        exact .inl ⟨low, by simp [Split.numerals], e, hlow, rfl⟩
      | ok lowNumber =>
        cases hhigh : Number.ofNumeral high with
        | error e =>
          simp only [hlow, hhigh]
          exact .inl ⟨high, by simp [Split.numerals], e, hhigh, rfl⟩
        | ok highNumber =>
          simp only [hlow, hhigh]
          exact .inr ⟨_, rfl, hnumber,
            .inr ⟨low, high, lowNumber, highNumber, rfl, hlow, hhigh, rfl, rfl⟩, rfl, rfl⟩

theorem isValueOf_of_ofSplit {s : Split} {q : Quantity} (h : ofSplit s = .ok q) :
    q.IsValueOf s := by
  rcases ofSplit_cases s with ⟨_, -, e, -, herror⟩ | ⟨q', hok, hvalue⟩
  · rw [herror] at h
    cases h
  · rw [hok] at h
    cases h
    exact hvalue

theorem kind_of_ofSplit {s : Split} {e : LiteralError} (h : ofSplit s = .error e) :
    e.kind = .outOfRange := by
  rcases ofSplit_cases s with ⟨n, -, e', hread, herror⟩ | ⟨q, hok, -⟩
  · rw [herror] at h
    cases h
    exact Number.kind_of_ofNumeral hread
  · rw [hok] at h
    cases h

/-- **The quantity of a split has the form of one.** -/
theorem IsValueOf.formed {s : Split} {q : Quantity} (h : q.IsValueOf s) (hunit : s.HasUnit) :
    q.Formed := by
  obtain ⟨-, htolerance, hsi, hnode⟩ := h
  obtain ⟨cs, hread⟩ := hunit
  refine ⟨?_, ?_⟩
  · rcases htolerance with ⟨-, hlow, hhigh⟩ | ⟨-, -, _, _, -, -, -, hlow, hhigh⟩
    · exact .inl ⟨hlow, hhigh⟩
    · exact .inr ⟨_, _, hlow, hhigh⟩
  · rcases UnitText.of_read?_eq_some hread with habsent | ⟨hunit, htext⟩ | ⟨hunit, htext⟩
    · rw [habsent] at hsi hnode
      exact .inl ⟨hsi, hnode⟩
    · rw [hunit] at hsi hnode
      exact .inr (.inl ⟨_, hsi, by rwa [String.toList_ofList], hnode⟩)
    · rw [hunit] at hsi hnode
      exact .inr (.inr ⟨_, hnode, by rwa [isUnitsNode, String.toList_ofList], hsi⟩)

/-- **The quantity of a split is finite exactly if no numeral overflows**, and only integers of base
ten can. -/
theorem IsValueOf.isFinite_iff {s : Split} {q : Quantity} (h : q.IsValueOf s) :
    (q.isFinite = true ↔ ∀ n ∈ s.numerals, ¬ n.Overflows) ∧
      ∀ n ∈ s.numerals, n.Overflows → n.isWhole = true := by
  obtain ⟨hnumber, htolerance, -, -⟩ := h
  obtain ⟨hnumberFinite, hnumberWhole⟩ := Number.isFinite_iff_of_ofNumeral hnumber
  rcases htolerance with ⟨hnone, hlow, hhigh⟩ | ⟨low, high, lowNumber, highNumber, hsome,
    hlowRead, hhighRead, hlow, hhigh⟩
  · have hnumerals : s.numerals = [s.number] := by rw [Split.numerals, hnone]
    rw [hnumerals]
    simp only [isFinite, hlow, hhigh, Option.all_none, Bool.and_true, List.forall_mem_singleton]
    exact ⟨hnumberFinite, hnumberWhole⟩
  · have hnumerals : s.numerals = [s.number, low, high] := by rw [Split.numerals, hsome]
    obtain ⟨hlowFinite, hlowWhole⟩ := Number.isFinite_iff_of_ofNumeral hlowRead
    obtain ⟨hhighFinite, hhighWhole⟩ := Number.isFinite_iff_of_ofNumeral hhighRead
    rw [hnumerals]
    simp only [isFinite, hlow, hhigh, Option.all_some, Bool.and_eq_true, List.forall_mem_cons,
      Number.isFinite_toBinary64, hnumberFinite, hlowFinite, hhighFinite]
    exact ⟨by simp [and_assoc], hnumberWhole, hlowWhole, hhighWhole, by simp⟩

/-! ## What is not read back -/

theorem render_of_not_isFinite {x : Binary64} (h : x.isFinite = false) :
    NumberForm.literal.render x ∈ [['N', 'a', 'N'], ['i', 'n', 'f'], ['-', 'i', 'n', 'f']] := by
  cases x with
  | nan => exact List.mem_cons_self
  | ranked negative rank le =>
    have hrank : rank = infinityRank := by
      have hnot := of_decide_eq_false h
      omega
    rw [NumberForm.render, if_pos hrank]
    cases negative <;> decide

theorem renderTolerance_of_not_isFinite {x : Binary64} (h : x.isFinite = false) :
    renderTolerance x = NumberForm.literal.render x := by
  have hnone : x.toInt? = none := by
    cases x with
    | nan => rfl
    | ranked negative rank le =>
      have hnot := of_decide_eq_false h
      unfold Binary64.toInt?
      simp only
      rw [if_neg fun hint => hnot hint.1]
  rw [renderTolerance, hnone]

theorem ne_of_mem_renderTolerance (x : Binary64) :
    ∀ c ∈ renderTolerance x, c ≠ ',' ∧ c ≠ ']' := by
  cases hx : x.isFinite with
  | true => exact ne_of_isWritten (read_renderTolerance hx).1
  | false =>
    rw [renderTolerance_of_not_isFinite hx]
    have hrender := render_of_not_isFinite hx
    generalize NumberForm.literal.render x = cs at hrender
    simp only [List.mem_cons, List.not_mem_nil, or_false] at hrender
    rcases hrender with rfl | rfl | rfl <;> simp

theorem read?_of_not_isFinite {x : Binary64} (h : x.isFinite = false) :
    Numeral.read? (renderTolerance x) = none := by
  rw [renderTolerance_of_not_isFinite h]
  have hrender := render_of_not_isFinite h
  generalize NumberForm.literal.render x = cs at hrender
  revert cs
  decide

/-- A tolerance of which one end is not finite is not read. -/
theorem splitAt?_of_infinite (seen unit : List Char) {low high : Binary64}
    (h : low.isFinite = false ∨ high.isFinite = false) :
    splitAt? seen ('[' :: renderTolerance low ++ ',' :: renderTolerance high ++ ']' :: unit) =
      none := by
  refine splitAt?_eq_none ?_
  rw [readTail?_tolerance (fun c hc => (ne_of_mem_renderTolerance low c hc).1)
    fun c hc => (ne_of_mem_renderTolerance high c hc).2]
  rcases h with hlow | hhigh
  · rw [read?_of_not_isFinite hlow, Option.bind_none]
  · rw [read?_of_not_isFinite hhigh]
    cases Numeral.read? (renderTolerance low) <;> rfl

theorem split?_minus_infinity (rest : List Char) : split? ('-' :: 'i' :: rest) = none := by
  have hinner : splitFrom? (isNumeralChar ('-' :: 'i' :: rest)) ['-'] ('i' :: rest) = none := by
    have hchar : isNumeralChar ('-' :: 'i' :: rest) 'i' = false := rfl
    have htail : readTail? ('i' :: rest) = none :=
      readTail?_eq_none rest (by decide) (by decide) (by decide)
    rw [splitFrom?_cons, hchar, splitAt?_eq_none htail]
    rfl
  have htail : readTail? ('-' :: 'i' :: rest) = none :=
    readTail?_of_isPlain (.inr (.inr (.inr rfl))) _
  rw [split?, splitFrom?_cons, hinner, splitAt?_eq_none htail]
  split <;> rfl

/-- **A quantity that is not finite is not read back**: its written form does not start like a
quantity, or does not go on like one. -/
theorem Formed.render_of_infinite {q : Quantity} (h : q.Formed) (hinfinite : q.isFinite = false) :
    ∃ c rest, q.render = c :: rest ∧
      (c = 'i' ∨ c = 'N' ∨ (c.isDigit = true ∨ c = '-') ∧ split? q.render = none) := by
  cases hnumber : q.number.isFinite with
  | true =>
    -- A finite number is written, so a side of its tolerance is not, and the text has no split.
    obtain ⟨hwritten, -⟩ := Number.read_render hnumber
    obtain ⟨c, rest, hcons, hc⟩ := hwritten.exists_cons
    rcases h.tolerance with ⟨hlow, hhigh⟩ | ⟨low, high, hlow, hhigh⟩
    · simp [isFinite, hnumber, hlow, hhigh] at hinfinite
    · rw [isFinite, hnumber, hlow, hhigh] at hinfinite
      have hends : low.isFinite = false ∨ high.isFinite = false := by
        rwa [Option.all_some, Option.all_some, Bool.true_and, Bool.and_eq_false_iff] at hinfinite
      have hrender : q.render = q.number.render ++
          ('[' :: renderTolerance low ++ ',' :: renderTolerance high ++ ']' :: q.unitChars) := by
        simp [render, hlow, hhigh, unitChars]
      refine ⟨c, _, by rw [hrender, hcons]; rfl, .inr (.inr ⟨hc, ?_⟩)⟩
      rw [hrender, split?_append hwritten (isTail_tolerance ..), splitAt?_of_infinite _ _ hends]
  | false =>
    cases hq : q.number with
    | int v =>
      rw [hq] at hnumber
      cases hnumber
    | float x =>
      rw [hq] at hnumber
      obtain ⟨tail, hrender⟩ : ∃ tail, q.render = NumberForm.literal.render x ++ tail :=
        ⟨_, by rw [render, hq, Number.render, List.append_assoc]⟩
      have hx := render_of_not_isFinite hnumber
      simp only [List.mem_cons, List.not_mem_nil, or_false] at hx
      rcases hx with hx | hx | hx
      · exact ⟨'N', _, by rw [hrender, hx]; rfl, .inr (.inl rfl)⟩
      · exact ⟨'i', _, by rw [hrender, hx]; rfl, .inl rfl⟩
      · refine ⟨'-', _, by rw [hrender, hx]; rfl, .inr (.inr ⟨.inr rfl, ?_⟩)⟩
        rw [hrender, hx]
        exact split?_minus_infinity _

end Quantity

end FactGraph
