import FactGraph.Proofs.Literal.Characters
import FactGraph.Proofs.Literal.Grammar
import FactGraph.Proofs.Literal.Quantity

/-!
# Units are recognised

What is read as a unit is exactly nothing, a word of `Grammar.unitExpression` or one of
`Grammar.unitsNode` (`Quantity.UnitText.read?_eq_some_iff`). The parts of an expression between its
points and slashes are unit factors, because no unit factor has one of those
(`Quantity.isUnitExpression_iff`).
-/

namespace FactGraph

open Computability Grammar

theorem isDigit_iff {c : Char} : c.isDigit = true ↔ '0' ≤ c ∧ c ≤ '9' :=
  Bool.and_eq_true_iff.trans (and_congr decide_eq_true_iff decide_eq_true_iff)

theorem isAlpha_iff {c : Char} :
    c.isAlpha = true ↔ ('A' ≤ c ∧ c ≤ 'Z') ∨ ('a' ≤ c ∧ c ≤ 'z') := by
  have hupper : c.isUpper = true ↔ 'A' ≤ c ∧ c ≤ 'Z' := decide_eq_true_iff
  have hlower : c.isLower = true ↔ 'a' ≤ c ∧ c ≤ 'z' :=
    Bool.and_eq_true_iff.trans (and_congr decide_eq_true_iff decide_eq_true_iff)
  have halpha : c.isAlpha = (c.isUpper || c.isLower) := rfl
  rw [halpha, Bool.or_eq_true, hupper, hlower]

namespace Quantity

variable {cs first rest : List Char} {c : Char}

/-! ## Unit factors -/

theorem isUnitFactor_iff : isUnitFactor cs = true ↔ cs ∈ unitFactor := by
  simp only [isUnitFactor, List.any_eq_true, Bool.or_eq_true, decide_eq_true_eq]
  constructor
  · rintro ⟨symbol, hsymbol, rfl | ⟨power, hpower, rfl⟩⟩
    · exact ⟨_, ⟨symbol, hsymbol, rfl⟩, [], mem_optional.2 (.inl rfl), List.append_nil _⟩
    · exact ⟨_, ⟨symbol, hsymbol, rfl⟩, _, mem_optional.2 (.inr ⟨power, hpower, rfl⟩), rfl⟩
  · rintro ⟨-, ⟨symbol, hsymbol, rfl⟩, more, hmore, rfl⟩
    rcases mem_optional.1 hmore with rfl | ⟨power, hpower, rfl⟩
    · exact ⟨symbol, hsymbol, .inl (List.append_nil _)⟩
    · exact ⟨symbol, hsymbol, .inr ⟨power, hpower, rfl⟩⟩

theorem unitFactor_spec (h : cs ∈ unitFactor) :
    cs.length ≤ maxUnitFactorLength ∧ ∀ c ∈ cs, joinsUnitFactors c = false := by
  have hsymbols : ∀ symbol ∈ unitSymbols,
      symbol.toList.length ≤ 4 ∧ symbol.toList.all (!joinsUnitFactors ·) = true := by decide
  have hpowers : ∀ power ∈ unitPowers,
      power.toList.length ≤ 2 ∧ power.toList.all (!joinsUnitFactors ·) = true := by decide
  have hspec : cs.length ≤ maxUnitFactorLength ∧ cs.all (!joinsUnitFactors ·) = true := by
    obtain ⟨-, ⟨symbol, hsymbol, rfl⟩, more, hmore, rfl⟩ := h
    obtain ⟨hlength, hchars⟩ := hsymbols symbol hsymbol
    rcases mem_optional.1 hmore with rfl | ⟨power, hpower, rfl⟩
    · simp only [List.append_nil]
      exact ⟨hlength.trans (by decide), hchars⟩
    · obtain ⟨hpowerLength, hpowerChars⟩ := hpowers power hpower
      simp only [List.length_append, List.all_append, hchars, hpowerChars]
      exact ⟨Nat.add_le_add hlength hpowerLength, rfl⟩
  exact ⟨hspec.1, by simpa using hspec.2⟩

theorem unitFactors_ne_nil (cs : List Char) : unitFactors cs ≠ [] := by
  rw [unitFactors_eq]
  exact List.splitOnP_ne_nil _ _

/-! ## Unit expressions -/

/-- What comes before the first point or slash is the first part. -/
theorem unitFactors_append (hfirst : ∀ c ∈ first, joinsUnitFactors c = false)
    (hc : joinsUnitFactors c = true) :
    unitFactors (first ++ c :: rest) = first :: unitFactors rest := by
  induction first with
  | nil => rw [List.nil_append, unitFactors, if_pos hc]
  | cons d first ih =>
    obtain ⟨hd, hfirst⟩ := List.forall_mem_cons.1 hfirst
    rw [List.cons_append, unitFactors, ih hfirst, hd]
    rfl

theorem unitFactors_single (hfirst : ∀ c ∈ first, joinsUnitFactors c = false) :
    unitFactors first = [first] := by
  induction first with
  | nil => rfl
  | cons d first ih =>
    obtain ⟨hd, hfirst⟩ := List.forall_mem_cons.1 hfirst
    rw [unitFactors, ih hfirst, hd]
    rfl

/-- Further unit factors, each behind a point or a slash. -/
def furtherFactors : Language Char := ((oneOf fun c => c = '.' ∨ c = '/') * unitFactor)∗

theorem joinsUnitFactors_iff : joinsUnitFactors c = true ↔ c = '.' ∨ c = '/' := by
  simp [joinsUnitFactors]

theorem mem_furtherFactors_iff : cs ∈ furtherFactors ↔ cs = [] ∨
    ∃ c factor more, joinsUnitFactors c = true ∧ factor ∈ unitFactor ∧ more ∈ furtherFactors ∧
      cs = c :: (factor ++ more) := by
  rw [furtherFactors, mem_kstar_iff, mul_assoc, mem_oneOf_mul]
  refine or_congr_right ⟨?_, ?_⟩
  · rintro ⟨c, -, hc, ⟨factor, hfactor, more, hmore, rfl⟩, rfl⟩
    exact ⟨c, factor, more, joinsUnitFactors_iff.2 hc, hfactor, hmore, rfl⟩
  · rintro ⟨c, factor, more, hc, hfactor, hmore, rfl⟩
    exact ⟨c, _, joinsUnitFactors_iff.1 hc, ⟨factor, hfactor, more, hmore, rfl⟩, rfl⟩

theorem forall_mem_unitFactors_of_mem (hfirst : first ∈ unitFactor)
    (hrest : rest ∈ furtherFactors) :
    ∀ factor ∈ unitFactors (first ++ rest), factor ∈ unitFactor := by
  obtain ⟨words, rfl, hwords⟩ := hrest
  induction words generalizing first with
  | nil =>
    rw [List.flatten_nil, List.append_nil, unitFactors_single (unitFactor_spec hfirst).2]
    exact List.forall_mem_singleton.2 hfirst
  | cons part words ih =>
    obtain ⟨hpart, hmore⟩ := List.forall_mem_cons.1 hwords
    obtain ⟨c, factor, hc, hfactor, rfl⟩ := mem_oneOf_mul.1 hpart
    rw [List.flatten_cons, List.cons_append, unitFactors_append (unitFactor_spec hfirst).2
      (joinsUnitFactors_iff.2 hc)]
    exact List.forall_mem_cons.2 ⟨hfirst, ih hfactor hmore⟩

theorem exists_of_unitFactors {others : List (List Char)}
    (hparts : unitFactors cs = first :: others) (hothers : ∀ factor ∈ others, factor ∈ unitFactor) :
    ∃ rest ∈ furtherFactors, cs = first ++ rest := by
  induction cs generalizing first others with
  | nil =>
    obtain ⟨rfl, rfl⟩ := List.cons.inj hparts
    exact ⟨[], mem_furtherFactors_iff.2 (.inl rfl), rfl⟩
  | cons c cs ih =>
    rw [unitFactors] at hparts
    split at hparts
    next hc =>
      obtain ⟨rfl, hbehind⟩ := List.cons.inj hparts
      cases others with
      | nil => exact absurd hbehind (unitFactors_ne_nil cs)
      | cons factor others =>
        obtain ⟨hfactor, hmore⟩ := List.forall_mem_cons.1 hothers
        obtain ⟨rest, hrest, rfl⟩ := ih hbehind hmore
        exact ⟨_, mem_furtherFactors_iff.2 (.inr ⟨c, factor, rest, hc, hfactor, hrest, rfl⟩), rfl⟩
    next hc =>
      split at hparts
      next hnil => exact absurd hnil (unitFactors_ne_nil cs)
      next factor factors hfactors =>
        obtain ⟨rfl, rfl⟩ := List.cons.inj hparts
        obtain ⟨rest, hrest, rfl⟩ := ih hfactors hothers
        exact ⟨rest, hrest, rfl⟩

theorem startsWithUnitFactor_append (hfirst : first ∈ unitFactor) (hrest : rest ∈ furtherFactors) :
    startsWithUnitFactor (first ++ rest) = true := by
  obtain ⟨hlength, hchars⟩ := unitFactor_spec hfirst
  have htake : ((first ++ rest).take (maxUnitFactorLength + 1)).takeWhile (!joinsUnitFactors ·) =
      first := by
    rw [List.take_append, List.take_of_length_le (by omega),
      List.takeWhile_append_of_pos fun c hc => by simpa using hchars c hc]
    rcases mem_furtherFactors_iff.1 hrest with rfl | ⟨c, factor, more, hc, -, -, rfl⟩
    · simp
    · rw [show maxUnitFactorLength + 1 - first.length =
        maxUnitFactorLength - first.length + 1 by omega, List.take_succ_cons, List.takeWhile_cons,
        hc]
      simp
  rw [startsWithUnitFactor, htake]
  exact isUnitFactor_iff.2 hfirst

/-- **Unit factors joined by points and slashes are recognised.** -/
theorem isUnitExpression_iff : isUnitExpression cs = true ↔ cs ∈ unitExpression := by
  rw [isUnitExpression, Bool.and_eq_true, List.all_eq_true]
  constructor
  · rintro ⟨-, hall⟩
    obtain ⟨first, others, hparts⟩ := List.exists_cons_of_ne_nil (unitFactors_ne_nil cs)
    rw [hparts] at hall
    obtain ⟨hfirst, hothers⟩ := List.forall_mem_cons.1 hall
    obtain ⟨rest, hrest, rfl⟩ := exists_of_unitFactors hparts fun factor hfactor =>
      isUnitFactor_iff.1 (hothers factor hfactor)
    exact ⟨first, isUnitFactor_iff.1 hfirst, rest, hrest, rfl⟩
  · rintro ⟨first, hfirst, rest, hrest, rfl⟩
    exact ⟨startsWithUnitFactor_append hfirst hrest, fun factor hfactor =>
      isUnitFactor_iff.2 (forall_mem_unitFactors_of_mem hfirst hrest factor hfactor)⟩

/-! ## Nodes -/

theorem isNameChar_iff : isNameChar c = true ↔ inName c := by
  simp only [isNameChar, Char.isAlphanum, Bool.or_eq_true, decide_eq_true_eq, isAlpha_iff,
    isDigit_iff, inName, or_assoc]

/-- **A `Q` with further characters of names is recognised.** -/
theorem isUnitsNodeText_iff : isUnitsNodeText cs = true ↔ cs ∈ Grammar.unitsNode := by
  rw [mem_unitsNode_iff]
  unfold isUnitsNodeText
  split
  next rest => simp [isNameChar_iff]
  next hnot =>
    refine iff_of_false Bool.false_ne_true ?_
    rintro ⟨rest, heq, -⟩
    exact hnot rest heq

/-! ## What is read as a unit -/

namespace UnitText

/-- The text of a unit. -/
def chars : UnitText → List Char
  | absent => []
  | expression text => text
  | node text => text

/-- A unit is an expression or a node, if there is one. -/
def Formed : UnitText → Prop
  | absent => True
  | expression text => text ∈ unitExpression
  | node text => text ∈ Grammar.unitsNode

/-- **What is read as a unit is its text.** -/
theorem read?_eq_some_iff {unit : UnitText} :
    UnitText.read? cs = some unit ↔ unit.Formed ∧ unit.chars = cs := by
  unfold UnitText.read?
  constructor
  · intro h
    split at h
    next hempty =>
      cases h
      exact ⟨trivial, (List.isEmpty_iff.1 hempty).symm⟩
    next =>
      split at h
      next hnode =>
        cases h
        exact ⟨isUnitsNodeText_iff.1 hnode, rfl⟩
      next =>
        split at h
        next hexpression =>
          cases h
          exact ⟨isUnitExpression_iff.1 hexpression, rfl⟩
        next => cases h
  · rintro ⟨hformed, rfl⟩
    cases unit with
    | absent => rfl
    | node text =>
      have hnode : isUnitsNodeText text = true := isUnitsNodeText_iff.2 hformed
      obtain ⟨rest, rfl, -⟩ := mem_unitsNode_iff.1 hformed
      rw [chars, if_neg (by simp), if_pos hnode]
    | expression text =>
      have hexpression : isUnitExpression text = true := isUnitExpression_iff.2 hformed
      cases text with
      | nil => exact absurd hexpression (by decide)
      | cons c rest =>
        -- A unit symbol does not start with the letter of nodes.
        have hnode : ¬ isUnitsNodeText (c :: rest) = true := by
          intro hnode
          obtain ⟨_, heq, -⟩ := mem_unitsNode_iff.1 (isUnitsNodeText_iff.1 hnode)
          exact (startsUnit_spec (startsUnit_of_isUnitExpression hexpression)).2.2
            (List.cons.inj heq).1
        rw [chars, if_neg (by simp), if_neg hnode, if_pos hexpression]

end UnitText

end Quantity

end FactGraph
