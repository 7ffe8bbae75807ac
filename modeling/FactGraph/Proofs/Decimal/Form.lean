import FactGraph.Proofs.Decimal.Digits
import FactGraph.Proofs.Decimal.Reading

/-!
# Written decimals

A number is written with digits before a point, and optionally a point with digits behind it and an
exponent (`Written`). Zeros are filled in where the point lies outside the digits of a decimal
(`NumberForm.placed`), so the digits that are written may be others than its own; the rank is the
same (`NumberForm.rank_placed`). The main results say so for numbers in literals
(`literal_decimalText`) and in columns (`column_decimalText`).
-/

namespace FactGraph

open Binary64

/-- How a number is written: digits, digits behind a point, and an exponent. -/
structure Written where
  whole : List Nat
  fraction : Option (List Nat)
  exp : Option Int

namespace Written

/-- The exponent with its mark. -/
def exponentChars (e : Int) : List Char :=
  'e' :: (if e < 0 then ['-'] else []) ++ digitText (decimalDigits e.natAbs)

def text (w : Written) : List Char :=
  digitText w.whole ++ ((w.fraction.map fun ds => '.' :: digitText ds).getD []) ++
    (w.exp.map exponentChars).getD []

/-- The digits on both sides of the point. -/
def digits (w : Written) : List Nat := w.whole ++ w.fraction.getD []

/-- The rank of the number that is written. -/
def rank (w : Written) : Nat :=
  decimalRank (valueOfDigits 10 w.digits) (w.exp.getD 0 - (w.fraction.getD []).length)

/-- The digits are digits, and the first stands before the point. -/
structure Valid (w : Written) : Prop where
  whole : AreDigits w.whole
  fraction : AreDigits (w.fraction.getD [])
  some : w.whole ≠ []

end Written

namespace NumberForm

variable {form : NumberForm} {ds : List Nat}

/-! ## Positional texts -/

/-- The digits with the point after the first `before` of them. Zeros are filled in where it lies
outside of them. -/
def placed (form : NumberForm) (ds : List Nat) (before : Int) : Written :=
  if before ≤ 0 then ⟨[0], some (.replicate (-before).toNat 0 ++ ds), none⟩
  else if before < ds.length then ⟨ds.take before.toNat, some (ds.drop before.toNat), none⟩
  else
    ⟨ds ++ .replicate (before.toNat - ds.length) 0, if form.pointZero then some [0] else none, none⟩

theorem exp_placed (form : NumberForm) (ds : List Nat) (before : Int) :
    (form.placed ds before).exp = none := by
  unfold placed
  split
  · rfl
  · split <;> rfl

theorem isSome_fraction_placed (hpoint : form.pointZero = true) (ds : List Nat) (before : Int) :
    (form.placed ds before).fraction.isSome = true := by
  unfold placed
  split
  · rfl
  · split <;> rfl

/-- Without a point the digits stand first, and zeros behind them. -/
theorem exists_whole_placed {before : Int} (hnone : (form.placed ds before).fraction = none) :
    ∃ n, (form.placed ds before).whole = ds ++ .replicate n 0 := by
  unfold placed at hnone ⊢
  split at hnone
  · cases hnone
  · split at hnone
    · cases hnone
    next hpos hbehind => exact ⟨before.toNat - ds.length, by rw [if_neg hpos, if_neg hbehind]⟩

theorem text_placed (form : NumberForm) (ds : List Nat) (before : Int) :
    (form.placed ds before).text = form.positionalText (digitText ds) before := by
  unfold placed positionalText
  rw [length_digitText]
  split
  · simp [Written.text, digitText_replicate_zero]
  · split
    · simp [Written.text, digitText, List.map_take, List.map_drop]
    · cases hpoint : form.pointZero <;> simp [Written.text, digitText_replicate_zero]

theorem valid_placed (form : NumberForm) (hds : AreDigits ds) (hne : ds ≠ []) (before : Int) :
    (form.placed ds before).Valid := by
  have hlength : 0 < ds.length := List.length_pos_iff.2 hne
  unfold placed
  split
  · exact ⟨by simp [AreDigits], (areDigits_replicate_zero _).append hds, by simp⟩
  · split
    · refine ⟨fun d hd => hds d (List.mem_of_mem_take hd),
        fun d hd => hds d (List.mem_of_mem_drop hd), ?_⟩
      rw [← List.length_pos_iff, List.length_take]
      omega
    · refine ⟨hds.append (areDigits_replicate_zero _), ?_, by simp [hne]⟩
      cases form.pointZero <;> simp [AreDigits]

theorem decimalRank_append_zeros (ds : List Nat) (n : Nat) (exp : Int) :
    decimalRank (valueOfDigits 10 (ds ++ .replicate n 0)) (exp - n) =
      decimalRank (valueOfDigits 10 ds) exp := by
  rw [valueOfDigits_append, valueOfDigits_replicate_zero, List.length_replicate, Nat.add_zero,
    decimalRank_mul_pow]

/-- **The digits with the point at its place have the rank that this says**, whichever zeros are
filled in. -/
theorem rank_placed (form : NumberForm) (ds : List Nat) (before : Int) :
    (form.placed ds before).rank = decimalRank (valueOfDigits 10 ds) (before - ds.length) := by
  unfold placed Written.rank Written.digits
  -- The point before, inside or behind the digits; zeros in front do not count.
  split
  next hsmall =>
    have hvalue : valueOfDigits 10 ([0] ++ (.replicate (-before).toNat 0 ++ ds)) =
        valueOfDigits 10 ds := by
      rw [← List.append_assoc, valueOfDigits_append, valueOfDigits_append,
        valueOfDigits_replicate_zero]
      simp [valueOfDigits]
    have hexp : (0 : Int) - (List.replicate (-before).toNat 0 ++ ds).length =
        before - ds.length := by
      rw [List.length_append, List.length_replicate]
      omega
    rw [Option.getD_some, Option.getD_none, hvalue, hexp]
  next hpos =>
    split
    next hinside =>
      have hexp : (0 : Int) - (ds.drop before.toNat).length = before - ds.length := by
        rw [List.length_drop]
        omega
      rw [Option.getD_some, Option.getD_none, List.take_append_drop, hexp]
    next hbehind =>
      -- With a zero behind the point there is one place more, and the exponent is one less.
      obtain ⟨fill, hfill⟩ : ∃ fill : Nat, before - ds.length = fill :=
        ⟨(before - ds.length).toNat, by omega⟩
      rw [show before.toNat - ds.length = fill by omega, hfill]
      cases form.pointZero with
      | true =>
        have hzeros : ds ++ .replicate fill 0 ++ [0] = ds ++ .replicate (fill + 1) 0 := by
          rw [List.append_assoc, List.replicate_succ']
        have hexp : (0 : Int) - ([0] : List Nat).length = fill - (fill + 1 : Nat) := by
          rw [List.length_singleton]
          omega
        rw [if_pos rfl, Option.getD_some, Option.getD_none, hzeros, hexp, decimalRank_append_zeros]
      | false =>
        have hexp : (0 : Int) - ([] : List Nat).length = fill - fill := by simp
        rw [if_neg Bool.false_ne_true, Option.getD_none, Option.getD_none, List.append_nil, hexp,
          decimalRank_append_zeros]

/-! ## Texts with an exponent -/

theorem exponentText_eq (hplus : form.plus = false) (hwidth : form.exponentWidth = 1) (e : Int) :
    form.exponentText e = Written.exponentChars e := by
  have hlength : 0 < (digitText (decimalDigits e.natAbs)).length := by
    rw [length_digitText]
    exact List.length_pos_iff.2 (decimalDigits_ne_nil _)
  have hfill : zeros (1 - (digitText (decimalDigits e.natAbs)).length) = [] := by
    rw [Nat.sub_eq_zero_of_le hlength]
    rfl
  unfold exponentText digitsOf
  rw [toDigits_eq_digitText, hplus, hwidth]
  simp only [hfill]
  simp [Written.exponentChars]

/-- **A text with an exponent has the rank of its digits, the first of them before the point.** -/
theorem exists_scientificText (form : NumberForm) (hplus : form.plus = false)
    (hwidth : form.exponentWidth = 1) (hzero : form.scientificPointZero = false)
    (hds : AreDigits ds) (hne : ds ≠ []) (e : Int) :
    ∃ w : Written, w.Valid ∧ w.exp = some e ∧ form.scientificText (digitText ds) e = w.text ∧
      w.rank = decimalRank (valueOfDigits 10 ds) (e + 1 - ds.length) := by
  match ds with
  | [d] =>
    refine ⟨⟨[d], none, some e⟩, ⟨hds, by simp [AreDigits], hne⟩, rfl, ?_, ?_⟩
    · simp [scientificText, Written.text, exponentText_eq hplus hwidth, hzero]
    · simp [Written.rank, Written.digits]
  | d :: d' :: ds =>
    refine ⟨⟨[d], some (d' :: ds), some e⟩, ⟨by simpa [AreDigits] using hds d, ?_, by simp⟩, rfl,
      ?_, ?_⟩
    · exact fun x hx => hds x (List.mem_cons_of_mem d hx)
    · simp [scientificText, Written.text, exponentText_eq hplus hwidth]
    · have hexp : e - (d' :: ds).length = e + 1 - (d :: d' :: ds).length := by
        rw [List.length_cons (a := d)]
        omega
      rw [← hexp]
      rfl

/-! ## Decimals -/

theorem exp_add_length (d : Decimal) :
    d.exp + (digitText (decimalDigits d.digits)).length - 1 + 1 - (decimalDigits d.digits).length =
      d.exp := by
  rw [length_digitText]
  omega

/-- **A decimal in a literal is written with a point or an exponent, and has its rank.** -/
theorem literal_decimalText (d : Decimal) :
    ∃ w : Written, w.Valid ∧ (w.fraction.isSome = true ∨ w.exp.isSome = true) ∧
      literal.decimalText d = w.text ∧ w.rank = decimalRank d.digits d.exp := by
  have hds := areDigits_decimalDigits d.digits
  have hne := decimalDigits_ne_nil d.digits
  have hvalue := valueOfDigits_decimalDigits d.digits
  unfold decimalText digitsOf
  rw [toDigits_eq_digitText]
  simp only [show literal.positional = some (-4, 16) from rfl]
  split
  · exact ⟨_, valid_placed literal hds hne _, .inl (isSome_fraction_placed rfl _ _),
      (text_placed ..).symm, by rw [rank_placed, hvalue, exp_add_length]⟩
  · obtain ⟨w, hvalid, hexp, htext, hrank⟩ := exists_scientificText literal rfl rfl rfl
      hds hne (d.exp + (digitText (decimalDigits d.digits)).length - 1)
    exact ⟨w, hvalid, .inr (by rw [hexp]; rfl), htext, by rw [hrank, hvalue, exp_add_length]⟩

/-- How a decimal in a column is written. -/
def columnWritten (d : Decimal) : Written :=
  column.placed (decimalDigits d.digits)
    (d.exp + (digitText (decimalDigits d.digits)).length - 1 + 1)

theorem text_columnWritten (d : Decimal) : (columnWritten d).text = column.decimalText d := by
  unfold decimalText digitsOf
  rw [toDigits_eq_digitText]
  exact text_placed ..

theorem rank_columnWritten (d : Decimal) :
    (columnWritten d).rank = decimalRank d.digits d.exp := by
  rw [columnWritten, rank_placed, valueOfDigits_decimalDigits, exp_add_length]

theorem valid_columnWritten (d : Decimal) : (columnWritten d).Valid :=
  valid_placed column (areDigits_decimalDigits _) (decimalDigits_ne_nil _) _

/-- **A decimal in a column is written without exponent, and has its rank.** -/
theorem column_decimalText (d : Decimal) :
    ∃ w : Written, w.Valid ∧ w.exp = none ∧ column.decimalText d = w.text ∧
      w.rank = decimalRank d.digits d.exp :=
  ⟨_, valid_columnWritten d, exp_placed .., (text_columnWritten d).symm, rank_columnWritten d⟩

end NumberForm

end FactGraph
