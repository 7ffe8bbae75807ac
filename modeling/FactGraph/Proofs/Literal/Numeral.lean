import FactGraph.Proofs.Decimal.Form

/-!
# Numbers read back

What is written for a number is a numeral, and its value is the number: a 64-bit integer is a
numeral of digits, a finite double one with a point or an exponent (`Number.read_render`). Written
numbers are made of few characters (`IsPlain`), none of which announces a base.
-/

namespace FactGraph

/-! ## Lists in two parts -/

theorem span_append {α : Type} {p : α → Bool} {front back : List α}
    (hfront : ∀ c ∈ front, p c = true) (hback : ∀ c, back.head? = some c → p c = false) :
    (front ++ back).span p = (front, back) := by
  rw [List.span_eq_takeWhile_dropWhile, List.takeWhile_append_of_pos hfront,
    List.dropWhile_append_of_pos hfront]
  cases back with
  | nil => simp
  | cons c rest => simp [hback c rfl]

/-- The characters of written numbers. -/
def IsPlain (c : Char) : Prop := c.isDigit = true ∨ c = '.' ∨ c = 'e' ∨ c = '-'

instance (c : Char) : Decidable (IsPlain c) := by unfold IsPlain; infer_instance

theorem IsPlain.ne {c d : Char} (h : IsPlain c) (hd : ¬ IsPlain d) : c ≠ d := by
  rintro rfl
  exact hd h

theorem isPlain_of_mem_digitText {ds : List Nat} (hds : AreDigits ds) :
    ∀ c ∈ digitText ds, IsPlain c :=
  fun _ hc => .inl (isDigit_of_mem_digitText hds hc)

/-! ## Signs -/

theorem splitSign_digitText {ds : List Nat} (hds : AreDigits ds) (hne : ds ≠ [])
    (rest : List Char) : splitSign (digitText ds ++ rest) = (false, digitText ds ++ rest) := by
  cases ds with
  | nil => exact absurd rfl hne
  | cons d ds =>
    obtain ⟨-, -, -, -, hminus, hplus, -⟩ := digitChar_spec (hds d (List.mem_cons_self ..))
    rw [digitText_cons, List.cons_append]
    unfold splitSign
    split
    next hc => exact absurd (List.cons.inj hc).1 hminus
    next hc => exact absurd (List.cons.inj hc).1 hplus
    next => rfl

/-- The sign of a written number. -/
def signText (negative : Bool) : List Char := if negative then ['-'] else []

theorem isPlain_of_mem_signText (negative : Bool) : ∀ c ∈ signText negative, IsPlain c := by
  intro c hc
  cases negative with
  | true => exact .inr (.inr (.inr (List.mem_singleton.1 hc)))
  | false => cases hc

theorem splitSign_signed {ds : List Nat} (hds : AreDigits ds) (hne : ds ≠ []) (negative : Bool)
    (rest : List Char) :
    splitSign (signText negative ++ (digitText ds ++ rest)) = (negative, digitText ds ++ rest) := by
  cases negative with
  | true => rfl
  | false => exact splitSign_digitText hds hne rest

/-! ## Written numbers -/

namespace Written

open Magnitude

variable {w : Written}

theorem exponent?_chars (e : Int) :
    exponent? ((if e < 0 then ['-'] else []) ++ digitText (decimalDigits e.natAbs)) = some e := by
  have hds := areDigits_decimalDigits e.natAbs
  have hne := decimalDigits_ne_nil e.natAbs
  have hsign := splitSign_signed hds hne (e < 0) []
  simp only [signText, List.append_nil, decide_eq_true_eq] at hsign
  unfold exponent?
  rw [hsign]
  simp only [digits?_digitText hds hne, Option.bind_eq_bind, Option.bind_some,
    valueOfDigits_decimalDigits, decide_eq_true_eq]
  split <;> congr 1 <;> omega

theorem digitText_ne_exponentMark {ds : List Nat} (hds : AreDigits ds) :
    ∀ c ∈ digitText ds, isExponentMark c = false := by
  intro c hc
  obtain ⟨d, hd, rfl⟩ := List.mem_map.1 hc
  exact (digitChar_spec (hds d hd)).2.2.2.2.2.2.1

theorem digitText_ne_point {ds : List Nat} (hds : AreDigits ds) :
    ∀ c ∈ digitText ds, decide (c ≠ '.') = true := by
  intro c hc
  obtain ⟨d, hd, rfl⟩ := List.mem_map.1 hc
  exact decide_eq_true (digitChar_spec (hds d hd)).2.2.2.1

/-- The part before the exponent. -/
def mantissa (w : Written) : List Char :=
  digitText w.whole ++ (w.fraction.map fun ds => '.' :: digitText ds).getD []

theorem Valid.digits (h : w.Valid) : AreDigits w.digits := h.whole.append h.fraction

theorem mem_mantissa {c : Char} (hc : c ∈ w.mantissa) : c = '.' ∨ c ∈ digitText w.digits := by
  rw [digits, digitText_append, List.mem_append]
  rcases List.mem_append.1 hc with hwhole | hbehind
  · exact .inr (.inl hwhole)
  · cases hfraction : w.fraction with
    | none =>
      rw [hfraction] at hbehind
      cases hbehind
    | some ds =>
      rw [hfraction] at hbehind
      rcases List.mem_cons.1 hbehind with hpoint | hdigit
      · exact .inl hpoint
      · exact .inr (.inr hdigit)

theorem eq_point_of_head? {c : Char}
    (hc : ((w.fraction.map fun ds => '.' :: digitText ds).getD []).head? = some c) : c = '.' := by
  cases hfraction : w.fraction with
  | none =>
    rw [hfraction] at hc
    cases hc
  | some ds =>
    rw [hfraction] at hc
    cases hc
    rfl

theorem span_text (h : w.Valid) :
    w.text.span (fun c => !isExponentMark c) =
      (w.mantissa, (w.exp.map exponentChars).getD []) := by
  refine span_append (fun c hc => ?_) fun c hc => ?_
  · rw [Bool.not_eq_true']
    rcases mem_mantissa hc with rfl | hdigit
    · rfl
    · exact digitText_ne_exponentMark h.digits c hdigit
  · cases hexp : w.exp with
    | none =>
      rw [hexp] at hc
      cases hc
    | some e =>
      rw [hexp] at hc
      cases hc
      rfl

theorem span_mantissa (h : w.Valid) :
    w.mantissa.span (· ≠ '.') =
      (digitText w.whole, (w.fraction.map fun ds => '.' :: digitText ds).getD []) := by
  refine span_append (digitText_ne_point h.whole) ?_
  intro c hc
  rw [eq_point_of_head? hc]
  rfl

/-- **A number written with a point or an exponent is read as it is written.** -/
theorem readDecimal?_text (h : w.Valid) (hmark : w.fraction.isSome = true ∨ w.exp.isSome = true) :
    readDecimal? w.text = some (.decimal w.whole (w.fraction.getD []) (w.exp.getD 0)) := by
  have hwhole := digits?_digitText h.whole h.some
  have hnotEmpty : (digitText w.whole).isEmpty = false := by
    cases hw : w.whole with
    | nil => exact absurd hw h.some
    | cons => rfl
  unfold readDecimal?
  rw [span_text h]
  simp only [span_mantissa h]
  cases hfraction : w.fraction with
  | none =>
    cases hexp : w.exp with
    | none => simp [hfraction, hexp] at hmark
    | some e =>
      have hscale := exponent?_chars e
      simp only [Option.map_none, Option.getD_none, Option.map_some, Option.getD_some,
        exponentChars, List.cons_append, hwhole, hscale]
      rfl
  | some ds =>
    have hds : AreDigits ds := by simpa [hfraction] using h.fraction
    have hfractionRead := optionalDigits?_digitText hds
    have hwholeRead := optionalDigits?_digitText h.whole
    cases hexp : w.exp with
    | none =>
      simp [hnotEmpty, hfractionRead, hwholeRead]
    | some e =>
      have hscale := exponent?_chars e
      simp only [Option.map_some, Option.getD_some, exponentChars, List.cons_append, hnotEmpty,
        List.isEmpty_cons, List.tail_cons, hscale, hwholeRead, hfractionRead]
      rfl

/-- The number of these digits alone. -/
def ofDigits (ds : List Nat) : Written := ⟨ds, none, none⟩

theorem text_ofDigits (ds : List Nat) : (ofDigits ds).text = digitText ds := by
  simp [ofDigits, text]

theorem valid_ofDigits {ds : List Nat} (hds : AreDigits ds) (hne : ds ≠ []) :
    (ofDigits ds).Valid :=
  ⟨hds, by simp [ofDigits, AreDigits], hne⟩

/-- **A number written with digits alone is read as they are**, unless there is a leading zero. -/
theorem readDecimal?_ofDigits {ds : List Nat} (hds : AreDigits ds) (hne : ds ≠ [])
    (hhead : ds.head? = some 0 → ∀ d ∈ ds, d = 0) :
    readDecimal? (ofDigits ds).text = some (.whole ds) := by
  have hvalid := valid_ofDigits hds hne
  unfold readDecimal?
  rw [span_text hvalid]
  simp only [span_mantissa hvalid]
  simpa [ofDigits, digits?_digitText hds hne] using hhead

theorem isPlain_text (h : w.Valid) : ∀ c ∈ w.text, IsPlain c := by
  intro c hc
  rcases List.mem_append.1 hc with hc | hc
  · rcases mem_mantissa hc with hpoint | hdigit
    · exact .inr (.inl hpoint)
    · exact isPlain_of_mem_digitText h.digits c hdigit
  · cases hexp : w.exp with
    | none =>
      rw [hexp] at hc
      cases hc
    | some e =>
      rw [hexp] at hc
      rcases List.mem_append.1 hc with hc | hc
      · rcases List.mem_cons.1 hc with rfl | hc
        · exact .inr (.inr (.inl rfl))
        · split at hc
          · exact .inr (.inr (.inr (List.mem_singleton.1 hc)))
          · cases hc
      · exact isPlain_of_mem_digitText (areDigits_decimalDigits _) c hc

end Written

/-! ## Numerals of written numbers -/

theorem ofMark?_of_isPlain {c : Char} (h : IsPlain c) : Base.ofMark? c = none := by
  rw [Base.ofMark?, if_neg (not_or.2 ⟨h.ne (by decide), h.ne (by decide)⟩),
    if_neg (not_or.2 ⟨h.ne (by decide), h.ne (by decide)⟩),
    if_neg (not_or.2 ⟨h.ne (by decide), h.ne (by decide)⟩)]

theorem Magnitude.read?_of_isPlain {cs : List Char} (h : ∀ c ∈ cs, IsPlain c) :
    Magnitude.read? cs = readDecimal? cs := by
  unfold Magnitude.read?
  split
  next mark rest =>
    have hmark : Base.ofMark? mark = none := ofMark?_of_isPlain (h mark (by simp))
    rw [hmark]
  next => rfl

theorem Written.splitSign_text {w : Written} (h : w.Valid) (negative : Bool) (rest : List Char) :
    splitSign (signText negative ++ (w.text ++ rest)) = (negative, w.text ++ rest) := by
  rw [text, List.append_assoc, List.append_assoc]
  exact splitSign_signed h.whole h.some negative _

theorem Written.read?_signed {w : Written} (h : w.Valid) {m : Magnitude}
    (hread : Magnitude.readDecimal? w.text = some m) (negative : Bool) :
    Numeral.read? (signText negative ++ w.text) =
      some ⟨signText negative ++ w.text, negative, m⟩ := by
  have hsign := splitSign_text h negative []
  rw [List.append_nil] at hsign
  unfold Numeral.read?
  rw [hsign]
  simp only [Magnitude.read?_of_isPlain (isPlain_text h), hread, Option.map_some]

theorem toList_toString (z : Int) :
    (toString z).toList = signText (z < 0) ++ digitText (decimalDigits z.natAbs) := by
  rw [← toDigits_eq_digitText]
  cases z with
  | ofNat n => exact Nat.toList_repr
  | negSucc n =>
    show ("-" ++ (n + 1).repr).toList = _
    rw [String.toList_append, Nat.toList_repr, decide_eq_true (Int.negSucc_lt_zero n)]
    rfl

/-- The text is that of a number with its sign. -/
def IsWritten (cs : List Char) : Prop :=
  ∃ negative, ∃ w : Written, w.Valid ∧ cs = signText negative ++ w.text

theorem isWritten_toString (z : Int) : IsWritten (toString z).toList :=
  ⟨z < 0, .ofDigits (decimalDigits z.natAbs),
    Written.valid_ofDigits (areDigits_decimalDigits _) (decimalDigits_ne_nil _),
    by rw [toList_toString, Written.text_ofDigits]⟩

theorem IsWritten.isPlain {cs : List Char} (h : IsWritten cs) : ∀ c ∈ cs, IsPlain c := by
  obtain ⟨negative, w, hvalid, rfl⟩ := h
  intro c hc
  exact (List.mem_append.1 hc).elim (isPlain_of_mem_signText negative c)
    (Written.isPlain_text hvalid c)

theorem IsWritten.exists_cons {cs : List Char} (h : IsWritten cs) :
    ∃ c rest, cs = c :: rest ∧ (c.isDigit = true ∨ c = '-') := by
  obtain ⟨negative, w, hvalid, rfl⟩ := h
  cases negative with
  | true => exact ⟨'-', w.text, rfl, .inr rfl⟩
  | false =>
    obtain ⟨d, ds, hwhole⟩ := List.exists_cons_of_ne_nil hvalid.some
    refine ⟨d.digitChar, _, by rw [Written.text, hwhole]; rfl, .inl ?_⟩
    exact (digitChar_spec (hvalid.whole d (by simp [hwhole]))).2.1

namespace Number

theorem read_toString (z : Int) :
    ∃ n, Numeral.read? (toString z).toList = some n ∧ ofNumeral n = .ok (ofInt z) := by
  have hds := areDigits_decimalDigits z.natAbs
  have hne := decimalDigits_ne_nil z.natAbs
  -- Zero is the only number that is written with a zero in front.
  have hhead : (decimalDigits z.natAbs).head? = some 0 → ∀ d ∈ decimalDigits z.natAbs, d = 0 := by
    intro hzero
    by_cases hz : z.natAbs = 0
    · rw [hz]
      simp [decimalDigits]
    · exact absurd hzero (head?_decimalDigits hz)
  have hread := Written.readDecimal?_ofDigits hds hne hhead
  rw [toList_toString, ← Written.text_ofDigits]
  refine ⟨_, Written.read?_signed (Written.valid_ofDigits hds hne) hread _, ?_⟩
  have hsigned : signed (decide (z < 0)) z.natAbs = z := by
    unfold signed
    split
    next hz =>
      have := of_decide_eq_true hz
      omega
    next hz =>
      have := of_decide_eq_false (Bool.not_eq_true _ ▸ hz)
      omega
  simp only [ofNumeral, valueOfDigits_decimalDigits, hsigned]

theorem exists_written_literal {negative : Bool} {rank : Nat} {le : rank ≤ infinityRank}
    (hrank : rank < infinityRank) :
    ∃ w : Written, w.Valid ∧ (w.fraction.isSome = true ∨ w.exp.isSome = true) ∧
      NumberForm.literal.render (.ranked negative rank le) = signText negative ++ w.text ∧
      w.rank = rank := by
  obtain ⟨w, hvalid, hmark, htext, hvalue⟩ :=
    NumberForm.literal_decimalText (Decimal.shortest .up rank)
  refine ⟨w, hvalid, hmark, ?_, by rw [hvalue, Decimal.decimalRank_shortest .up hrank]⟩
  rw [← htext, NumberForm.render, if_neg hrank.ne]
  rfl

/-- **A finite double is read back** from its text in a literal. -/
theorem read_literal {x : Binary64} (hx : x.isFinite = true) :
    IsWritten (NumberForm.literal.render x) ∧
      ∃ n, Numeral.read? (NumberForm.literal.render x) = some n ∧ ofNumeral n = .ok (.float x) := by
  cases x with
  | nan => cases hx
  | ranked negative rank le =>
    obtain ⟨w, hvalid, hmark, hrender, hrank⟩ :=
      exists_written_literal (of_decide_eq_true hx)
    rw [hrender]
    refine ⟨⟨negative, w, hvalid, rfl⟩, _,
      Written.read?_signed hvalid (Written.readDecimal?_text hvalid hmark) negative, ?_⟩
    have hof : Binary64.ofDecimal negative (valueOfDigits 10 (w.whole ++ w.fraction.getD []))
        (w.exp.getD 0 - (w.fraction.getD []).length) = .ranked negative rank le := by
      show Binary64.ofRank negative w.rank = _
      simp [Binary64.ofRank, hrank, le]
    simp only [ofNumeral, hof, hx, if_true]

/-- A double among the numbers is finite. -/
def isFinite : Number → Bool
  | .int _ => true
  | .float x => x.isFinite

theorem ofInt_toInt (v : Int64) : ofInt v.toInt = .int v := by
  have hfits : FitsInt64 v.toInt := ⟨v.le_toInt, v.toInt_lt⟩
  rw [ofInt, if_pos hfits, Int64.ofInt_toInt]

/-- **A finite number is read back.** -/
theorem read_render {number : Number} (h : number.isFinite = true) :
    IsWritten number.render ∧
      ∃ n, Numeral.read? number.render = some n ∧ ofNumeral n = .ok number := by
  cases number with
  | int v =>
    obtain ⟨n, hread, hvalue⟩ := read_toString v.toInt
    exact ⟨isWritten_toString _, n, hread, by rw [hvalue, ofInt_toInt]⟩
  | float x => exact read_literal h

end Number

end FactGraph
