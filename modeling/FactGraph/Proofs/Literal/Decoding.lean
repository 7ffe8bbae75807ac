import FactGraph.Proofs.Literal.Overflow
import FactGraph.Proofs.Literal.RoundTrip
import FactGraph.Proofs.Outcome

/-!
# What is read

**Theorem (`decode_wellFormed_iff`).** A literal that is read is of the kind that the first
character announces and has the form of that kind. It is well-formed, and read back from its written
form, exactly if no numeral of the text overflows. Overflowing numerals with a point, an exponent or
a base mark are refused as out of range; an overflowing integer of base ten is not, and gives an
infinite quantity, which is read back as something else or not at all.
-/

namespace FactGraph

namespace Literal

/-! ## Kinds and forms -/

/-- The text is read as this literal by the reader of its kind. -/
def IsReadFrom (s : String) : Literal → Prop
  | text t => Quoted.read s = .ok t
  | tagged t => TaggedText.read s = .ok t
  | quantity q => Quantity.read s = .ok q
  | coordinate c => Coordinate.read s = .ok c
  | pointInTime t => PointInTime.read s = .ok t
  | symbol t => t = s

/-- **The first character decides** which reader is asked. -/
theorem decode_cases {s : String} {v : Literal} (h : decode s = .ok v) :
    ∃ c, s.toList.head? = some c ∧ announces c v = true ∧ v.IsReadFrom s := by
  cases hhead : s.toList.head? with
  | none =>
    rw [decode, hhead] at h
    cases h
  | some c =>
    refine ⟨c, rfl, ?_⟩
    by_cases hdouble : c = '"'
    · subst hdouble
      rw [decode_text hhead] at h
      obtain ⟨t, hread, rfl⟩ := exists_of_map_eq_ok h
      exact ⟨rfl, hread⟩
    by_cases hsingle : c = '\''
    · subst hsingle
      rw [decode_tagged hhead] at h
      obtain ⟨t, hread, rfl⟩ := exists_of_map_eq_ok h
      exact ⟨rfl, hread⟩
    by_cases hquantity : startsQuantity c = true
    · rw [decode_quantity hhead hquantity] at h
      obtain ⟨q, hread, rfl⟩ := exists_of_map_eq_ok h
      exact ⟨hquantity, hread⟩
    by_cases hat : c = '@'
    · subst hat
      rw [decode_coordinate hhead] at h
      obtain ⟨d, hread, rfl⟩ := exists_of_map_eq_ok h
      exact ⟨rfl, hread⟩
    by_cases hcaret : c = '^'
    · subst hcaret
      rw [decode_pointInTime hhead] at h
      obtain ⟨t, hread, rfl⟩ := exists_of_map_eq_ok h
      exact ⟨rfl, hread⟩
    have hsigil : isSigil c = false := by
      simp [isSigil, hdouble, hsingle, hquantity, hat, hcaret]
    rw [decode_symbol hhead hsigil] at h
    cases h
    exact ⟨by simp [announces, hsigil], rfl⟩

/-- The literal has the form of its kind; a quantity may be infinite. -/
def Formed : Literal → Prop
  | quantity q => q.Formed
  | v => v.WellFormed

/-- The numbers in the literal are finite. -/
def isFinite : Literal → Bool
  | quantity q => q.isFinite
  | _ => true

theorem Formed.wellFormed_iff {v : Literal} (h : v.Formed) : v.WellFormed ↔ v.isFinite = true := by
  cases v with
  | quantity q => exact Quantity.Formed.wellFormed_iff h
  | _ => exact iff_of_true h rfl

/-! ## Numerals -/

/-- The numerals in the text of a quantity. -/
def numerals (s : String) : List Numeral :=
  if s.toList.head?.any startsQuantity then
    match Quantity.split? s.toList with
    | some split => split.numerals
    | none => []
  else []

theorem numerals_quantity {s : String} {c : Char} (hhead : s.toList.head? = some c)
    (hc : startsQuantity c = true) {split : Quantity.Split}
    (hsplit : Quantity.split? s.toList = some split) : numerals s = split.numerals := by
  rw [numerals, hhead, hsplit]
  simp only [Option.any_some, hc, if_true]

theorem numerals_other {s : String} {c : Char} (hhead : s.toList.head? = some c)
    (hc : startsQuantity c = false) : numerals s = [] := by
  rw [numerals, hhead]
  simp only [Option.any_some, hc, Bool.false_eq_true, if_false]

theorem exists_split_of_read {s : String} {q : Quantity} (h : Quantity.read s = .ok q) :
    ∃ split, Quantity.split? s.toList = some split ∧ q.IsValueOf split ∧ q.Formed := by
  unfold Quantity.read at h
  split at h
  next split hsplit =>
    have hvalue := Quantity.isValueOf_of_ofSplit h
    exact ⟨split, hsplit, hvalue, hvalue.formed (Quantity.Split.hasUnit_of_splitFrom? hsplit)⟩
  next => cases h

theorem startsQuantity_of_announces {c : Char} {v : Literal} (h : announces c v = true) :
    startsQuantity c = true ↔ ∃ q, v = quantity q := by
  cases v with
  | quantity q => exact iff_of_true h ⟨q, rfl⟩
  | symbol s =>
    have hc := (not_isSigil (by simpa [announces] using h)).2.2.1
    simp [hc]
  | _ =>
    have hc := of_decide_eq_true h
    subst hc
    simp [startsQuantity]

/-- **A literal that is read has the form of its kind**, and is finite exactly if no numeral
overflows; only integers of base ten can. -/
theorem formed_of_decode {s : String} {v : Literal} (h : decode s = .ok v) :
    v.Formed ∧ (v.isFinite = true ↔ ∀ n ∈ numerals s, ¬ n.Overflows) ∧
      ∀ n ∈ numerals s, n.Overflows → n.isWhole = true := by
  obtain ⟨c, hhead, hannounces, hread⟩ := decode_cases h
  have hother (hnot : ∀ q, v ≠ quantity q) : numerals s = [] := by
    refine numerals_other hhead (Bool.eq_false_iff.2 ?_)
    intro hc
    obtain ⟨q, hq⟩ := (startsQuantity_of_announces hannounces).1 hc
    exact hnot q hq
  cases v with
  | quantity q =>
    obtain ⟨split, hsplit, hvalue, hformed⟩ := exists_split_of_read hread
    rw [numerals_quantity hhead hannounces hsplit]
    exact ⟨hformed, hvalue.isFinite_iff⟩
  | text t =>
    rw [hother (by simp)]
    exact ⟨True.intro, by simp [isFinite], by simp⟩
  | tagged t =>
    rw [hother (by simp)]
    exact ⟨TaggedText.wellFormed_of_read hread, by simp [isFinite], by simp⟩
  | coordinate d =>
    rw [hother (by simp)]
    exact ⟨Coordinate.wellFormed_of_read hread, by simp [isFinite], by simp⟩
  | pointInTime t =>
    rw [hother (by simp)]
    exact ⟨PointInTime.wellFormed_of_read hread, by simp [isFinite], by simp⟩
  | symbol t =>
    have hc : isSigil c = false := by simpa [announces] using hannounces
    cases hread
    rw [hother (by simp)]
    exact ⟨⟨c, hhead, hc⟩, by simp [isFinite], by simp⟩

theorem kind_of_decode {s : String} {n : Numeral} (hn : n ∈ numerals s) {e : LiteralError}
    (h : decode s = .error e) : e.kind = .outOfRange := by
  unfold numerals at hn
  split at hn
  next hstarts =>
    split at hn
    next split hsplit =>
      obtain ⟨c, hhead, hc⟩ := (Option.any_eq_true _ _).1 hstarts
      rw [decode_quantity hhead hc, Quantity.read, hsplit] at h
      simp only at h
      cases hvalue : Quantity.ofSplit split with
      | ok q =>
        rw [hvalue] at h
        cases h
      | error e' =>
        rw [hvalue] at h
        cases h
        exact Quantity.kind_of_ofSplit hvalue
    next => cases hn
  next => cases hn

/-! ## Reading back -/

theorem not_readsBack_of_infinite {q : Quantity} (h : q.Formed) (hinfinite : q.isFinite = false) :
    ¬ (quantity q).ReadsBack := by
  rintro ⟨w, hread, hsame⟩
  obtain ⟨c, rest, hrender, hc⟩ := h.render_of_infinite hinfinite
  have htext : (encode (quantity q)).toList = q.render := by rw [encode, String.toList_ofList]; rfl
  have hhead : (encode (quantity q)).toList.head? = some c := by rw [htext, hrender]; rfl
  -- The text of an infinite quantity is a symbol or none at all, as its sign and its tolerance have
  -- it.
  have hsymbol (hsigil : isSigil c = false) : False := by
    rw [decode_symbol hhead hsigil] at hread
    cases hread
    cases hsame
  rcases hc with rfl | rfl | ⟨hstarts, hsplit⟩
  · exact hsymbol rfl
  · exact hsymbol rfl
  · have hquantity : startsQuantity c = true := by
      rcases hstarts with hdigit | rfl
      · simp [startsQuantity, hdigit]
      · rfl
    rw [decode_quantity hhead hquantity, Quantity.read, htext, hsplit] at hread
    cases hread

/-- **Literals of the form of their kind are read back exactly if they are finite.** -/
theorem Formed.readsBack_iff {v : Literal} (h : v.Formed) : v.ReadsBack ↔ v.isFinite = true := by
  cases v with
  | text t => exact iff_of_true (readsBack_text t) rfl
  | tagged t => exact iff_of_true (readsBack_tagged h) rfl
  | quantity q =>
    cases hfinite : q.isFinite with
    | true =>
      exact iff_of_true (readsBack_quantity ((Quantity.Formed.wellFormed_iff h).2 hfinite)) hfinite
    | false =>
      refine iff_of_false (not_readsBack_of_infinite h hfinite) ?_
      rw [isFinite, hfinite]
      exact Bool.false_ne_true
  | coordinate c => exact iff_of_true (readsBack_coordinate h) rfl
  | pointInTime t => exact iff_of_true (readsBack_pointInTime h) rfl
  | symbol s =>
    obtain ⟨c, hhead, hc⟩ := h
    exact iff_of_true (readsBack_symbol hhead hc) rfl

/-! ## The result -/

/-- **What is read** is of the kind that its first character announces and has the form of its kind,
and it is well-formed and read back exactly if no numeral overflows. Only integers of base ten
overflow in what is read; where another numeral does, the text is out of range. -/
theorem decode_wellFormed_iff (s : String) :
    (∀ v, decode s = .ok v →
      (∃ c, s.toList.head? = some c ∧ announces c v = true) ∧ v.Formed ∧
      (∀ n ∈ numerals s, n.Overflows → n.isWhole = true) ∧
      (v.WellFormed ↔ ∀ n ∈ numerals s, ¬ n.Overflows) ∧
      ((∃ w, decode (encode v) = .ok w ∧ w.same v = true) ↔
        ∀ n ∈ numerals s, ¬ n.Overflows)) ∧
    ((∃ n ∈ numerals s, n.Overflows ∧ n.isWhole = false) →
      ∃ e, decode s = .error e ∧ e.kind = .outOfRange) := by
  refine ⟨fun v h => ?_, ?_⟩
  · obtain ⟨c, hhead, hannounces, -⟩ := decode_cases h
    obtain ⟨hformed, hfinite, hwhole⟩ := formed_of_decode h
    exact ⟨⟨c, hhead, hannounces⟩, hformed, hwhole, hformed.wellFormed_iff.trans hfinite,
      hformed.readsBack_iff.trans hfinite⟩
  · rintro ⟨n, hn, hoverflows, hwhole⟩
    cases hdecode : decode s with
    | ok v =>
      rw [(formed_of_decode hdecode).2.2 n hn hoverflows] at hwhole
      cases hwhole
    | error e =>
      exact ⟨e, rfl, kind_of_decode hn hdecode⟩

/-- Five metres are well-formed, and a number with too large an exponent is out of range. -/
theorem decode_wellFormed_iff_metres :
    (∃ v, decode "5m" = .ok v ∧ v.WellFormed) ∧
      ∃ e, decode "1e999" = .error e ∧ e.kind = .outOfRange := by
  constructor
  · have hread : decode "5m" = .ok (quantity ⟨.int 5, none, none, some "m", none⟩) := by
      decide +kernel
    exact ⟨_, hread, ((decode_wellFormed_iff "5m").1 _ hread).2.2.2.1.2 (by decide +kernel)⟩
  · have hnumeral : ⟨"1e999".toList, false, .decimal [1] [] 999⟩ ∈ numerals "1e999" := by
      decide +kernel
    exact (decode_wellFormed_iff "1e999").2 ⟨_, hnumeral, by decide +kernel, rfl⟩

/-- A power of ten that overflows is read as infinity, which is written as a symbol. -/
theorem decode_power_of_ten :
    ∃ v, decode (String.ofList ('1' :: List.replicate 309 '0')) = .ok v ∧ ¬ v.WellFormed ∧
      decode (encode v) = .ok (symbol "inf") := by
  have hsplit : Quantity.split? ('1' :: List.replicate 309 '0') =
      some ⟨⟨'1' :: List.replicate 309 '0', false, .whole (1 :: List.replicate 309 0)⟩, none,
        .absent⟩ := by decide +kernel
  have hvalue : Number.ofInt (Number.signed false (valueOfDigits 10 (1 :: List.replicate 309 0))) =
      .float (.infinity false) := by decide +kernel
  refine ⟨quantity (.ofNumber (.float (.infinity false))), ?_, ?_, rfl⟩
  · rw [decode_quantity (c := '1') (by rw [String.toList_ofList]; rfl) rfl, Quantity.read,
      String.toList_ofList, hsplit]
    simp only [Quantity.ofSplit, Number.ofNumeral, hvalue]
    rfl
  · rintro ⟨hfinite, -⟩
    cases hfinite

end Literal

end FactGraph
