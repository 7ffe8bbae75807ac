import FactGraph.Literal.PointInTime
import FactGraph.Proofs.Literal.Numeral
import FactGraph.Proofs.Outcome

/-!
# Points in time read back

The normal form of a date is one of the forms that are read, and although a run of digits can be
divided in several ways, the first way of reading the normal form gives the fields that were written
(`fields?_normal`). So points in time in normal form are read back (`WellFormed.read_render`).
Conversely, whatever is read is in normal form (`wellFormed_of_read`): each field is bounded where
it is read, and what the bounds let through is refused by the check.
-/

namespace FactGraph

namespace PointInTime

/-! ## Moments -/

/-- The zone is one that can be written. -/
def Zone.InRange : Zone → Prop
  | .utc => True
  | .offset _ hours minutes => hours ≤ 23 ∧ minutes ≤ 59

/-- A point in time with all its fields. -/
structure Moment where
  year : Nat
  month : Nat
  day : Nat
  hour : Nat
  minute : Nat
  second : Nat
  zone : Zone

namespace Moment

/-- What follows the year in the normal form. -/
def fieldsText (m : Moment) : List Char :=
  '-' :: (pad 2 m.month ++ '-' :: (pad 2 m.day ++ 'T' :: (pad 2 m.hour ++
    ':' :: (pad 2 m.minute ++ ':' :: (pad 2 m.second ++ m.zone.render)))))

/-- The normal form. -/
def text (m : Moment) : List Char := pad 4 m.year ++ m.fieldsText

/-- The fields are in the domains of dates. -/
structure InRange (m : Moment) : Prop where
  year : firstYear ≤ m.year ∧ m.year ≤ lastYear
  month : 1 ≤ m.month ∧ m.month ≤ 12
  day : 1 ≤ m.day ∧ m.day ≤ 31
  hour : m.hour ≤ 23
  minute : m.minute ≤ 59
  second : m.second ≤ 59
  zone : m.zone.InRange

/-- The fields of the normal form. -/
def fields (m : Moment) (precision : Option Nat) : Fields where
  month := some ⟨true, m.month⟩
  day := some ⟨true, m.day⟩
  hour := some m.hour
  minute := some ⟨true, m.minute⟩
  second := some ⟨true, m.second⟩
  zone := some m.zone
  precision := precision

/-- The moment that fields stand for. -/
def ofFields (year : Nat) (f : Fields) : Moment where
  year := year
  month := (f.month.map Field.value).getD 1
  day := (f.day.map Field.value).getD 1
  hour := f.hour.getD 0
  minute := (f.minute.map Field.value).getD 0
  second := (f.second.map Field.value).getD 0
  zone := f.zone.getD .utc

theorem normalText_eq (year : Nat) (f : Fields) : normalText year f = (ofFields year f).text := by
  simp [normalText, text, fieldsText, ofFields]

end Moment

/-- The text is in normal form and in range, the precision is one of those of dates, and there is no
calendar. -/
structure WellFormed (t : PointInTime) : Prop where
  text : ∃ m : Moment, m.InRange ∧ t.text = String.ofList m.text
  precision : ∀ p ∈ t.precision, p.toNat ≤ finestPrecision
  calendar : t.calendar = none

/-! ## Fields of fixed width -/

theorem exists_digits_pad {width n : Nat} (hwidth : 0 < width) (hn : n < 10 ^ width) :
    ∃ ds, AreDigits ds ∧ ds.length = width ∧ pad width n = digitText ds ∧
      valueOfDigits 10 ds = n := by
  have hlength := length_decimalDigits_le hwidth hn
  refine ⟨.replicate (width - (decimalDigits n).length) 0 ++ decimalDigits n,
    (areDigits_replicate_zero _).append (areDigits_decimalDigits n), ?_, ?_, ?_⟩
  · rw [List.length_append, List.length_replicate]
    omega
  · rw [digitText_append, digitText_replicate_zero, pad, toDigits_eq_digitText]
    simp only [length_digitText]
    rfl
  · rw [valueOfDigits_append, valueOfDigits_replicate_zero, valueOfDigits_decimalDigits]
    omega

variable {max n : Nat}

theorem twoDigits?_pad (hn : n ≤ max) (hmax : max < 100) (rest : List Char) :
    twoDigits? max (pad 2 n ++ rest) = some (n, rest) := by
  obtain ⟨ds, hds, hlength, hpad, hvalue⟩ :=
    exists_digits_pad two_pos (show n < 10 ^ 2 from hn.trans_lt hmax)
  match ds, hlength with
  | [tens, ones], _ =>
    have htens := (digitChar_spec (hds tens (by simp))).1
    have hones := (digitChar_spec (hds ones (by simp))).1
    have hsum : 10 * tens + ones = n := by
      simp only [valueOfDigits, List.foldl_cons, List.foldl_nil] at hvalue
      omega
    rw [hpad]
    show (do
      let tens ← digitValue? 10 tens.digitChar
      let ones ← digitValue? 10 ones.digitChar
      if 10 * tens + ones ≤ max then some (10 * tens + ones, rest) else none) = _
    rw [htens, hones]
    simp [hsum, hn]

theorem field?_pad (separator : Char) (hn : n ≤ max) (hmax : max < 100) (rest : List Char) :
    field? separator max (separator :: (pad 2 n ++ rest)) = some (⟨true, n⟩, rest) := by
  rw [field?]
  simp only [if_true, twoDigits?_pad hn hmax, Option.map_some]

theorem fieldPairs_pad (separator : Char) {first second max₁ max₂ : Nat} (hfirst : first ≤ max₁)
    (hsecond : second ≤ max₂) (hmax₁ : max₁ < 100) (hmax₂ : max₂ < 100) (rest : List Char) :
    ∃ others, fieldPairs separator max₁ max₂
      (separator :: (pad 2 first ++ separator :: (pad 2 second ++ rest))) =
        (some ⟨true, first⟩, some ⟨true, second⟩, rest) :: others := by
  rw [fieldPairs, field?_pad separator hfirst hmax₁]
  simp only [field?_pad separator hsecond hmax₂]
  exact ⟨_, rfl⟩

theorem zones_render {zone : Zone} (h : zone.InRange) (rest : List Char) :
    ∃ others, zones (zone.render ++ rest) = (some zone, rest) :: others := by
  cases zone with
  | utc => exact ⟨_, rfl⟩
  | offset west hours minutes =>
    obtain ⟨hhours, hminutes⟩ := h
    have hread := twoDigits?_pad hhours (by decide) (':' :: (pad 2 minutes ++ rest))
    have hfield := field?_pad ':' hminutes (by decide) rest
    -- The sign is kept as a variable with its three properties, so that the reader need not be run
    -- for each direction.
    obtain ⟨sign, hsign⟩ : ∃ sign, sign = if west then '-' else '+' := ⟨_, rfl⟩
    have hsignSpec : sign ≠ 'Z' ∧ (sign = '+' ∨ sign = '-') ∧ decide (sign = '-') = west := by
      rw [hsign]
      cases west <;> decide
    have htext : (Zone.offset west hours minutes).render ++ rest =
        sign :: (pad 2 hours ++ ':' :: (pad 2 minutes ++ rest)) := by
      simp [Zone.render, hsign]
    rw [htext, zones.eq_def]
    split
    next hcs => exact absurd (List.cons.inj hcs).1 hsignSpec.1
    next hcs =>
      obtain ⟨rfl, rfl⟩ := List.cons.inj hcs
      simp only [if_pos hsignSpec.2.1, hread, hfield, hsignSpec.2.2]
      exact ⟨_, rfl⟩
    next hcs => cases hcs

theorem times_render {m : Moment} (h : m.InRange) (rest : List Char) :
    ∃ others, times ('T' :: (pad 2 m.hour ++ ':' :: (pad 2 m.minute ++
      ':' :: (pad 2 m.second ++ (m.zone.render ++ rest))))) =
        (some m.hour, some ⟨true, m.minute⟩, some ⟨true, m.second⟩, some m.zone, rest) ::
          others := by
  have hhour := twoDigits?_pad (show m.hour ≤ 24 from h.hour.trans (by decide)) (by decide)
    (':' :: (pad 2 m.minute ++ ':' :: (pad 2 m.second ++ (m.zone.render ++ rest))))
  obtain ⟨pairs, hpairs⟩ := fieldPairs_pad ':' h.minute h.second (by decide)
    (by decide) (m.zone.render ++ rest)
  obtain ⟨others, hzones⟩ := zones_render h.zone rest
  rw [times]
  simp only [hhour, hpairs, hzones, List.flatMap_cons, List.map_cons, List.cons_append]
  exact ⟨_, rfl⟩

/-! ## The end of the text -/

/-- What is written for a precision. -/
def precisionText : Option UInt8 → List Char
  | some p => '/' :: (toString p.toNat).toList
  | none => []

theorem precision?_toString : ∀ p ≤ finestPrecision,
    precision? ('/' :: (toString p).toList) = some (some p) := by
  decide +kernel

theorem precision?_precisionText {precision : Option UInt8}
    (h : ∀ p ∈ precision, p.toNat ≤ finestPrecision) :
    precision? (precisionText precision) = some (precision.map UInt8.toNat) := by
  cases precision with
  | none => rfl
  | some p => exact precision?_toString p.toNat (h p rfl)

/-! ## The normal form is read back -/

/-- **The first way of reading the normal form gives the fields that were written.** -/
theorem fields?_normal {m : Moment} (h : m.InRange) {rest : List Char} {precision : Option Nat}
    (hprecision : precision? rest = some precision) :
    fields? (m.fieldsText ++ rest) = some (m.fields precision) := by
  obtain ⟨pairs, hpairs⟩ := fieldPairs_pad '-' h.month.2 h.day.2 (by decide)
    (by decide) ('T' :: (pad 2 m.hour ++ ':' :: (pad 2 m.minute ++
      ':' :: (pad 2 m.second ++ (m.zone.render ++ rest)))))
  obtain ⟨others, htimes⟩ := times_render h rest
  have htext : m.fieldsText ++ rest = '-' :: (pad 2 m.month ++ '-' :: (pad 2 m.day ++
      'T' :: (pad 2 m.hour ++ ':' :: (pad 2 m.minute ++
        ':' :: (pad 2 m.second ++ (m.zone.render ++ rest)))))) := by
    simp [Moment.fieldsText]
  rw [fields?, htext, hpairs]
  simp only [List.findSome?_cons, htimes, hprecision, Option.map_some]
  rfl

theorem yearFrom?_digit {seen : List Nat} (hseen : seen.length < 4) {d : Nat} (hd : d < 10)
    (rest : List Char) : yearFrom? seen (d.digitChar :: rest) = yearFrom? (d :: seen) rest := by
  rw [yearFrom?, if_neg (by omega)]
  simp only [(digitChar_spec hd).1]

/-- **A year of four digits ends where the fields start.** -/
theorem readFields?_pad {year : Nat} (hyear : year < 10 ^ 4) {rest : List Char} {f : Fields}
    (hfields : fields? rest = some f) :
    readFields? (pad 4 year ++ rest) = some ((year : Int), f) := by
  obtain ⟨ds, hds, hlength, hpad, hvalue⟩ := exists_digits_pad (by decide) hyear
  have hsign : splitSign (pad 4 year ++ rest) = (false, pad 4 year ++ rest) := by
    rw [hpad]
    exact splitSign_digitText hds (List.ne_nil_of_length_pos (by omega)) _
  unfold readFields?
  rw [hsign]
  simp only [hpad]
  -- The reader takes a digit at a time and stops once it has four, as no fields start with a digit.
  match ds, hlength with
  | [a, b, c, d], _ =>
    have hdigit (x : Nat) (hx : x ∈ [a, b, c, d]) : x < 10 := hds x hx
    simp only [digitText_cons, digitText_nil, List.cons_append, List.nil_append]
    rw [yearFrom?_digit (by simp) (hdigit a (by simp)),
      yearFrom?_digit (by simp) (hdigit b (by simp)),
      yearFrom?_digit (by simp) (hdigit c (by simp)),
      yearFrom?_digit (by simp) (hdigit d (by simp)), yearFrom?.eq_def, if_pos (by simp),
      hfields]
    simp [← hvalue, Number.signed]

theorem readFields?_normal {m : Moment} (h : m.InRange) {rest : List Char}
    {precision : Option Nat} (hprecision : precision? rest = some precision) :
    readFields? (m.text ++ rest) = some ((m.year : Int), m.fields precision) := by
  have hyear : m.year < 10 ^ 4 := by
    have hlast : (m.year : Int) ≤ 2100 := h.year.2
    omega
  rw [Moment.text, List.append_assoc]
  exact readFields?_pad hyear (fields?_normal h hprecision)

theorem check_fields {m : Moment} (h : m.InRange) (text : String) (precision : Option Nat) :
    check text m.year (m.fields precision) = .ok () := by
  obtain ⟨⟨hfirst, hlast⟩, hmonth, hday, hhour, -, -, -⟩ := h
  have hfits : FitsInt64 m.year := by
    unfold FitsInt64
    unfold lastYear at hlast
    omega
  have huniform : (m.fields precision).uniform = true := rfl
  unfold check
  rw [huniform, if_neg (by simp), if_neg (by simpa using hfits), if_neg (by omega),
    if_neg (by simp [Moment.fields]; omega), if_neg (by simp [Moment.fields]; omega),
    if_neg (by simp [Moment.fields]; omega)]

theorem Moment.ofFields_fields (m : Moment) (precision : Option Nat) :
    ofFields m.year (m.fields precision) = m := rfl

/-- **A point in time in normal form is read back.** -/
theorem WellFormed.read_render {t : PointInTime} (h : t.WellFormed) :
    read (String.ofList t.render) = .ok t := by
  obtain ⟨text, precision, calendar⟩ := t
  obtain ⟨⟨m, hm, rfl⟩, hprecision, rfl⟩ := h
  have hrender : render ⟨String.ofList m.text, precision, none⟩ =
      '^' :: (m.text ++ precisionText precision) := by
    rw [render, String.toList_ofList, List.cons_append]
    cases precision <;> rfl
  have hread := readFields?_normal hm (precision?_precisionText hprecision)
  unfold read
  rw [hrender, String.toList_ofList, List.tail_cons, hread]
  simp only [check_fields hm, Moment.normalText_eq, Int.toNat_natCast, Moment.ofFields_fields]
  cases precision <;> simp [Moment.fields] <;> rfl

/-- **The parts of a point in time in normal form are accepted.** -/
theorem WellFormed.ofParts_text {t : PointInTime} (h : t.WellFormed) :
    ofParts t.text t.precision none = .ok t := by
  have hbare : WellFormed { t with precision := none } := ⟨h.text, by simp, h.calendar⟩
  have hread := hbare.read_render
  have hrender : render { t with precision := none } = '^' :: t.text.toList := by
    simp [render]
  obtain ⟨text, precision, calendar⟩ := t
  obtain rfl : calendar = none := h.calendar
  rw [hrender] at hread
  rw [ofParts, hread]
  cases precision with
  | none => rfl
  | some p =>
    have hfits : ¬ finestPrecision < p.toNat := Nat.not_lt.2 (h.precision p rfl)
    simp only [bind, Except.bind, hfits, if_false]

/-! ## What is read is in normal form -/

/-- The fields are as their places in a written date allow. -/
structure Fields.Bounded (f : Fields) : Prop where
  month : ∀ field ∈ f.month, field.value ≤ 12
  day : ∀ field ∈ f.day, field.value ≤ 31
  hour : ∀ hour ∈ f.hour, hour ≤ 24
  minute : ∀ field ∈ f.minute, field.value ≤ 59
  second : ∀ field ∈ f.second, field.value ≤ 59
  zone : ∀ zone ∈ f.zone, zone.InRange
  precision : ∀ p ∈ f.precision, p ≤ finestPrecision

variable {separator : Char} {cs rest : List Char}

theorem twoDigits?_le (h : twoDigits? max cs = some (n, rest)) : n ≤ max := by
  unfold twoDigits? at h
  split at h
  next =>
    simp only [Option.bind_eq_bind, Option.bind_eq_some_iff, Option.ite_none_right_eq_some,
      Option.some.injEq, Prod.mk.injEq] at h
    obtain ⟨tens, -, ones, -, hle, rfl, -⟩ := h
    exact hle
  next => cases h

theorem field?_le {field : Field} (h : field? separator max cs = some (field, rest)) :
    field.value ≤ max := by
  unfold field? at h
  split at h
  next =>
    split at h
    all_goals
      obtain ⟨⟨value, rest'⟩, hread, hfield⟩ := Option.map_eq_some_iff.1 h
      obtain ⟨rfl, -⟩ := Prod.mk.inj hfield
      exact twoDigits?_le hread
  next => cases h

theorem le_of_mem_fieldPairs {first second : Option Field} {max₁ max₂ : Nat}
    (h : (first, second, rest) ∈ fieldPairs separator max₁ max₂ cs) :
    (∀ field ∈ first, field.value ≤ max₁) ∧ ∀ field ∈ second, field.value ≤ max₂ := by
  have hnone : ∀ max, ∀ field ∈ (none : Option Field), field.value ≤ max := by simp
  have hsome {cs rest : List Char} {max : Nat} {field : Field}
      (hread : field? separator max cs = some (field, rest)) :
      ∀ field' ∈ some field, field'.value ≤ max := fun field' hfield => by
    cases hfield
    exact field?_le hread
  unfold fieldPairs at h
  rcases List.mem_append.1 h with h | h
  · split at h
    next field₁ rest₁ hread₁ =>
      rcases List.mem_append.1 h with h | h
      · split at h
        next field₂ rest₂ hread₂ =>
          cases List.mem_singleton.1 h
          exact ⟨hsome hread₁, hsome hread₂⟩
        next => cases h
      · cases List.mem_singleton.1 h
        exact ⟨hsome hread₁, hnone _⟩
    next => cases h
  · cases List.mem_singleton.1 h
    exact ⟨hnone _, hnone _⟩

theorem inRange_of_mem_zones {zone : Option Zone} (h : (zone, rest) ∈ zones cs) :
    ∀ z ∈ zone, z.InRange := by
  intro z hz
  cases hz
  unfold zones at h
  rcases List.mem_append.1 h with h | h
  · split at h
    next =>
      cases List.mem_singleton.1 h
      exact True.intro
    next =>
      split at h
      next =>
        split at h
        next hours rest₁ hhours =>
          rcases List.mem_append.1 h with h | h
          · split at h
            next minutes rest₂ hminutes =>
              cases List.mem_singleton.1 h
              exact ⟨twoDigits?_le hhours, field?_le hminutes⟩
            next => cases h
          · cases List.mem_singleton.1 h
            exact ⟨twoDigits?_le hhours, Nat.zero_le _⟩
        next => cases h
      next => cases h
    next => cases h
  · cases List.mem_singleton.1 h

theorem bounds_of_mem_times {hour : Option Nat} {minute second : Option Field}
    {zone : Option Zone} (h : (hour, minute, second, zone, rest) ∈ times cs) :
    (∀ n ∈ hour, n ≤ 24) ∧ (∀ field ∈ minute, field.value ≤ 59) ∧
      (∀ field ∈ second, field.value ≤ 59) ∧ ∀ z ∈ zone, z.InRange := by
  unfold times at h
  rcases List.mem_append.1 h with h | h
  · split at h
    next =>
      split at h
      next n rest₁ hhour =>
        obtain ⟨⟨minute', second', rest₂⟩, hpair, h⟩ := List.mem_flatMap.1 h
        obtain ⟨⟨zone', rest₃⟩, hzone, heq⟩ := List.mem_map.1 h
        cases heq
        obtain ⟨hminute, hsecond⟩ := le_of_mem_fieldPairs hpair
        refine ⟨fun k hk => ?_, hminute, hsecond, inRange_of_mem_zones hzone⟩
        cases hk
        exact twoDigits?_le hhour
      next => cases h
    next => cases h
  · cases List.mem_singleton.1 h
    simp

theorem digitValue?_lt {base d : Nat} {c : Char} (h : digitValue? base c = some d) : d < base :=
  of_decide_eq_true (Option.filter_eq_some_iff.1 h).2

theorem precision?_le {precision : Option Nat} (h : precision? cs = some precision) :
    ∀ p ∈ precision, p ≤ finestPrecision := by
  intro p hp
  cases hp
  unfold finestPrecision
  unfold precision? at h
  split at h
  next => cases h
  next =>
    obtain ⟨d, hd, heq⟩ := Option.map_eq_some_iff.1 h
    cases heq
    have := digitValue?_lt hd
    omega
  next =>
    simp only [Option.bind_eq_bind, Option.bind_eq_some_iff, Option.ite_none_right_eq_some,
      Option.some.injEq] at h
    obtain ⟨tens, -, ones, hones, hle, rfl⟩ := h
    have := digitValue?_lt hones
    omega
  next => cases h

/-- **Whatever way of reading is taken**, the fields are bounded. -/
theorem bounded_of_fields? {f : Fields} (h : fields? cs = some f) : f.Bounded := by
  obtain ⟨⟨month, day, rest₁⟩, hpair, h⟩ := List.exists_of_findSome?_eq_some h
  obtain ⟨⟨hour, minute, second, zone, rest₂⟩, htime, h⟩ := List.exists_of_findSome?_eq_some h
  obtain ⟨precision, hprecision, heq⟩ := Option.map_eq_some_iff.1 h
  obtain ⟨hmonth, hday⟩ := le_of_mem_fieldPairs hpair
  obtain ⟨hhour, hminute, hsecond, hzone⟩ := bounds_of_mem_times htime
  cases heq
  exact ⟨hmonth, hday, hhour, hminute, hsecond, hzone, precision?_le hprecision⟩

theorem bounded_of_yearFrom? {seen ds : List Nat} {f : Fields}
    (h : yearFrom? seen cs = some (ds, f)) : f.Bounded := by
  induction cs generalizing seen with
  | nil =>
    rw [yearFrom?.eq_def] at h
    split at h
    next fields hread =>
      cases h
      exact bounded_of_fields? (Option.ite_none_right_eq_some.1 hread).2
    next => cases h
  | cons c rest ih =>
    rw [yearFrom?.eq_def] at h
    split at h
    next fields hread =>
      cases h
      exact bounded_of_fields? (Option.ite_none_right_eq_some.1 hread).2
    next =>
      simp only at h
      split at h
      next => exact ih h
      next => cases h

theorem getD_le {value? : Option Nat} {bound absent : Nat} (h : ∀ n ∈ value?, n ≤ bound)
    (habsent : absent ≤ bound) : value?.getD absent ≤ bound := by
  cases value? with
  | none => exact habsent
  | some n => exact h n rfl

theorem value_le {field : Option Field} {bound : Nat} (h : ∀ f ∈ field, f.value ≤ bound) :
    ∀ n ∈ field.map Field.value, n ≤ bound := by
  intro n hn
  obtain ⟨f, hf, rfl⟩ := Option.map_eq_some_iff.1 hn
  exact h f hf

theorem getD_pos {value? : Option Nat} {absent : Nat} (h : value? ≠ some 0)
    (habsent : 1 ≤ absent) : 1 ≤ value?.getD absent := by
  cases value? with
  | none => exact habsent
  | some n => exact Nat.pos_of_ne_zero fun hn => h (congrArg some hn)

theorem Moment.inRange_ofFields {text : String} {year : Int} {f : Fields} (hf : f.Bounded)
    (hcheck : check text year f = .ok ()) : (ofFields year.toNat f).InRange := by
  unfold check at hcheck
  split at hcheck
  · cases hcheck
  split at hcheck
  · cases hcheck
  split at hcheck
  · cases hcheck
  split at hcheck
  · cases hcheck
  split at hcheck
  · cases hcheck
  split at hcheck
  · cases hcheck
  next hyear hmonth hday hhour =>
  have hfirst : firstYear = 1583 := rfl
  -- The reader allows the hour 24, the check does not.
  have hhourBound : ∀ n ∈ f.hour, n ≤ 23 := fun n hn => by
    have hle := hf.hour n hn
    have hne : n ≠ 24 := fun heq => hhour (by rw [← heq]; exact hn)
    omega
  refine ⟨?_, ⟨getD_pos hmonth le_rfl, getD_le (value_le hf.month) (by decide)⟩,
    ⟨getD_pos hday le_rfl, getD_le (value_le hf.day) (by decide)⟩,
    getD_le hhourBound (by decide), getD_le (value_le hf.minute) (by decide),
    getD_le (value_le hf.second) (by decide), ?_⟩
  · show firstYear ≤ ((year.toNat : Nat) : Int) ∧ ((year.toNat : Nat) : Int) ≤ lastYear
    omega
  · show (f.zone.getD .utc).InRange
    cases hzone : f.zone with
    | none => exact True.intro
    | some zone => exact hf.zone zone hzone

/-- **Whatever is read is in normal form.** -/
theorem wellFormed_of_read {text : String} {t : PointInTime} (h : read text = .ok t) :
    t.WellFormed := by
  unfold read at h
  split at h
  next => cases h
  next year f hread =>
    obtain ⟨⟨digits, f'⟩, hyear, heq⟩ := Option.map_eq_some_iff.1 hread
    obtain ⟨-, rfl⟩ := Prod.mk.inj heq
    have hf := bounded_of_yearFrom? hyear
    cases hcheck : check text year f' with
    | error e =>
      rw [hcheck] at h
      cases h
    | ok _ =>
      rw [hcheck] at h
      obtain rfl :
          ⟨String.ofList (normalText year.toNat f'), f'.precision.map UInt8.ofNat, none⟩ = t :=
        Except.ok.inj h
      refine ⟨⟨.ofFields year.toNat f', Moment.inRange_ofFields hf hcheck,
        by rw [Moment.normalText_eq]⟩, fun p hp => ?_, rfl⟩
      obtain ⟨n, hn, rfl⟩ := Option.map_eq_some_iff.1 hp
      have hle := hf.precision n hn
      rw [UInt8.toNat_ofNat']
      exact (Nat.mod_le n _).trans hle

/-- Parts that are accepted are in normal form, but for the calendar. -/
theorem wellFormed_of_ofParts {text : String} {precision : Option UInt8}
    {calendar : Option String} {t : PointInTime} (h : ofParts text precision calendar = .ok t) :
    WellFormed { t with calendar := none } := by
  obtain ⟨u, hu, h⟩ := exists_of_bind_eq_ok h
  have htext := (wellFormed_of_read hu).text
  split at h
  next p =>
    split at h
    · cases h
    next hp =>
      cases h
      exact ⟨htext, fun other hother => Option.some.inj hother ▸ Nat.not_lt.1 hp, rfl⟩
  next =>
    cases h
    exact ⟨htext, nofun, rfl⟩

end PointInTime

end FactGraph
