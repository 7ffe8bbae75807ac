import FactGraph.Proofs.Literal.RoundTrip

/-!
# The forms of a date

**Theorem (`Literal.decode_of_dateForm`).** A date may leave out its last fields, its time, its zone
and its precision, and may have separators or not. Whatever is left out, the fields that are written
are the fields that are read: mixed separators are malformed, a year outside the domain, a month or
day zero and the end of a day are out of range, and anything else is the moment that was written,
with the least value for what was left out.

Without separators the digits could be divided in other ways. The reader takes a field where it can,
so it is enough that behind the last field of a kind no other can start (`Stops`). Then the intended
reading is the first of the ways of each part, and it uses up the text.
-/

namespace FactGraph

namespace PointInTime

/-! ## What may be written -/

/-- A field of two digits up to a bound, with or without a separator before it. -/
structure FieldForm (max : Nat) where
  separated : Bool
  value : Fin (max + 1)

/-- A zone. Its minutes may be left out. -/
inductive ZoneForm where
  | utc
  | offset (west : Bool) (hours : Fin 24) (minutes : Option (FieldForm 59))

/-- A time of day. Seconds need minutes. -/
structure TimeForm where
  hour : Fin 25
  clock : Option (FieldForm 59 × Option (FieldForm 59))
  zone : Option ZoneForm

/-- A date. A day needs a month, and a precision of one digit may have a zero before it. -/
structure DateForm where
  year : Fin 10000
  monthDay : Option (FieldForm 12 × Option (FieldForm 31))
  time : Option TimeForm
  precision : Option (Bool × Fin 20)

namespace FieldForm

variable {max : Nat}

def text (separator : Char) (f : FieldForm max) : List Char :=
  (if f.separated then [separator] else []) ++ pad 2 f.value

def field (f : FieldForm max) : Field := ⟨f.separated, f.value⟩

end FieldForm

/-- A field, and perhaps one more. -/
def pairText (separator : Char) {max₁ max₂ : Nat} :
    Option (FieldForm max₁ × Option (FieldForm max₂)) → List Char
  | none => []
  | some (first, none) => first.text separator
  | some (first, some second) => first.text separator ++ second.text separator

namespace ZoneForm

def text : ZoneForm → List Char
  | utc => ['Z']
  | offset west hours minutes =>
    (if west then '-' else '+') :: (pad 2 hours ++ (minutes.map (FieldForm.text ':')).getD [])

/-- The zone, with no minutes for those that are left out. -/
def zone : ZoneForm → Zone
  | utc => .utc
  | offset west hours minutes => .offset west hours ((minutes.map (·.value.val)).getD 0)

end ZoneForm

def TimeForm.text (t : TimeForm) : List Char :=
  'T' :: (pad 2 t.hour ++ (pairText ':' t.clock ++ (t.zone.map ZoneForm.text).getD []))

namespace DateForm

def precisionText (f : DateForm) : List Char :=
  match f.precision with
  | none => []
  | some (padded, p) => '/' :: pad (if padded then 2 else 1) p

/-- The date as it is written. -/
def text (f : DateForm) : List Char :=
  '^' :: (pad 4 f.year ++ (pairText '-' f.monthDay ++
    ((f.time.map TimeForm.text).getD [] ++ f.precisionText)))

def month (f : DateForm) : Option (FieldForm 12) := f.monthDay.map (·.1)

def day (f : DateForm) : Option (FieldForm 31) := f.monthDay.bind (·.2)

def hour (f : DateForm) : Option (Fin 25) := f.time.map (·.hour)

def minute (f : DateForm) : Option (FieldForm 59) := (f.time.bind (·.clock)).map (·.1)

def second (f : DateForm) : Option (FieldForm 59) := (f.time.bind (·.clock)).bind (·.2)

def zone (f : DateForm) : Option ZoneForm := f.time.bind (·.zone)

/-- For each field that may have a separator, whether it has one. -/
def marks (f : DateForm) : List Bool :=
  (f.month.map (·.separated)).toList ++ (f.day.map (·.separated)).toList ++
    (f.minute.map (·.separated)).toList ++ (f.second.map (·.separated)).toList

/-- All separators are written, or none is. -/
def IsUniform (f : DateForm) : Prop :=
  (∀ mark ∈ f.marks, mark = true) ∨ ∀ mark ∈ f.marks, mark = false

/-- A field is outside its domain. -/
def IsFault (f : DateForm) : Prop :=
  f.year.val < 1583 ∨ 2100 < f.year.val ∨ (∃ m ∈ f.month, m.value = 0) ∨
    (∃ d ∈ f.day, d.value = 0) ∨ f.hour = some 24

/-- The moment that is written, with the least value for what is left out. -/
def moment (f : DateForm) : Moment where
  year := f.year
  month := (f.month.map (·.value.val)).getD 1
  day := (f.day.map (·.value.val)).getD 1
  hour := (f.hour.map (·.val)).getD 0
  minute := (f.minute.map (·.value.val)).getD 0
  second := (f.second.map (·.value.val)).getD 0
  zone := (f.zone.map ZoneForm.zone).getD .utc

/-- The value: the normal form of the moment with the precision that is written. -/
def value (f : DateForm) : PointInTime where
  text := String.ofList f.moment.text
  precision := f.precision.map fun p => UInt8.ofNat p.2
  calendar := none

/-- The fields as a reader gives them. -/
def fields (f : DateForm) : Fields where
  month := f.month.map FieldForm.field
  day := f.day.map FieldForm.field
  hour := f.hour.map (·.val)
  minute := f.minute.map FieldForm.field
  second := f.second.map FieldForm.field
  zone := f.zone.map ZoneForm.zone
  precision := f.precision.map (·.2.val)

end DateForm

/-! ## Fields are read where they are written -/

/-- No field behind this separator starts here. -/
def Stops (separator : Char) (cs : List Char) : Prop :=
  ∀ c ∈ cs.head?, c ≠ separator ∧ digitValue? 10 c = none

section

variable {separator : Char} {max max₁ max₂ : Nat} {cs rest : List Char}

theorem twoDigits?_of_no_digit (h : ∀ c ∈ cs.head?, digitValue? 10 c = none) :
    twoDigits? max cs = none := by
  match cs with
  | [] => rfl
  | [_] => rfl
  | a :: b :: rest =>
    show (do
      let tens ← digitValue? 10 a
      let ones ← digitValue? 10 b
      if 10 * tens + ones ≤ max then some (10 * tens + ones, rest) else none) = _
    rw [h a rfl]
    rfl

theorem Stops.field? (h : Stops separator cs) : field? separator max cs = none := by
  unfold PointInTime.field?
  split
  next c rest =>
    obtain ⟨hne, -⟩ := h c rfl
    rw [if_neg hne, twoDigits?_of_no_digit fun c hc => (h c hc).2]
    rfl
  next => rfl

theorem field?_text (hseparator : digitValue? 10 separator = none) (hmax : max < 100)
    (f : FieldForm max) (rest : List Char) :
    field? separator max (f.text separator ++ rest) = some (f.field, rest) := by
  obtain ⟨separated, value⟩ := f
  have hvalue : value.val ≤ max := Nat.lt_succ_iff.1 value.isLt
  cases separated with
  | true => exact field?_pad separator hvalue hmax rest
  | false =>
    have hread := twoDigits?_pad hvalue hmax rest
    obtain ⟨ds, hds, hlength, hpad, -⟩ :=
      exists_digits_pad two_pos (show value.val < 10 ^ 2 from hvalue.trans_lt hmax)
    obtain ⟨d, ds, rfl⟩ := List.exists_cons_of_length_pos (hlength ▸ two_pos)
    have hne : d.digitChar ≠ separator := by
      rintro rfl
      rw [(digitChar_spec (hds d (by simp))).1] at hseparator
      cases hseparator
    have htext : FieldForm.text separator ⟨false, value⟩ ++ rest =
        d.digitChar :: (digitText ds ++ rest) := by
      simp [FieldForm.text, hpad]
    rw [hpad, digitText_cons, List.cons_append] at hread
    rw [htext, field?, if_neg hne, hread]
    rfl

/-- A pair of fields is read first, if no field follows. -/
theorem fieldPairs_pairText (hseparator : digitValue? 10 separator = none) (hmax₁ : max₁ < 100)
    (hmax₂ : max₂ < 100) (pair : Option (FieldForm max₁ × Option (FieldForm max₂)))
    (h : Stops separator rest) :
    ∃ others, fieldPairs separator max₁ max₂ (pairText separator pair ++ rest) =
      ((pair.map (·.1)).map FieldForm.field, (pair.bind (·.2)).map FieldForm.field, rest) ::
        others := by
  -- The first answer is the longest one, so what is there is read before it is left out.
  rcases pair with _ | ⟨first, _ | second⟩
  · rw [pairText, List.nil_append, fieldPairs, h.field?]
    exact ⟨_, rfl⟩
  · rw [pairText, fieldPairs, field?_text hseparator hmax₁]
    simp only [h.field?]
    exact ⟨_, rfl⟩
  · rw [pairText, List.append_assoc, fieldPairs, field?_text hseparator hmax₁]
    simp only [field?_text hseparator hmax₂]
    exact ⟨_, rfl⟩

end

/-! ## The time and what follows it -/

/-- Nothing but a precision follows. -/
def Ends (cs : List Char) : Prop := ∀ c ∈ cs.head?, c = '/'

theorem Ends.stops {separator : Char} {cs : List Char} (h : Ends cs) (hne : separator ≠ '/') :
    Stops separator cs := by
  intro c hc
  rw [h c hc]
  exact ⟨hne.symm, by decide⟩

theorem DateForm.ends_precisionText (f : DateForm) : Ends f.precisionText := by
  intro c hc
  unfold precisionText at hc
  split at hc
  next => cases hc
  next => exact (Option.some.inj hc).symm

theorem DateForm.precision?_precisionText (f : DateForm) :
    precision? f.precisionText = some (f.precision.map (·.2.val)) := by
  have hread : ∀ (padded : Bool) (p : Fin 20),
      precision? ('/' :: pad (if padded then 2 else 1) p) = some (some p.val) := by
    decide +kernel
  unfold precisionText
  split
  next hprecision =>
    rw [hprecision]
    rfl
  next padded p hprecision =>
    rw [hprecision]
    exact hread padded p

/-- What is written for a zone has no field before it that could take its digits. -/
theorem stops_zone (zone : Option ZoneForm) {rest : List Char} (h : Ends rest) :
    Stops ':' ((zone.map ZoneForm.text).getD [] ++ rest) := by
  rcases zone with _ | _ | ⟨west, hours, minutes⟩
  · exact h.stops (by decide)
  · rintro c ⟨⟩
    decide
  · rintro c ⟨⟩
    cases west <;> decide

theorem zones_zoneText (zone : Option ZoneForm) {rest : List Char} (h : Ends rest) :
    ∃ others, zones ((zone.map ZoneForm.text).getD [] ++ rest) =
      (zone.map ZoneForm.zone, rest) :: others := by
  rcases zone with _ | _ | ⟨west, hours, minutes⟩
  · match rest with
    | [] => exact ⟨_, rfl⟩
    | c :: rest =>
      obtain rfl : c = '/' := h c rfl
      exact ⟨_, rfl⟩
  · exact ⟨_, rfl⟩
  · have hhours : hours.val ≤ 23 := Nat.lt_succ_iff.1 hours.isLt
    have hread := twoDigits?_pad hhours (by decide)
      ((minutes.map (FieldForm.text ':')).getD [] ++ rest)
    have htext : ((some (ZoneForm.offset west hours minutes)).map ZoneForm.text).getD [] ++ rest =
        (if west then '-' else '+') ::
          (pad 2 hours ++ ((minutes.map (FieldForm.text ':')).getD [] ++ rest)) := by
      simp [ZoneForm.text]
    rw [htext]
    cases minutes with
    | none =>
      have hstops : field? ':' 59 rest = none := (h.stops (by decide)).field?
      simp only [Option.map_none, Option.getD_none, List.nil_append] at hread
      cases west <;> simp [zones, hread, hstops, ZoneForm.zone]
    | some minutes =>
      have hfield : field? ':' 59 (minutes.text ':' ++ rest) = some (minutes.field, rest) :=
        field?_text (by decide) (by decide) minutes rest
      simp only [Option.map_some, Option.getD_some] at hread
      cases west <;> simp [zones, hread, hfield, ZoneForm.zone, FieldForm.field]

/-- A time with its zone is read first, and if there is none, no time is read. -/
theorem times_text (time : Option TimeForm) {rest : List Char} (h : Ends rest) :
    ∃ others, times ((time.map TimeForm.text).getD [] ++ rest) =
      (time.map (·.hour.val), ((time.bind (·.clock)).map (·.1)).map FieldForm.field,
        ((time.bind (·.clock)).bind (·.2)).map FieldForm.field,
        (time.bind (·.zone)).map ZoneForm.zone, rest) :: others := by
  rcases time with _ | ⟨hour, clock, zone⟩
  · match rest with
    | [] => exact ⟨_, rfl⟩
    | c :: rest =>
      obtain rfl : c = '/' := h c rfl
      exact ⟨_, rfl⟩
  · have hhour := twoDigits?_pad (Nat.lt_succ_iff.1 hour.isLt) (by decide)
      (pairText ':' clock ++ ((zone.map ZoneForm.text).getD [] ++ rest))
    obtain ⟨pairs, hpairs⟩ :=
      fieldPairs_pairText (by decide) (by decide) (by decide) clock (stops_zone zone h)
    obtain ⟨others, hzones⟩ := zones_zoneText zone h
    have htext : ((some (TimeForm.mk hour clock zone)).map TimeForm.text).getD [] ++ rest =
        'T' :: (pad 2 hour ++ (pairText ':' clock ++
          ((zone.map ZoneForm.text).getD [] ++ rest))) := by
      simp [TimeForm.text]
    rw [htext, times]
    simp only [hhour, hpairs, hzones, List.flatMap_cons, List.map_cons, List.cons_append]
    exact ⟨_, rfl⟩

/-! ## Dates -/

namespace DateForm

variable {f : DateForm}

theorem stops_time (time : Option TimeForm) {rest : List Char} (h : Ends rest) :
    Stops '-' ((time.map TimeForm.text).getD [] ++ rest) := by
  cases time with
  | none => exact h.stops (by decide)
  | some time =>
    rintro c ⟨⟩
    decide

/-- **The fields behind the year are read as they are written.** -/
theorem fields?_text (f : DateForm) :
    fields? (pairText '-' f.monthDay ++ ((f.time.map TimeForm.text).getD [] ++ f.precisionText)) =
      some f.fields := by
  obtain ⟨pairs, hpairs⟩ := fieldPairs_pairText (by decide) (by decide) (by decide) f.monthDay
    (stops_time f.time f.ends_precisionText)
  obtain ⟨others, htimes⟩ := times_text f.time f.ends_precisionText
  rw [fields?, hpairs]
  simp only [List.findSome?_cons, htimes, f.precision?_precisionText, Option.map_some]
  simp [fields, month, day, hour, minute, second, zone, Function.comp_def]

theorem readFields?_text (f : DateForm) :
    readFields? (f.text.tail) = some ((f.year.val : Int), f.fields) :=
  readFields?_pad f.year.isLt f.fields?_text

theorem ofFields_fields (f : DateForm) : Moment.ofFields f.year f.fields = f.moment := by
  simp [Moment.ofFields, fields, moment, Function.comp_def, FieldForm.field]

theorem uniform_iff : f.fields.uniform = true ↔ f.IsUniform := by
  have hmarks : (([f.fields.month, f.fields.day, f.fields.minute, f.fields.second].filterMap
      id).map Field.separated) = f.marks := by
    simp only [fields, marks]
    rcases f.month with _ | _ <;> rcases f.day with _ | _ <;> rcases f.minute with _ | _ <;>
      rcases f.second with _ | _ <;> rfl
  rw [Fields.uniform, hmarks]
  simp [IsUniform]

theorem map_field_eq_zero_iff {max : Nat} {field? : Option (FieldForm max)} :
    (field?.map FieldForm.field).map Field.value = some 0 ↔ ∃ f ∈ field?, f.value = 0 := by
  cases field? with
  | none => simp
  | some f =>
    show some f.value.val = some 0 ↔ ∃ g ∈ some f, g.value = 0
    simp only [Option.some.injEq, Option.mem_some_iff, exists_eq_left', Fin.ext_iff, Fin.val_zero]

/-- **Of a date with uniform separators, the check refuses a field outside its domain.** -/
theorem check_of_isUniform (h : f.IsUniform) (text : String) :
    (check text f.year.val f.fields = .ok () ↔ ¬ f.IsFault) ∧
      ∀ e, check text f.year.val f.fields = .error e → e.kind = .outOfRange := by
  have hfits : FitsInt64 (f.year.val : Int) := by
    have hlt := f.year.isLt
    unfold FitsInt64
    omega
  have hyear : ((f.year.val : Int) < firstYear ∨ lastYear < (f.year.val : Int)) ↔
      (f.year.val < 1583 ∨ 2100 < f.year.val) := by
    unfold firstYear lastYear
    omega
  have hhour : f.fields.hour = some 24 ↔ f.hour = some 24 := by
    show f.hour.map (·.val) = some 24 ↔ f.hour = some 24
    cases f.hour with
    | none => simp
    | some hour => simp [Fin.ext_iff]
  have hmonth : f.fields.month.map Field.value = some 0 ↔ _ := map_field_eq_zero_iff
  have hday : f.fields.day.map Field.value = some 0 ↔ _ := map_field_eq_zero_iff
  unfold check IsFault
  rw [uniform_iff.2 h, if_neg (by simp), if_neg (by simpa using hfits), ← hmonth, ← hday,
    ← hhour, ← or_assoc, ← hyear]
  constructor
  · split_ifs with hyear hmonth hday hhour
    · exact iff_of_false nofun fun hfault => hfault (.inl hyear)
    · exact iff_of_false nofun fun hfault => hfault (.inr (.inl hmonth))
    · exact iff_of_false nofun fun hfault => hfault (.inr (.inr (.inl hday)))
    · exact iff_of_false nofun fun hfault => hfault (.inr (.inr (.inr hhour)))
    · refine iff_of_true rfl ?_
      rintro (h | h | h | h)
      exacts [hyear h, hmonth h, hday h, hhour h]
  · intro e he
    split_ifs at he <;> cases he <;> rfl

theorem check_of_not_isUniform (h : ¬ f.IsUniform) (text : String) :
    check text f.year.val f.fields = .error (.mixedSeparators text) := by
  have hmixed : f.fields.uniform = false := by
    rwa [← uniform_iff, Bool.not_eq_true] at h
  unfold check
  rw [hmixed, if_pos (by rfl)]

theorem read_text (f : DateForm) : read (String.ofList f.text) =
    (check (String.ofList f.text) f.year.val f.fields).map fun _ => f.value := by
  have hprecision : f.fields.precision.map UInt8.ofNat = f.value.precision := by
    simp [fields, value, Function.comp_def]
  unfold read
  rw [String.toList_ofList, f.readFields?_text]
  simp only [Moment.normalText_eq, Int.toNat_natCast, f.ofFields_fields, hprecision]
  cases check (String.ofList f.text) f.year.val f.fields <;> rfl

end DateForm

end PointInTime

namespace Literal

open PointInTime

/-- **A date is read by its fields**, in either form and whatever is left out. -/
theorem decode_of_dateForm (f : DateForm) :
    let decoded := decode (String.ofList f.text)
    (¬ f.IsUniform → ∃ e, decoded = .error e ∧ e.kind = .malformed) ∧
    (f.IsUniform → ((∃ e, decoded = .error e ∧ e.kind = .outOfRange) ↔ f.IsFault) ∧
      (¬ f.IsFault → decoded = .ok (.pointInTime f.value) ∧
        ofParts f.value.text f.value.precision none = .ok f.value)) := by
  intro decoded
  have hread : decoded =
      (check (String.ofList f.text) f.year.val f.fields).map fun _ => pointInTime f.value := by
    show decode (String.ofList f.text) = _
    rw [decode_pointInTime (by rw [String.toList_ofList]; rfl), f.read_text]
    cases check (String.ofList f.text) f.year.val f.fields <;> rfl
  refine ⟨fun h => ?_, fun h => ?_⟩
  · rw [hread, DateForm.check_of_not_isUniform h]
    exact ⟨_, rfl, rfl⟩
  · obtain ⟨hok, hkind⟩ := DateForm.check_of_isUniform h (String.ofList f.text)
    have hsound := f.read_text
    cases hcheck : check (String.ofList f.text) f.year.val f.fields with
    | error e =>
      have hfault : f.IsFault := by
        by_contra hfault
        rw [hok.2 hfault] at hcheck
        cases hcheck
      rw [hread, hcheck]
      exact ⟨iff_of_true ⟨e, rfl, hkind e hcheck⟩ hfault, fun hnot => absurd hfault hnot⟩
    | ok =>
      rw [hcheck] at hsound
      have hvalid : f.value.WellFormed := wellFormed_of_read hsound
      rw [hread, hcheck]
      exact ⟨iff_of_false (fun ⟨e, he, _⟩ => nomatch he) (hok.1 hcheck),
        fun _ => ⟨rfl, hvalid.ofParts_text⟩⟩

/-- A time in the basic form with a zone whose minutes look like those of the time. -/
theorem decode_of_dateForm_basic :
    let f : DateForm := ⟨2021, some (⟨false, 6⟩, some ⟨false, 1⟩),
      some ⟨10, some (⟨false, 30⟩, none), some (.offset true 3 (some ⟨true, 30⟩))⟩,
      some (true, 9)⟩
    String.ofList f.text = "^20210601T1030-03:30/09" ∧ f.IsUniform ∧ ¬ f.IsFault ∧
      decode "^20210601T1030-03:30/09" =
        .ok (.pointInTime ⟨"2021-06-01T10:30:00-03:30", some 9, none⟩) := by
  intro f
  have htext : String.ofList f.text = "^20210601T1030-03:30/09" := by decide +kernel
  have hvalue : f.value = ⟨"2021-06-01T10:30:00-03:30", some 9, none⟩ := by decide +kernel
  have huniform : f.IsUniform := .inr (by decide)
  have hfault : ¬ f.IsFault := by
    simp [f, DateForm.IsFault, DateForm.month, DateForm.day, DateForm.hour]
  obtain ⟨hread, -⟩ := ((decode_of_dateForm f).2 huniform).2 hfault
  rw [htext, hvalue] at hread
  exact ⟨htext, huniform, hfault, hread⟩

end Literal

end FactGraph
