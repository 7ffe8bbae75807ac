import FactGraph.Literal.Numeral

/-!
# Points in time

A date with an optional time and zone, written after `^` in the extended form
`^2021-06-01T10:30:00+02:00` or in the basic form `^20210601T103000+0200`, optionally with a
precision behind a slash. It is kept in the normal form `YYYY-MM-DDTHH:MM:SS` with the zone
`Z` or `±HH:MM`: an absent month or day is `01`, an absent time `00`, an absent zone `Z`.

In the basic form a run of digits can be divided in several ways. The year takes as few of
them as possible, at least four, and every later field is taken if it can be.
-/

namespace FactGraph

/-- A point in time. The text is the normal form when the value was read from a literal; the
calendar is not part of the written form. -/
structure PointInTime where
  text : String
  precision : Option UInt8
  calendar : Option String
  deriving DecidableEq, Repr

namespace PointInTime

/-- The written form. -/
def render (t : PointInTime) : List Char :=
  '^' :: t.text.toList ++
    match t.precision with
    | some p => '/' :: (toString p.toNat).toList
    | none => []

/-! ## The fields of a written date -/

/-- A field of two digits, and whether a separator stood before it. -/
structure Field where
  separated : Bool
  value : Nat
  deriving DecidableEq, Repr

inductive Zone where
  | utc
  | offset (west : Bool) (hours minutes : Nat)
  deriving DecidableEq, Repr

/-- The fields after the year. -/
structure Fields where
  month : Option Field
  day : Option Field
  hour : Option Nat
  minute : Option Field
  second : Option Field
  zone : Option Zone
  precision : Option Nat
  deriving DecidableEq, Repr

/-- Two digits with a value of at most `max`. -/
def twoDigits? (max : Nat) : List Char → Option (Nat × List Char)
  | a :: b :: rest => do
    let tens ← digitValue? 10 a
    let ones ← digitValue? 10 b
    if 10 * tens + ones ≤ max then some (10 * tens + ones, rest) else none
  | _ => none

/-- Two digits, with or without the separator before them. -/
def field? (separator : Char) (max : Nat) (cs : List Char) : Option (Field × List Char) :=
  match cs with
  | c :: rest =>
    if c = separator then (twoDigits? max rest).map fun (n, rest) => (⟨true, n⟩, rest)
    else (twoDigits? max cs).map fun (n, rest) => (⟨false, n⟩, rest)
  | [] => none

/-- The ways to read a field and one after it: both, the first alone, none. -/
def fieldPairs (separator : Char) (max₁ max₂ : Nat) (cs : List Char) :
    List (Option Field × Option Field × List Char) :=
  (match field? separator max₁ cs with
   | some (first, rest) =>
     (match field? separator max₂ rest with
      | some (second, rest) => [(some first, some second, rest)]
      | none => []) ++ [(some first, none, rest)]
   | none => []) ++ [(none, none, cs)]

/-- The ways to read a zone: hours with minutes, hours alone, none. -/
def zones (cs : List Char) : List (Option Zone × List Char) :=
  (match cs with
   | 'Z' :: rest => [(some .utc, rest)]
   | sign :: rest =>
     if sign = '+' ∨ sign = '-' then
       match twoDigits? 23 rest with
       | some (hours, rest) =>
         (match field? ':' 59 rest with
          | some (minutes, rest) => [(some (.offset (sign = '-') hours minutes.value), rest)]
          | none => []) ++ [(some (.offset (sign = '-') hours 0), rest)]
       | none => []
     else []
   | [] => []) ++ [(none, cs)]

/-- The end of the text: nothing, or a slash and a precision of one or two digits. -/
def precision? : List Char → Option (Option Nat)
  | [] => some none
  | ['/', a] => (digitValue? 10 a).map some
  | ['/', a, b] => do
    let tens ← digitValue? 10 a
    let ones ← digitValue? 10 b
    if tens ≤ 1 then some (some (10 * tens + ones)) else none
  | _ => none

/-- The ways to read a time with its zone behind a `T`, and not to read one. -/
def times (cs : List Char) :
    List (Option Nat × Option Field × Option Field × Option Zone × List Char) :=
  (match cs with
   | 'T' :: rest =>
     match twoDigits? 24 rest with
     | some (hour, rest) =>
       (fieldPairs ':' 59 59 rest).flatMap fun (minute, second, rest) =>
         (zones rest).map fun (zone, rest) => (some hour, minute, second, zone, rest)
     | none => []
   | _ => []) ++ [(none, none, none, none, cs)]

/-- The fields after the year: the first way of reading that uses up the text. -/
def fields? (cs : List Char) : Option Fields :=
  (fieldPairs '-' 12 31 cs).findSome? fun (month, day, rest) =>
    (times rest).findSome? fun (hour, minute, second, zone, rest) =>
      (precision? rest).map fun precision =>
        { month, day, hour, minute, second, zone, precision }

/-- The digits of the year, most significant first, and the fields after it. `seen` holds the
digits passed so far, backwards. -/
def yearFrom? (seen : List Nat) (cs : List Char) : Option (List Nat × Fields) :=
  match if 4 ≤ seen.length then fields? cs else none with
  | some fields => some (seen.reverse, fields)
  | none =>
    match cs with
    | [] => none
    | c :: rest =>
      match digitValue? 10 c with
      | some d => yearFrom? (d :: seen) rest
      | none => none

/-- The year and the fields after it. -/
def readFields? (cs : List Char) : Option (Int × Fields) :=
  let (negative, rest) := splitSign cs
  (yearFrom? [] rest).map fun (digits, fields) =>
    (Number.signed negative (valueOfDigits 10 digits), fields)

/-! ## The normal form -/

/-- Separators stand before all of the fields that may have one, or before none. -/
def Fields.uniform (f : Fields) : Bool :=
  let marks := ([f.month, f.day, f.minute, f.second].filterMap id).map Field.separated
  marks.all id || marks.all (!·)

def pad (width n : Nat) : List Char :=
  let digits := Nat.toDigits 10 n
  List.replicate (width - digits.length) '0' ++ digits

def Zone.render : Zone → List Char
  | .utc => ['Z']
  | .offset west hours minutes =>
    (if west then '-' else '+') :: pad 2 hours ++ ':' :: pad 2 minutes

/-- The normal form of the fields. -/
def normalText (year : Nat) (f : Fields) : List Char :=
  let two (field : Option Field) (absent : Nat) := pad 2 ((field.map Field.value).getD absent)
  pad 4 year ++ '-' :: two f.month 1 ++ '-' :: two f.day 1
    ++ 'T' :: pad 2 (f.hour.getD 0) ++ ':' :: two f.minute 0 ++ ':' :: two f.second 0
    ++ (f.zone.getD .utc).render

/-- What can be wrong with fields that were read: first the separators, then the domains of
year, month, day and hour. -/
def check (text : String) (year : Int) (f : Fields) : Except LiteralError Unit :=
  if !f.uniform then .error (.mixedSeparators text)
  else if !FitsInt64 year then .error (.yearTooLarge text)
  else if year < firstYear ∨ lastYear < year then .error (.year year)
  else if f.month.map Field.value = some 0 then .error (.monthZero text)
  else if f.day.map Field.value = some 0 then .error (.dayZero text)
  else if f.hour = some 24 then .error (.endOfDay text)
  else .ok ()

/-- Reads a point in time. -/
def read (text : String) : Except LiteralError PointInTime :=
  match readFields? text.toList.tail with
  | none => .error (.pointInTime text)
  | some (year, fields) => do
    check text year fields
    .ok ⟨String.ofList (normalText year.toNat fields), fields.precision.map UInt8.ofNat, none⟩

/-- A value from its parts: the text is read as a literal, and its own precision gives way to
the one that is given. -/
def ofParts (text : String) (precision : Option UInt8) (calendar : Option String) :
    Except LiteralError PointInTime := do
  let t ← read (String.ofList ('^' :: text.toList))
  match precision with
  | some p =>
    if finestPrecision < p.toNat then .error (.precision p.toNat)
    else .ok ⟨t.text, precision, calendar⟩
  | none => .ok ⟨t.text, precision, calendar⟩

end PointInTime

end FactGraph
