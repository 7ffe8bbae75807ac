import FactGraph.Literal.Numeral

/-!
# Coordinates

A place on the globe, written `@latitude/longitude` in plain decimals. Latitudes lie in
`[-90, 90]` and longitudes in `[-180, 180]`.
-/

namespace FactGraph

/-- A place on the globe. The precision is not part of the written form. -/
structure Coordinate where
  latitude : Binary64
  longitude : Binary64
  precision : Option Binary64
  deriving DecidableEq, Repr

namespace Coordinate

/-- `x` lies between minus `bound` and `bound`. -/
def within (bound : Nat) (x : Binary64) : Bool :=
  (Binary64.ofInt (-bound)).numLe x && x.numLe (Binary64.ofInt bound)

/-- The place at these degrees, if they are in range. -/
def ofDegrees (latitude longitude : Binary64) : Except LiteralError Coordinate :=
  if !within 90 latitude then .error (.latitude latitude)
  else if !within 180 longitude then .error (.longitude longitude)
  else .ok ⟨latitude, longitude, none⟩

/-- The written form. -/
def render (c : Coordinate) : List Char :=
  '@' :: NumberForm.column.render c.latitude ++ '/' :: NumberForm.column.render c.longitude

/-- Reads a plain decimal: an optional sign, digits, and optionally a point with further
digits; digits may be missing on one side of the point. -/
def degrees? (cs : List Char) : Option Binary64 :=
  let (negative, rest) := splitSign cs
  let (whole, pointed) := rest.span Char.isDigit
  let fraction := pointed.tail
  if (pointed.isEmpty || pointed.head? = some '.') && fraction.all Char.isDigit
      && !(whole.isEmpty && fraction.isEmpty) then
    some (Binary64.ofDecimal negative
      (valueOfDigits 10 ((whole ++ fraction).filterMap (digitValue? 10))) (-fraction.length))
  else none

/-- Reads what follows the sign of a coordinate. -/
def readDegrees? (cs : List Char) : Option (Binary64 × Binary64) :=
  match cs.span (· ≠ '/') with
  | (latitude, _ :: longitude) => do
    let latitude ← degrees? latitude
    let longitude ← degrees? longitude
    some (latitude, longitude)
  | (_, []) => none

/-- Reads a coordinate. -/
def read (text : String) : Except LiteralError Coordinate :=
  match readDegrees? text.toList.tail with
  | some (latitude, longitude) => ofDegrees latitude longitude
  | none => .error (.coordinate text)

end Coordinate

end FactGraph
