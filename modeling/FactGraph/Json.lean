import FactGraph.Literal.Basic

/-!
# Printed answers

Answers are printed as JSON: compact, the fields of an object in the order of their names, and
doubles with the fewest digits that read back. An infinite double is printed as null.
-/

namespace FactGraph

inductive JsonValue where
  | null
  | bool (value : Bool)
  | int (value : Int)
  | double (value : Binary64)
  | text (text : String)
  | list (items : List JsonValue)
  | object (fields : List (String × JsonValue))

namespace JsonValue

/-- Puts a field at its place by name; one of that name gives way. -/
def insertField (field : String × JsonValue) :
    List (String × JsonValue) → List (String × JsonValue)
  | [] => [field]
  | f :: rest =>
    if field.1 < f.1 then field :: f :: rest
    else if f.1 < field.1 then f :: insertField field rest
    else field :: rest

/-- The object with these fields in the order of their names, the last of each name. -/
def ofFields (fields : List (String × JsonValue)) : JsonValue :=
  object (fields.foldl (fun sorted f => insertField f sorted) [])

def ofText? : Option String → JsonValue
  | some t => text t
  | none => null

def ofNat (n : Nat) : JsonValue := int n

/-! ## Text -/

/-- Four hexadecimal digits. -/
def hexadecimal (n : Nat) : List Char :=
  let digits := Nat.toDigits 16 n
  List.replicate (4 - digits.length) '0' ++ digits

/-- A character inside quotes. -/
def escapeChar (c : Char) : List Char :=
  if c = '"' then ['\\', '"']
  else if c = '\\' then ['\\', '\\']
  else if c = '\n' then ['\\', 'n']
  else if c = '\r' then ['\\', 'r']
  else if c = '\t' then ['\\', 't']
  else if c.toNat = 8 then ['\\', 'b']
  else if c.toNat = 12 then ['\\', 'f']
  else if c.toNat < 32 then '\\' :: 'u' :: hexadecimal c.toNat
  else [c]

def quote (t : String) : List Char := '"' :: t.toList.flatMap escapeChar ++ ['"']

/-- A double, or null where it has no decimal. -/
def renderDouble (x : Binary64) : List Char :=
  if x.isFinite then NumberForm.answer.render x else "null".toList

mutual

def render : JsonValue → List Char
  | null => "null".toList
  | bool b => (if b then "true" else "false").toList
  | int n => (toString n).toList
  | double x => renderDouble x
  | text t => quote t
  | list items => '[' :: renderItems items ++ [']']
  | object fields => '{' :: renderFields fields ++ ['}']

/-- The items with commas between them. -/
def renderItems : List JsonValue → List Char
  | [] => []
  | [item] => item.render
  | item :: rest => item.render ++ ',' :: renderItems rest

/-- The fields with commas between them. -/
def renderFields : List (String × JsonValue) → List Char
  | [] => []
  | [(name, value)] => quote name ++ ':' :: value.render
  | (name, value) :: rest => quote name ++ ':' :: value.render ++ ',' :: renderFields rest

end

def print (value : JsonValue) : String := String.ofList value.render

/-! ## Literals -/

def ofNumber : Number → JsonValue
  | .int v => int v.toInt
  | .float x => double x

def ofBinary64? : Option Binary64 → JsonValue
  | some x => double x
  | none => null

/-- The name of what a literal is, and its parts. -/
def ofLiteral (l : Literal) : JsonValue :=
  let tagged (name : String) (value : JsonValue) := ofFields [("kind", text name), ("value", value)]
  match l with
  | .text t => tagged "str" (text t)
  | .tagged t =>
    tagged "lang_str" (ofFields
      [("text", text t.text), ("language", text t.language), ("suffix", ofText? t.suffix)])
  | .quantity q =>
    tagged "quantity" (ofFields
      [("number", ofNumber q.number), ("low_tolerance", ofBinary64? q.lowTolerance),
       ("high_tolerance", ofBinary64? q.highTolerance), ("si_units", ofText? q.siUnits),
       ("units_node", ofText? q.unitsNode)])
  | .coordinate c =>
    tagged "coordinate" (ofFields
      [("latitude", double c.latitude), ("longitude", double c.longitude),
       ("precision", ofBinary64? c.precision)])
  | .pointInTime t =>
    tagged "date_time" (ofFields
      [("date_and_time", text t.text),
       ("precision", match t.precision with
         | some p => ofNat p.toNat
         | none => null),
       ("calendar", ofText? t.calendar)])
  | .symbol s => tagged "symbol" (text s)

end JsonValue

end FactGraph
