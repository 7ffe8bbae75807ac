import FactGraph.CommandLine.Arguments
import FactGraph.Literal.Numeral
import FactGraph.Place

/-!
# Commands

A command with its flags read. Flags are read in the order in which they are named here, and the
first that is missing decides.
-/

namespace FactGraph

/-- The commands. -/
inductive Command where
  | status
  | migrate (dryRun : Bool)
  | importFile (input : String) (isStrict failFast : Bool)
  | exportFile (output : String) (exploded : Bool)
  | explode (input output : String) (failFast : Bool)
  | implode (input output : String)
  | decode (value : String)
  | query (property dataset : String) (columns : List String) (limit : Int64)
    (places : PlaceFilter)
  | delete (dataset : String) (properties : List String)
  | check
  deriving DecidableEq, Repr

namespace Command

/-- The limit of a query that names none. -/
def standardLimit : Int64 := 1000

/-- An integer of 64 bits in decimal digits, with or without a sign. -/
def readInt64? (text : String) : Option Int64 :=
  let (negative, digits) := splitSign text.toList
  if digits.isEmpty then none
  else do
    let n := valueOfDigits 10 (← digits.mapM (digitValue? 10))
    let z := Number.signed negative n
    if FitsInt64 z then some (Int64.ofInt z) else none

def limitOf (args : List String) : Except InvalidInput Int64 := do
  match ← Flags.value? "--limit" args with
  | none => .ok standardLimit
  | some text =>
    match readInt64? text with
    | some n => .ok n
    | none => .error (.limit text)

def placesOf (args : List String) : Except InvalidInput PlaceFilter := do
  .ok ⟨← Flags.list args "--country", ← Flags.list args "--admin1",
    ← Flags.list args "--admin2", ← Flags.list args "--admin3"⟩

/-- Reads the command of this name. -/
def read (name : String) (args : List String) : Except InvalidInput Command :=
  match name with
  | "status" => .ok .status
  | "migrate" => .ok (.migrate (Flags.has args "--dry-run"))
  | "import" => do
    .ok (.importFile (← Flags.required args "--input") (Flags.has args "--strict")
      (Flags.has args "--fail-fast"))
  | "export" => do
    .ok (.exportFile (← Flags.required args "--output") (Flags.has args "--exploded"))
  | "explode" => do
    .ok (.explode (← Flags.required args "--input") (← Flags.required args "--output")
      (Flags.has args "--fail-fast"))
  | "implode" => do
    .ok (.implode (← Flags.required args "--input") (← Flags.required args "--output"))
  | "decode" => do .ok (.decode (← Flags.required args "--value"))
  | "query" => do
    .ok (.query (← Flags.required args "--property") (← Flags.required args "--dataset")
      (← Flags.list args "--columns") (← limitOf args) (← placesOf args))
  | "delete" => do
    let dataset ← Flags.required args "--dataset"
    let properties ← Flags.list args "--property"
    if properties.isEmpty then .error (.flagMissing "--property")
    else .ok (.delete dataset properties)
  | "check" => .ok .check
  | _ => .error (.command name)

end Command

end FactGraph
