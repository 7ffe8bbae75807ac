import FactGraph.Error
import FactGraph.Text.Blank

/-!
# Arguments

A command line is options, the name of a command, and the arguments of the command. Options stand
before the command; all that follows belongs to it. The arguments of a command are flags, some of
which have a value.
-/

namespace FactGraph

/-- What to do: which database to open and which command to run. -/
structure Invocation where
  database : String
  command : String
  arguments : List String
  verbose : Bool
  deriving DecidableEq, Repr

/-- What can be wrong with the options. -/
inductive UsageError where
  | databaseValue
  | commandValue
  | unknownFlag (flag : String)
  deriving DecidableEq, Repr

def UsageError.message : UsageError → String
  | databaseValue => "--db requires a value"
  | commandValue => "--command requires a value"
  | unknownFlag flag => "unknown flag " ++ flag

namespace Invocation

/-- The status of a database in memory. -/
def standard : Invocation := ⟨"memory", "status", [], false⟩

/-- The name of a database that is not kept. -/
def isInMemory (i : Invocation) : Bool := i.database = "memory"

/-- Reads the options from left to right, up to the command. -/
def readFrom (i : Invocation) : List String → Except UsageError Invocation
  | [] => .ok i
  | arg :: rest =>
    if arg = "--db" ∨ arg = "--database" then
      match rest with
      | [] => .error .databaseValue
      | value :: rest => readFrom { i with database := value } rest
    else if arg = "--command" then
      match rest with
      | [] => .error .commandValue
      | name :: rest => .ok { i with command := name, arguments := rest }
    else if arg = "--verbose" ∨ arg = "-v" then readFrom { i with verbose := true } rest
    else if arg.toList.head? = some '-' then .error (.unknownFlag arg)
    else .ok { i with command := arg, arguments := rest }

/-- Reads a command line without the name of the program. -/
def read (args : List String) : Except UsageError Invocation := readFrom standard args

def asksForHelp (args : List String) : Bool := args.any fun arg => arg = "--help" || arg = "-h"

end Invocation

/-- The commands and their flags. -/
def helpLines : List String :=
  ["Usage: edgestore [--db memory|PATH] [--verbose] [--command] COMMAND [ARGS]",
   "",
   "Commands:",
   "  status",
   "  migrate [--dry-run]",
   "  import --input FILE [--strict] [--fail-fast]",
   "  export --output FILE [--exploded]",
   "  explode --input FILE --output FILE [--fail-fast]",
   "  implode --input FILE --output FILE",
   "  decode --value TEXT",
   "  query --property P --dataset Q [--columns a,b] [--country ids] [--admin1 ids]",
   "        [--admin2 ids] [--admin3 ids] [--limit N]",
   "  delete --dataset Q --property P[,P...]",
   "  check"]

def helpText : String := String.join (helpLines.map (· ++ "\n"))

/-! ## Flags -/

namespace Flags

/-- What follows the first flag of this name, which has to be followed by something. -/
def value? (flag : String) : List String → Except InvalidInput (Option String)
  | [] => .ok none
  | arg :: rest =>
    if arg = flag then
      match rest with
      | [] => .error (.flagValue flag)
      | value :: _ => .ok (some value)
    else value? flag rest

/-- The value of a flag that is needed. -/
def required (args : List String) (flag : String) : Except InvalidInput String := do
  match ← value? flag args with
  | some value => .ok value
  | none => .error (.flagMissing flag)

def has (args : List String) (flag : String) : Bool := flag ∈ args

/-- The items of a text between its commas, without blanks around them. -/
def items (text : String) : List String :=
  ((text.toList.splitOn ',').map fun cs => Text.trim (String.ofList cs)).filter (!·.isEmpty)

/-- The items of the value of a flag, none if the flag is absent. -/
def list (args : List String) (flag : String) : Except InvalidInput (List String) := do
  .ok (((← value? flag args).map items).getD [])

end Flags

end FactGraph
