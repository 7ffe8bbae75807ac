import FactGraph.Literal.Error

/-!
# What can go wrong

Failures are causes. `StoreError.message` is the one place that words them.

Some causes carry no detail: a statement that the tables refuse (`query`), a schema statement
that they refuse (`schema`), a transaction inside another (`transaction`) and a database that
cannot be opened (`connection`).
-/

namespace FactGraph

/-- The place in a file where a record starts: the line, counted from one by line feeds, and
the number of bytes before it. -/
structure Position where
  line : Nat
  byte : Nat
  deriving DecidableEq, Repr

/-- What can be wrong with an input. -/
inductive InvalidInput where
  /-- A tagged row whose tag names no kind. -/
  | rowTag (id tag : String)
  /-- A row of kind `tag` without a column that its kind needs. -/
  | rowField (id tag field : String)
  /-- A file without a column that it needs. -/
  | column (name : String)
  /-- A record with a field that is no text: `valid` bytes of it are. -/
  | encoding (record : Nat) (start : Position) (field valid : Nat)
  | edgeId
  | edgeNode1 (id : String)
  | edgeLabel (id : String)
  | edgeKind (id tag valueTag : String)
  | unset (field : String)
  | shortName (name : String)
  | blankInside (field value : String)
  | url (text : String)
  | flagValue (flag : String)
  | flagMissing (flag : String)
  | limit (value : String)
  | command (name : String)
  | openFile (path : String)
  | createFile (path : String)
  | directory
  | noRoom
  | row (line : Nat) (name text : String)
  deriving DecidableEq, Repr

namespace InvalidInput

def message : InvalidInput → String
  | rowTag id tag => s!"edge {id} has unknown data type tag `{tag}`"
  | rowField id tag field => s!"edge {id} ({tag}) is missing `{field}`"
  | column name => s!"missing required column `{name}`"
  | encoding record start field valid =>
    s!"CSV parse error: record {record} (line {start.line}, field: {field}, byte: {start.byte}): "
      ++ s!"invalid utf-8: invalid UTF-8 in field {field} near byte index {valid}"
  | edgeId => "edge id must be set"
  | edgeNode1 id => s!"edge {id} has an empty node1"
  | edgeLabel id => s!"edge {id} has an empty label"
  | edgeKind id tag valueTag => s!"edge {id} is tagged {tag} but carries a {valueTag} value"
  | unset field => s!"{field} must be set"
  | shortName name => s!"short name `{name}` must match [A-Za-z0-9_-]+"
  | blankInside field value => s!"{field} `{value}` must not contain whitespace"
  | url text => s!"dataset url `{text}` must start with http"
  | flagValue flag => s!"missing value for {flag}"
  | flagMissing flag => s!"{flag} is required"
  | limit value => s!"--limit expects an integer, got {value}"
  | command name => s!"unknown command {name}; see --help"
  | openFile path => s!"cannot open {path}"
  | createFile path => s!"cannot create {path}"
  | directory => "Is a directory (os error 21)"
  | noRoom => "No space left on device (os error 28)"
  | row line name text => s!"line {line} column {name}: {text}"

end InvalidInput

/-- What was looked for in vain. -/
inductive Missing where
  | edge (id : String)
  | value (id : String)
  | dataset (node : String)
  | property (variableNode : String)
  deriving DecidableEq, Repr

def Missing.message : Missing → String
  | edge id => s!"edge {id}"
  | value id => s!"value for edge {id}"
  | dataset node => s!"dataset {node}"
  | property variableNode => s!"variable {variableNode} has no corresponding property"

/-- The counts of an integrity report that are no faults when zero. -/
structure IntegrityCounts where
  missing : Nat
  mismatched : Nat
  orphan : Nat
  duplicate : Nat
  deriving DecidableEq, Repr

def IntegrityCounts.message (c : IntegrityCounts) : String :=
  s!"{c.missing} missing, {c.mismatched} mismatched, {c.orphan} orphan, {c.duplicate} duplicate"

/-- Why an operation failed. -/
inductive StoreError where
  | connection
  | schema
  | newerSchema (version supported : Int)
  | query
  | duplicateQualifier (name : String)
  | integrity (counts : IntegrityCounts)
  | transaction
  | notFound (what : Missing)
  | invalidInput (cause : InvalidInput)
  | literal (cause : LiteralError)
  | unknownDatatype (name : String)
  | ambiguousLocation (first second : String)
  | importConflict (id : String)
  deriving DecidableEq, Repr

namespace StoreError

instance : Coe LiteralError StoreError := ⟨literal⟩
instance : Coe InvalidInput StoreError := ⟨invalidInput⟩

/-- The wording of a failure. Causes without detail are named by their class only. -/
def message : StoreError → String
  | connection => "connection error"
  | schema => "schema error"
  | newerSchema version supported =>
    s!"schema error: database schema version {version} is newer than supported {supported}"
  | query => "query error"
  | duplicateQualifier name => s!"query error: duplicate qualifier name {name}"
  | integrity counts => "query error: integrity violations detected: " ++ counts.message
  | transaction => "transaction error"
  | notFound what => "not found: " ++ what.message
  | invalidInput cause => "invalid input: " ++ cause.message
  | literal cause => cause.report
  | unknownDatatype name => s!"unknown wikidata datatype: {name}"
  | ambiguousLocation first second =>
    s!"ambiguous location: {first} and {second} both resolve to a location"
  | importConflict id => s!"import conflict: edge {id} already exists"

end StoreError

end FactGraph
