import FactGraph.Schema.Object

/-!
# Designations of tables

A statement names a table by a word or by a text in quotes, after the name of its database if
need be. Upper and lower case are the same. Blanks and comments count for nothing, and what
stands behind the end of a statement is not read.
-/

namespace FactGraph

/-! ## Tokens -/

/-- What a statement is made of. -/
inductive SqlToken where
  | word (text : String)
  | quoted (text : String)
  | mark (char : Char)
  deriving DecidableEq, Repr

namespace SqlToken

def isSpace (c : Char) : Bool :=
  c ∈ [' ', '\t', '\n', '\r', Char.ofNat 0x0C, Char.ofNat 0xFEFF]

def startsWord (c : Char) : Bool := c.isAlpha || c = '_' || 0x7F < c.toNat

def continuesWord (c : Char) : Bool := startsWord c || c.isDigit || c = '$'

/-- The text up to the closing quote, and what follows. A quote inside is written twice. -/
def readQuoted (quote : Char) : List Char → Option (List Char × List Char)
  | [] => none
  | [c] => if c = quote then some ([], []) else none
  | c :: d :: rest =>
    if c = quote then
      if d = quote then (readQuoted quote rest).map fun (text, rest) => (quote :: text, rest)
      else some ([], d :: rest)
    else (readQuoted quote (d :: rest)).map fun (text, rest) => (c :: text, rest)

/-- What follows a comment up to its closing mark, if it is closed. -/
def skipComment : List Char → Option (List Char)
  | '*' :: '/' :: rest => some rest
  | _ :: rest => skipComment rest
  | [] => none

/-- The character that closes a quoted name. -/
def closing? (c : Char) : Option Char :=
  if c = '[' then some ']'
  else if c ∈ ['"', '\'', Char.ofNat 0x60] then some c
  else none

/-- The text of a name in quotes; brackets cannot be written twice. -/
def readName (opening close : Char) (cs : List Char) : Option (List Char × List Char) :=
  if opening = '[' then
    match cs.dropWhile (· ≠ close) with
    | _ :: rest => some (cs.takeWhile (· ≠ close), rest)
    | [] => none
  else readQuoted close cs

/-- The tokens of a statement. The second component tells that the statement goes on behind the
text: it has not ended, and no comment is open. -/
def readAll : Nat → List Char → List SqlToken × Bool
  | 0, _ | _, [] => ([], true)
  | fuel + 1, c :: cs =>
    if c = ';' ∨ c = Char.ofNat 0 then ([], false)
    else if isSpace c then readAll fuel cs
    else if c = '-' ∧ cs.head? = some '-' then
      match cs.dropWhile (· ≠ '\n') with
      | [] => ([], false)
      | rest => readAll fuel rest
    else if c = '/' ∧ cs.head? = some '*' ∧ cs.length ≠ 1 then
      match skipComment cs.tail with
      | none => ([], false)
      | some rest => readAll fuel rest
    else if startsWord c then
      let (tokens, goesOn) := readAll fuel (cs.dropWhile continuesWord)
      (word (String.ofList (c :: cs.takeWhile continuesWord)) :: tokens, goesOn)
    else
      match (closing? c).bind (readName c · cs) with
      | some (text, rest) =>
        let (tokens, goesOn) := readAll fuel rest
        (quoted (String.ofList text) :: tokens, goesOn)
      | none =>
        let (tokens, goesOn) := readAll fuel cs
        (mark c :: tokens, goesOn)

/-- The tokens of a text; each takes a character at least. -/
def tokens (text : String) : List SqlToken × Bool := readAll text.length text.toList

/-- The words that cannot be names without quotes. -/
def reservedWords : List String :=
  ["add", "all", "alter", "and", "as", "autoincrement", "between", "case", "check", "collate",
   "commit", "constraint", "create", "default", "deferrable", "delete", "distinct", "drop",
   "else", "escape", "except", "exists", "foreign", "from", "group", "having", "in", "index",
   "insert", "intersect", "into", "is", "isnull", "join", "limit", "not", "nothing", "notnull",
   "null", "on", "or", "order", "primary", "references", "returning", "select", "set", "table",
   "then", "to", "transaction", "union", "unique", "update", "using", "values", "when", "where"]

def isReserved (text : String) : Bool := text.toLower ∈ reservedWords

/-- The name that a token is. -/
def name? : SqlToken → Option String
  | quoted text => some text
  | word text => if isReserved text then none else some text
  | mark _ => none

/-- The token is this word, which is given in lower case. -/
def isWord (t : SqlToken) (text : String) : Bool :=
  match t with
  | word w => w.toLower = text
  | _ => false

end SqlToken

/-! ## Designations -/

/-- A name of a table, and that of its database if it is given. -/
structure TableDesignation where
  database : Option String
  name : String
  deriving DecidableEq, Repr

namespace TableDesignation

/-- Reads a designation and returns the tokens behind it. -/
def read? : List SqlToken → Option (TableDesignation × List SqlToken)
  | first :: .mark '.' :: second :: rest => do
    some (⟨some (← first.name?), ← second.name?⟩, rest)
  | first :: rest => do some (⟨none, ← first.name?⟩, rest)
  | [] => none

/-- The table of a statement that goes on behind its designation. The table can get another name
for the statement. -/
def ofStatement? (text : String) : Option TableDesignation :=
  match SqlToken.tokens text with
  | (tokens, true) =>
    match read? tokens with
    | some (d, []) => some d
    | some (d, [renamed, name]) => if renamed.isWord "as" then name.name?.map fun _ => d else none
    | _ => none
  | (_, false) => none

/-- The table of a statement that drops one, and whether it may be missing. -/
def ofDrop? (text : String) : Option (TableDesignation × Bool) :=
  let tokens := (SqlToken.tokens text).1
  let mayBeMissing := match tokens with
    | first :: second :: _ => first.isWord "if" && second.isWord "exists"
    | _ => false
  match read? (if mayBeMissing then tokens.drop 2 else tokens) with
  | some (d, []) => some (d, mayBeMissing)
  | _ => none

/-- The tables that list what there is. -/
def catalogues : List String :=
  ["sqlite_master", "sqlite_schema", "sqlite_temp_master", "sqlite_temp_schema"]

/-- The tables that compute their rows. -/
def functions : List String := ["dbstat", "fts3tokenize", "json_each", "json_tree"]

/-- The settings that can be read as a table. -/
def readableSettings : List String :=
  ["analysis_limit", "application_id", "auto_vacuum", "automatic_index", "busy_timeout",
   "cache_size", "cache_spill", "cell_size_check", "checkpoint_fullfsync", "collation_list",
   "compile_options", "count_changes", "data_version", "database_list", "default_cache_size",
   "defer_foreign_keys", "empty_result_callbacks", "encoding", "foreign_key_check",
   "foreign_key_list", "foreign_keys", "freelist_count", "full_column_names", "fullfsync",
   "function_list", "hard_heap_limit", "ignore_check_constraints", "index_info", "index_list",
   "index_xinfo", "integrity_check", "journal_mode", "journal_size_limit", "legacy_alter_table",
   "locking_mode", "max_page_count", "module_list", "optimize", "page_count", "page_size",
   "pragma_list", "query_only", "quick_check", "read_uncommitted", "recursive_triggers",
   "reverse_unordered_selects", "schema_version", "secure_delete", "short_column_names",
   "soft_heap_limit", "synchronous", "table_info", "table_list", "table_xinfo", "temp_store",
   "threads", "trusted_schema", "user_version", "writable_schema"]

/-- The tables that are always there and cannot be dropped. -/
def isBuiltIn (name : String) : Bool :=
  let name := name.toLower
  name ∈ catalogues || name ∈ functions || name ∈ readableSettings.map ("pragma_" ++ ·)

/-- The table of a session for the ids of edges to be removed is designated. -/
def isRemovalTable (d : TableDesignation) : Bool :=
  d.database.all (·.toLower = "temp") && d.name.toLower = "doomed_edges"

/-- The table that is designated, in the main database. -/
def table? (d : TableDesignation) : Option TableName :=
  if d.database.all (·.toLower = "main") then TableName.ofName? d.name.toLower else none

end TableDesignation

end FactGraph
