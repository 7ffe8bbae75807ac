import FactGraph.Error
import FactGraph.Literal.Numeral
import FactGraph.Paging.Supply
import FactGraph.Schema.Designation
import FactGraph.Text.Encoding

/-!
# Engines

The engine of a session keeps the tables. Settings change how it works. They are made by name,
one after the other, before the tables; a setting that is not known is passed over. Of the others
a few change answers: the encoding of a new database, whether it can be written, whether tags are
checked, whether changes can be undone, how large it may grow, how it is cut into pages, and how
much memory there is.

A setting that is kept in the database itself is written at once. With it the database has a first
page, and its layout stays as it is.
-/

namespace FactGraph

-- Powers are those of the core library, whatever else is in scope.
attribute [local instance (high)] instPowNat

/-- How the tables are kept. -/
structure Engine where
  /-- The encoding of a new database. -/
  encoding : TextEncoding
  /-- What becomes of changes, if nothing can be written. -/
  refusal : Option StoreError
  /-- A change answers with a row, where none is expected. -/
  reportsChanges : Bool
  /-- A tag has to name a kind. -/
  checksTags : Bool
  /-- A change that fails is undone. -/
  undoes : Bool
  /-- The most pages of a database, if there is a limit. -/
  pageLimit : Option Nat
  layout : PageLayout
  /-- There is not enough memory to do anything. -/
  isStarved : Bool
  deriving DecidableEq, Repr

/-- An engine without settings. -/
def Engine.standard : Engine := ⟨.utf8, none, false, true, true, none, .standard, false⟩

/-! ## Names -/

namespace Setting

/-- A name is a word that is not reserved. -/
def isName (name : String) : Bool :=
  match name.toList with
  | [] => false
  | c :: rest => SqlToken.startsWord c && rest.all SqlToken.continuesWord &&
    !SqlToken.isReserved name

/-! ## Values -/

/-- The digits of a base at the start of a text without leading zeros. -/
def leadingDigits (base : Nat) (cs : List Char) : List Nat :=
  ((cs.takeWhile fun c => (digitValue? base c).isSome).dropWhile (· = '0')).filterMap
    (digitValue? base)

/-- The number of 32 bits that a text starts with, if it starts with one: hexadecimal digits after
a mark, or decimal digits after a sign. -/
def leadingInt? (cs : List Char) : Option Int :=
  let decimal (negative : Bool) (cs : List Char) : Option Int :=
    let n := valueOfDigits 10 (leadingDigits 10 cs)
    if (cs.head?.all fun c => !c.isDigit) || 2 ^ (31 : Nat) + negative.toNat ≤ n then none
    else some (if negative then -n else n)
  match cs with
  | '-' :: rest => decimal true rest
  | '+' :: rest => decimal false rest
  | '0' :: x :: c :: rest =>
    if (x = 'x' ∨ x = 'X') ∧ (digitValue? 16 c).isSome then
      let n := valueOfDigits 16 (leadingDigits 16 (c :: rest))
      if n < 2 ^ (31 : Nat) then some n else none
    else decimal false cs
  | _ => decimal false cs

/-- A value that says yes: a word for it, or a number whose low byte is not zero. -/
def isYes (value : String) : Bool :=
  match value.toList with
  | c :: rest =>
    if c.isDigit then ((leadingInt? (c :: rest)).getD 0) % 256 ≠ 0
    else value.toLower ∈ ["on", "yes", "true"]
  | [] => false

/-- Blanks around a number. -/
def isSpace (c : Char) : Bool := c = ' ' || ('\t' ≤ c && c ≤ '\r')

/-- A count of 63 bits. Hexadecimal digits follow a mark. Of any other text the signs, blanks and
decimal digits in front count, and one further character: they have to be a number with blanks
around it. -/
def count? (value : String) : Option Nat :=
  let limited (digits : List Nat) (base : Nat) : Option Nat :=
    some (valueOfDigits base digits) |>.filter (· < 2 ^ (63 : Nat))
  match value.toList with
  | '0' :: 'x' :: digits | '0' :: 'X' :: digits =>
    (digits.mapM (digitValue? 16)).bind (limited · 16)
  | cs =>
    let front := cs.takeWhile fun c => c.isDigit || c ∈ ['+', '-', ' ', '\n', '\t']
    let number := (cs.take (front.length + 1)).dropWhile isSpace
    let unsigned := if number.head? = some '+' then number.tail else number
    let digits := unsigned.takeWhile Char.isDigit
    if digits.isEmpty || !(unsigned.dropWhile Char.isDigit).all isSpace then none
    else (digits.mapM (digitValue? 10)).bind (limited · 10)

/-- Settings that are kept in the database itself. -/
def writtenNames : List String :=
  ["application_id", "default_cache_size", "incremental_vacuum", "schema_version", "user_version"]

/-- A value that asks for a map of the pages, and whether it gives free pages back by itself. -/
def givesBack? (value : String) : Option Bool :=
  if value.toLower = "full" || leadingInt? value.toList = some 1 then some true
  else if value.toLower = "incremental" || leadingInt? value.toList = some 2 then some false
  else none

/-- The bytes of a page: a power of two. -/
def pageSize? (value : String) : Option Nat :=
  [512, 1024, 2048, 4096, 8192, 16384, 32768, 65536].find? fun size =>
    leadingInt? value.toList = some (Int.ofNat size)

/-- The start of a word. -/
def startsWord (value word : String) : Bool :=
  value ≠ "" && value.toLower.toList.isPrefixOf word.toList

/-- The bytes of memory that are needed at least. -/
def leastMemory : Nat := 200000

/-- The directories that are there on any machine. -/
def directories : List String := ["", ".", "..", "/", "/tmp"]

end Setting

namespace Engine

open Setting

/-- Writes what a setting says into the database, whose layout stays then. -/
def write (e : Engine) (layout : PageLayout) : Except StoreError Engine :=
  if e.refusal.isSome then .error .connection
  else .ok { e with layout := { layout with isFixed := true } }

/-- The engine with another layout, as long as the layout can change. -/
def arrange (e : Engine) (layout : PageLayout) : Engine :=
  if e.layout.isFixed then e else { e with layout }

/-- The engine with one more setting, whose name is in lower case. -/
def change (e : Engine) (name value : String) : Except StoreError Engine :=
  if name ∈ writtenNames then e.write e.layout
  else match name with
  | "page_size" =>
    match pageSize? value with
    | some size => .ok (e.arrange { e.layout with pageSize := size })
    | none => .ok e
  | "auto_vacuum" =>
    match givesBack? value with
    | some givesBack =>
      if e.layout.isFixed && !e.layout.hasMap then .ok e
      else e.write { e.layout with hasMap := true, givesBack }
    | none => .ok (e.arrange { e.layout with hasMap := false, givesBack := false })
  | "encoding" =>
    match TextEncoding.ofName? value with
    | some encoding => .ok { e with encoding := encoding }
    | none => .error .connection
  | "query_only" => .ok { e with refusal := if isYes value then some .query else none }
  | "count_changes" => .ok { e with reportsChanges := isYes value }
  | "ignore_check_constraints" => .ok { e with checksTags := !isYes value }
  | "journal_mode" =>
    if startsWord value "off" then .ok { e with undoes := false }
    else if startsWord value "memory" then .ok { e with undoes := true }
    else .ok e
  | "max_page_count" =>
    match count? value with
    | some 0 | none => .ok e
    | some n => .ok { e with pageLimit := some n }
  | "hard_heap_limit" =>
    .ok { e with isStarved := (count? value).any fun n => 0 < n && n < leastMemory }
  | "integrity_check" | "quick_check" =>
    if (leadingInt? value.toList).isSome || TableDesignation.isBuiltIn value then .ok e
    else .error .connection
  | "foreign_key_check" =>
    if TableDesignation.isBuiltIn value then .ok e else .error .connection
  | "temp_store_directory" => if value ∈ directories then .ok e else .error .connection
  | _ => .ok e

/-- The engine with one more setting. Upper and lower case are the same in names. -/
def set (e : Engine) (name value : String) : Except StoreError Engine :=
  if !e.isStarved && isName name && !value.toList.contains (Char.ofNat 0) then
    e.change name.toLower value
  else .error .connection

/-- The engine with these settings, one after the other. -/
def ofSettings (e : Engine) (settings : List (String × String)) : Except StoreError Engine :=
  settings.foldlM (fun e (name, value) => e.set name value) e

end Engine

end FactGraph
