import FactGraph.Literal.Error

/-!
# Quoted text

Text stands between two quotes. Inside, the quote and the backslash have a backslash before
them, and line feeds, tabs and carriage returns are written as letters behind a backslash.

The text ends at the first quote without a backslash of its own: backslashes pair with the
following character from left to right.
-/

namespace FactGraph

namespace Quoted

/-- The written form of one character. -/
def escapeChar (quote c : Char) : List Char :=
  if c = '\\' then ['\\', '\\']
  else if c = '\n' then ['\\', 'n']
  else if c = '\t' then ['\\', 't']
  else if c = '\r' then ['\\', 'r']
  else if c = quote then ['\\', c]
  else [c]

/-- The written form of a text, without its quotes. -/
def escape (quote : Char) (cs : List Char) : List Char := cs.flatMap (escapeChar quote)

/-- The character that a backslash and `c` stand for. -/
def escaped (c : Char) : Char :=
  if c = 'n' then '\n' else if c = 't' then '\t' else if c = 'r' then '\r' else c

/-- Reads up to the closing quote: the text, and what follows the quote. -/
def readBody? (quote : Char) : List Char → Option (List Char × List Char)
  | [] => none
  | ['\\'] => none
  | '\\' :: c :: rest => (readBody? quote rest).map fun (body, after) => (escaped c :: body, after)
  | c :: rest =>
    if c = quote then some ([], rest)
    else (readBody? quote rest).map fun (body, after) => (c :: body, after)

/-- A text between quotes. -/
def render (quote : Char) (text : String) : List Char :=
  quote :: escape quote text.toList ++ [quote]

/-- Reads a text in double quotes. -/
def read (text : String) : Except LiteralError String :=
  match readBody? '"' text.toList.tail with
  | some (body, []) => .ok (String.ofList body)
  | _ => .error (.quotedText text)

end Quoted

/-! ## Text with a language -/

/-- A text in a language, such as `'colour'@en-GB`. -/
structure TaggedText where
  text : String
  language : String
  suffix : Option String
  deriving DecidableEq, Repr

namespace TaggedText

/-- A text in a language without suffix. -/
def ofLanguage (text language : String) : TaggedText := ⟨text, language, none⟩

/-- Splits a tag at its first hyphen. -/
def splitTag (tag : String) : String × Option String :=
  match tag.toList.span (· ≠ '-') with
  | (language, _ :: suffix) => (String.ofList language, some (String.ofList suffix))
  | (_, []) => (tag, none)

def ofTag (text tag : String) : TaggedText :=
  let (language, suffix) := splitTag tag
  ⟨text, language, suffix⟩

/-- The language with its suffix. -/
def tag (t : TaggedText) : String :=
  match t.suffix with
  | some suffix => t.language ++ "-" ++ suffix
  | none => t.language

/-- The written form. -/
def render (t : TaggedText) : List Char := Quoted.render '\'' t.text ++ '@' :: t.tag.toList

/-- The parts of a suffix between its hyphens. -/
def suffixParts : List Char → List (List Char)
  | [] => [[]]
  | c :: rest =>
    if c = '-' then [] :: suffixParts rest
    else match suffixParts rest with
      | [] => [[c]]
      | part :: parts => (c :: part) :: parts

/-- Non-empty parts of letters and digits, joined by hyphens. -/
def isSuffix (cs : List Char) : Bool :=
  (suffixParts cs).all fun part => !part.isEmpty && part.all Char.isAlphanum

/-- Two or three letters, and optionally a hyphen with a suffix. -/
def readTag? (cs : List Char) : Option (String × Option String) :=
  match cs.span Char.isAlpha with
  | (language, rest) =>
    if language.length = 2 ∨ language.length = 3 then
      match rest with
      | [] => some (String.ofList language, none)
      | '-' :: suffix =>
        if isSuffix suffix then some (String.ofList language, some (String.ofList suffix))
        else none
      | _ => none
    else none

/-- Reads a text in single quotes with its tag. -/
def read (text : String) : Except LiteralError TaggedText :=
  match Quoted.readBody? '\'' text.toList.tail with
  | some (body, '@' :: tag) =>
    match readTag? tag with
    | some (language, suffix) => .ok ⟨String.ofList body, language, suffix⟩
    | none => .error (.taggedText text)
  | _ => .error (.taggedText text)

end TaggedText

end FactGraph
