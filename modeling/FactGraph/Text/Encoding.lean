/-!
# Encodings of texts

Texts are compared by the bytes of an encoding. The bytes of UTF-8 come in the order of the code
points. Those of UTF-16 do not: a character beyond the first plane is written as two surrogates,
and with the low byte first the high byte decides last. Two code points that are no characters
cannot be written in UTF-16, because one of them is the mark of the byte order turned around.
-/

namespace FactGraph

/-- The encodings of texts. -/
inductive TextEncoding where
  | utf8
  /-- UTF-16 with the low byte of a unit first. -/
  | utf16Low
  /-- UTF-16 with the high byte of a unit first. -/
  | utf16High
  deriving DecidableEq, Repr

namespace TextEncoding

def all : List TextEncoding := [utf8, utf16Low, utf16High]

/-- The encoding with its byte order. -/
def name : TextEncoding → String
  | utf8 => "UTF-8"
  | utf16Low => "UTF-16le"
  | utf16High => "UTF-16be"

/-- The encodings by their names. Upper and lower case are the same, hyphens can be left out, and
without a byte order the low byte is first. -/
def ofName? (name : String) : Option TextEncoding :=
  match name.toLower with
  | "utf8" | "utf-8" => some utf8
  | "utf16" | "utf-16" | "utf16le" | "utf-16le" => some utf16Low
  | "utf16be" | "utf-16be" => some utf16High
  | _ => none

/-- The units of 16 bits of a character: itself, or two surrogates. -/
def units16 (c : Char) : List Nat :=
  if c.toNat < 0x10000 then [c.toNat]
  else
    let offset := c.toNat - 0x10000
    [0xD800 + offset / 0x400, 0xDC00 + offset % 0x400]

/-- A character in units of 16 bits. What is no character is replaced. -/
def keptChar (c : Char) : Char :=
  if c.toNat = 0xFFFE ∨ c.toNat = 0xFFFF then Char.ofNat 0xFFFD else c

/-- A text as it is after it was written. -/
def kept : TextEncoding → String → String
  | utf8, text => text
  | _, text => text.map keptChar

/-- What characters are compared by: the code point, or the bytes of the units. -/
def charKey : TextEncoding → Char → List Nat
  | utf8, c => [c.toNat]
  | utf16Low, c => (units16 c).flatMap fun unit => [unit % 256, unit / 256]
  | utf16High, c => units16 c

/-- The bytes of a text. -/
def size : TextEncoding → String → Nat
  | utf8, text => text.utf8ByteSize
  | _, text => 2 * (text.toList.flatMap units16).length

/-- The order of two lists of characters: the first that differ decide. -/
def compareChars (encoding : TextEncoding) : List Char → List Char → Ordering
  | [], [] => .eq
  | [], _ => .lt
  | _, [] => .gt
  | c :: cs, d :: ds =>
    if c = d then compareChars encoding cs ds
    else compareOfLessAndEq (encoding.charKey c) (encoding.charKey d)

/-- The order of two texts. -/
def compare : TextEncoding → String → String → Ordering
  | utf8, s, t => Ord.compare s t
  | encoding, s, t => encoding.compareChars s.toList t.toList

/-- Arranges rows in the order of their keys. They come in the order of code points. -/
def arrange {α : Type} (key : α → String) : TextEncoding → List α → List α
  | utf8, rows => rows
  | encoding, rows => rows.mergeSort fun a b => (encoding.compare (key a) (key b)).isLE

end TextEncoding

end FactGraph
