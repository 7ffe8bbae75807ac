import FactGraph.Text.Encoding
import Mathlib.Data.String.Basic

/-!
# What an encoding keeps

An encoding replaces characters one by one, and each of them once (`TextEncoding.kept_kept`). What
it replaces lies far above the characters that texts are put together with.
-/

namespace FactGraph.TextEncoding

/-- A character as it is after it was written. -/
def charKept : TextEncoding → Char → Char
  | utf8 => id
  | _ => keptChar

theorem toList_kept (encoding : TextEncoding) (text : String) :
    (encoding.kept text).toList = text.toList.map encoding.charKept := by
  cases encoding with
  | utf8 => exact (List.map_id _).symm
  | utf16Low => exact String.toList_map
  | utf16High => exact String.toList_map

theorem keptChar_keptChar (c : Char) : keptChar (keptChar c) = keptChar c := by
  by_cases h : c.toNat = 0xFFFE ∨ c.toNat = 0xFFFF
  · have hreplaced : keptChar c = Char.ofNat 0xFFFD := if_pos h
    rw [hreplaced]
    decide
  · have hsame : keptChar c = c := if_neg h
    rw [hsame, hsame]

/-- What has been written can be written as it is. -/
theorem kept_kept (encoding : TextEncoding) (text : String) :
    encoding.kept (encoding.kept text) = encoding.kept text := by
  have hchars : keptChar ∘ keptChar = keptChar := funext keptChar_keptChar
  have htwice : (text.map keptChar).map keptChar = text.map keptChar := by
    rw [String.map_map, hchars]
  cases encoding with
  | utf8 => rfl
  | utf16Low => exact htwice
  | utf16High => exact htwice

theorem charKept_of_lt (encoding : TextEncoding) {c : Char} (h : c.toNat < 128) :
    encoding.charKept c = c := by
  have hsame : keptChar c = c := if_neg (by omega)
  cases encoding with
  | utf8 => rfl
  | utf16Low => exact hsame
  | utf16High => exact hsame

end FactGraph.TextEncoding
