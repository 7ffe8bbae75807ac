/-!
# Blank characters

The white space of Unicode: twenty-five characters in ten ranges. A text that is blank
throughout counts as empty where a name is required.
-/

namespace FactGraph.Text

/-- Closed ranges of code points, ascending and apart. -/
def blankRanges : List (Nat × Nat) :=
  [(0x09, 0x0D), (0x20, 0x20), (0x85, 0x85), (0xA0, 0xA0), (0x1680, 0x1680), (0x2000, 0x200A),
   (0x2028, 0x2029), (0x202F, 0x202F), (0x205F, 0x205F), (0x3000, 0x3000)]

def isBlank (c : Char) : Bool :=
  blankRanges.any fun (low, high) => low ≤ c.toNat && c.toNat ≤ high

/-- Every character is blank; the empty text is blank. -/
def isBlankText (s : String) : Bool := s.toList.all isBlank

/-- The text without the blanks at both ends. -/
def trim (s : String) : String :=
  String.ofList ((s.toList.dropWhile isBlank).reverse.dropWhile isBlank).reverse

example : (blankRanges.map fun (low, high) => high + 1 - low).sum = 25 := by decide

/-- Tabs and line ends are blank, letters are not. -/
example : isBlank '\t' = true ∧ isBlank '\n' = true ∧ isBlank 'a' = false := by decide

end FactGraph.Text
