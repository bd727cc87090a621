import ImportIndex.Text.Split
import ImportIndex.Unicode.Ranges

/-!
# White space

The property of being white space, which no version of Unicode since 6.3 has changed, and the words
of a line, which are the stretches between white space.
-/

namespace ImportIndex.Unicode

/-- The code points of white space. -/
def blankRanges : List (Nat × Nat) :=
  [(0x9, 0xD), (0x20, 0x20), (0x85, 0x85), (0xA0, 0xA0), (0x1680, 0x1680), (0x2000, 0x200A),
   (0x2028, 0x2029), (0x202F, 0x202F), (0x205F, 0x205F), (0x3000, 0x3000)]

/-- Whether a character is white space. -/
def isBlank (c : Char) : Bool := inRanges blankRanges c

example : isBlank '\t' = true ∧ isBlank '\u0085' = true ∧ isBlank '\u200B' = false := by
  decide +kernel

/-- The words of a line: the stretches between white space that are not empty. -/
def words (line : List Char) : List (List Char) :=
  (splitWhere isBlank line).filter (!·.isEmpty)

end ImportIndex.Unicode
