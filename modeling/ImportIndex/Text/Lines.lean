import ImportIndex.Text.Split

/-!
# Lines

The lines of a text end at line feeds. A carriage return right before a line feed belongs to the
line's end; one at the very end of the text does not. A last line that nothing follows counts only
if it is not empty, so a final line feed adds no line.
-/

namespace ImportIndex

namespace Lines

/-- A line without the carriage return that may end it. -/
def dropReturn (line : List Char) : List Char :=
  if line.getLast? = some '\r' then line.dropLast else line

/-- The lines of a text. -/
def split (text : List Char) : List (List Char) :=
  let pieces := splitAt '\n' text
  let ended := pieces.dropLast.map dropReturn
  match pieces.getLast? with
  | some (c :: cs) => ended ++ [c :: cs]
  | _ => ended

/-- The lines of a text, as texts. -/
def ofText (text : String) : List String :=
  (split text.toList).map String.ofList

example : ofText "a\n\nb\r\nc\r" = ["a", "", "b", "c\r"] := by decide +kernel

end Lines

end ImportIndex
