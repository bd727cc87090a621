import ImportIndex.Unicode.Hidden

/-!
# Texts in which everything shows

A text can be quoted so that each of its characters shows: a character that does not is written by
a letter or by its code point after a backslash.
-/

namespace ImportIndex

/-- A character as it is written in a text in which everything shows. -/
def visibleChar (c : Char) : List Char :=
  if c = '\x00' then ['\\', '0']
  else if c = '\t' then ['\\', 't']
  else if c = '\n' then ['\\', 'n']
  else if c = '\r' then ['\\', 'r']
  else if c = '"' ∨ c = '\\' then ['\\', c]
  else if Unicode.isHidden c then
    ['\\', 'u', '{'] ++ Nat.toDigits 16 c.toNat ++ ['}']
  else [c]

/-- A text in quotes in which everything shows. -/
def visible (s : String) : String :=
  String.ofList ('"' :: s.toList.flatMap visibleChar ++ ['"'])

example : visible "a'b\"\\\n\x7f" = "\"a'b\\\"\\\\\\n\\u\x7b7f\x7d\"" := by decide +kernel

end ImportIndex
