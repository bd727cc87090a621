/-!
# Structured text

Values of the JSON format and how they are written: over several lines, two spaces further in at
every level, with the members of an object in the order they are given. In a quoted text, the quote,
the backslash and control characters are escaped and all else stands for itself.

`Json.write` says how a value is written, character by character, and `Json.render` makes that text
(`Json.toList_render`).
-/

namespace ImportIndex

/-- A value of the format. -/
inductive Json where
  /-- The value without content. -/
  | null
  /-- A truth value. -/
  | bool (b : Bool)
  /-- A number, as it is spelled. -/
  | number (spelling : List Char)
  /-- A text. -/
  | text (s : String)
  /-- A list. -/
  | list (items : List Json)
  /-- An object. Members may share a name. -/
  | object (members : List (String × Json))
deriving Repr, Inhabited

namespace Json

/-- A natural number. -/
def ofNat (n : Nat) : Json := .number (Nat.toDigits 10 n)

/-- The letter that stands for a control character after a backslash, where it has one. -/
def shortEscape? (c : Char) : Option Char :=
  if c = '"' then some '"'
  else if c = '\\' then some '\\'
  else if c = '\x08' then some 'b'
  else if c = '\x0c' then some 'f'
  else if c = '\n' then some 'n'
  else if c = '\r' then some 'r'
  else if c = '\t' then some 't'
  else none

/-- A character as it is written in a quoted text. -/
def escape (c : Char) : List Char :=
  match shortEscape? c with
  | some letter => ['\\', letter]
  | none =>
    if c.toNat < 0x20 then
      ['\\', 'u', '0', '0', Nat.digitChar (c.toNat / 0x10), Nat.digitChar (c.toNat % 0x10)]
    else [c]

/-- A text in quotes. -/
def quote (s : String) : List Char :=
  '"' :: s.toList.flatMap escape ++ ['"']

/-- The start of a line at this level. -/
def newline (level : Nat) : List Char :=
  '\n' :: List.replicate (2 * level) ' '

mutual

/-- A value as it is written at this level. -/
def write (level : Nat) : Json → List Char
  | null => ['n', 'u', 'l', 'l']
  | bool true => ['t', 'r', 'u', 'e']
  | bool false => ['f', 'a', 'l', 's', 'e']
  | number spelling => spelling
  | text s => quote s
  | list [] => ['[', ']']
  | list (item :: items) =>
    '[' :: newline (level + 1) ++ write (level + 1) item ++ writeItems (level + 1) items
      ++ newline level ++ [']']
  | object [] => ['{', '}']
  | object ((name, value) :: members) =>
    '{' :: newline (level + 1) ++ quote name ++ [':', ' '] ++ write (level + 1) value
      ++ writeMembers (level + 1) members ++ newline level ++ ['}']

/-- The items after the first one of a list. -/
def writeItems (level : Nat) : List Json → List Char
  | [] => []
  | item :: items => ',' :: newline level ++ write level item ++ writeItems level items

/-- The members after the first one of an object. -/
def writeMembers (level : Nat) : List (String × Json) → List Char
  | [] => []
  | (name, value) :: members =>
    ',' :: newline level ++ quote name ++ [':', ' '] ++ write level value
      ++ writeMembers level members

end

/-! ### Rendering

`write` says how a value is written; `writeAfter` adds the same characters to the end of a text
(`toList_writeAfter`), each of them once. -/

/-- Whether a character stands for itself in a quoted text. -/
def isPlain (c : Char) : Bool := c != '"' && c != '\\' && 0x20 ≤ c.toNat

/-- A text followed by a character as it is written in a quoted text. -/
def escapeAfter (before : String) (c : Char) : String :=
  if isPlain c then before.push c else (escape c).foldl String.push before

/-- A text followed by another one in quotes. -/
def quoteAfter (before : String) (s : String) : String :=
  (s.foldl escapeAfter (before.push '"')).push '"'

theorem escape_of_isPlain {c : Char} (h : isPlain c = true) : escape c = [c] := by
  simp only [isPlain, Bool.and_eq_true, bne_iff_ne, decide_eq_true_eq] at h
  have hne (d : Char) (hd : d.toNat < 0x20) : c ≠ d := by
    rintro rfl
    omega
  have hshort : shortEscape? c = none := by
    simp [shortEscape?, h.1.1, h.1.2, hne '\x08' (by decide), hne '\x0c' (by decide),
      hne '\n' (by decide), hne '\r' (by decide), hne '\t' (by decide)]
  simp [escape, hshort, Nat.not_lt.2 h.2]

theorem toList_foldl_push (before : String) (cs : List Char) :
    (cs.foldl String.push before).toList = before.toList ++ cs := by
  induction cs generalizing before with
  | nil => simp
  | cons c cs ih => simp [ih]

theorem toList_escapeAfter (before : String) (c : Char) :
    (escapeAfter before c).toList = before.toList ++ escape c := by
  unfold escapeAfter
  split
  · next h => simp [escape_of_isPlain h]
  · exact toList_foldl_push before (escape c)

theorem toList_foldl_escapeAfter (before : String) (cs : List Char) :
    (cs.foldl escapeAfter before).toList = before.toList ++ cs.flatMap escape := by
  induction cs generalizing before with
  | nil => simp
  | cons c cs ih => simp [ih, toList_escapeAfter]

theorem toList_quoteAfter (before s : String) :
    (quoteAfter before s).toList = before.toList ++ quote s := by
  simp [quoteAfter, quote, String.foldl_eq_foldl_toList, toList_foldl_escapeAfter]

mutual

/-- A text followed by a value as it is written at this level. -/
def writeAfter (level : Nat) (before : String) : Json → String
  | null => before ++ "null"
  | bool true => before ++ "true"
  | bool false => before ++ "false"
  | number spelling => before ++ String.ofList spelling
  | text s => quoteAfter before s
  | list [] => before ++ "[]"
  | list (item :: items) =>
    let first := writeAfter (level + 1) (before ++ String.ofList ('[' :: newline (level + 1))) item
    writeItemsAfter (level + 1) first items ++ String.ofList (newline level ++ [']'])
  | object [] => before ++ "\x7b\x7d"
  | object ((name, value) :: members) =>
    let named := quoteAfter (before ++ String.ofList ('{' :: newline (level + 1))) name ++ ": "
    writeMembersAfter (level + 1) (writeAfter (level + 1) named value) members
      ++ String.ofList (newline level ++ ['}'])

/-- A text followed by the items after the first one of a list. -/
def writeItemsAfter (level : Nat) (before : String) : List Json → String
  | [] => before
  | item :: items =>
    writeItemsAfter level
      (writeAfter level (before ++ String.ofList (',' :: newline level)) item) items

/-- A text followed by the members after the first one of an object. -/
def writeMembersAfter (level : Nat) (before : String) : List (String × Json) → String
  | [] => before
  | (name, value) :: members =>
    let named := quoteAfter (before ++ String.ofList (',' :: newline level)) name ++ ": "
    writeMembersAfter level (writeAfter level named value) members

end

mutual

theorem toList_writeAfter (level : Nat) (before : String) (j : Json) :
    (writeAfter level before j).toList = before.toList ++ write level j := by
  match j with
  | null | bool true | bool false | number _ | text _ | list [] | object [] =>
    simp [writeAfter, write, toList_quoteAfter]
  | list (item :: items) =>
    simp [writeAfter, write, toList_writeItemsAfter, toList_writeAfter (level + 1) _ item]
  | object ((name, value) :: members) =>
    simp [writeAfter, write, toList_quoteAfter, toList_writeMembersAfter,
      toList_writeAfter (level + 1) _ value]

theorem toList_writeItemsAfter (level : Nat) (before : String) (items : List Json) :
    (writeItemsAfter level before items).toList = before.toList ++ writeItems level items := by
  match items with
  | [] => simp [writeItemsAfter, writeItems]
  | item :: items =>
    simp [writeItemsAfter, writeItems, toList_writeItemsAfter level _ items,
      toList_writeAfter level _ item]

theorem toList_writeMembersAfter (level : Nat) (before : String)
    (members : List (String × Json)) :
    (writeMembersAfter level before members).toList
      = before.toList ++ writeMembers level members := by
  match members with
  | [] => simp [writeMembersAfter, writeMembers]
  | (name, value) :: members =>
    simp [writeMembersAfter, writeMembers, toList_quoteAfter,
      toList_writeMembersAfter level _ members, toList_writeAfter level _ value]

end

/-- The text of a value. -/
def render (j : Json) : String := writeAfter 0 "" j

theorem toList_render (j : Json) : j.render.toList = write 0 j := by
  simp [render, toList_writeAfter]

end Json

end ImportIndex
