import ImportIndex.Text.Bytes
import ImportIndex.Text.Visible

/-!
# Faults in structured text

A text that cannot be read has a fault at some place. There are three kinds of reasons
(`Json.Reason`): the text ends too early, it breaks a rule of the format, or it holds a value that
is not the one wanted. The place is told by the line and by the number of bytes in that line up to
the place.
-/

namespace ImportIndex.Json

/-- What a text may end in the middle of. -/
inductive Part where
  /-- A list. -/
  | list
  /-- An object. -/
  | object
  /-- A quoted text. -/
  | text
  /-- A value of any kind. -/
  | value
deriving DecidableEq, Repr

/-- The part in words. -/
def Part.name : Part → String
  | list => "a list"
  | object => "an object"
  | text => "a string"
  | value => "a value"

/-- A rule of the format that a text breaks. -/
inductive Breach where
  /-- A value is due. -/
  | value
  /-- A word that starts like `null`, `true` or `false` goes on otherwise. -/
  | word
  /-- A colon is due. -/
  | colon
  /-- An item has to be followed by a comma or by the end of the list. -/
  | itemEnd
  /-- A member has to be followed by a comma or by the end of the object. -/
  | memberEnd
  /-- Nothing follows a comma. -/
  | lastComma
  /-- The name of a member is no quoted text. -/
  | name
  /-- There is no such escape. -/
  | escape
  /-- A control character stands for itself. -/
  | control
  /-- One half of a pair of escapes stands alone. -/
  | loneHalf
  /-- No escape follows the first half of a pair. -/
  | openPair
  /-- A number is not spelled as one. -/
  | number
  /-- A number is too large. -/
  | tooLarge
  /-- Lists and objects are nested too deeply. -/
  | tooDeep
  /-- Something follows the end. -/
  | trailing
deriving DecidableEq, Repr

/-- The broken rule in words. -/
def Breach.message : Breach → String
  | value => "expected value"
  | word => "expected ident"
  | colon => "expected `:`"
  | itemEnd => "expected `,` or `]`"
  | memberEnd => "expected `,` or `\x7d`"
  | lastComma => "trailing comma"
  | name => "key must be a string"
  | escape => "invalid escape"
  | control => "control character (\\u0000-\\u001F) found while parsing a string"
  | loneHalf => "lone leading surrogate in hex escape"
  | openPair => "unexpected end of hex escape"
  | number => "invalid number"
  | tooLarge => "number out of range"
  | tooDeep => "recursion limit exceeded"
  | trailing => "trailing characters"

/-- A value in the place of another one. -/
inductive Found where
  /-- The value without content. -/
  | null
  /-- A truth value. -/
  | bool (b : Bool)
  /-- An integer. -/
  | integer (n : Int)
  /-- A number that is kept as a binary64 value, with its shortest spelling. -/
  | float (spelling : String)
  /-- A text. -/
  | text (s : String)
  /-- A list. -/
  | list
  /-- An object. -/
  | object
deriving DecidableEq, Repr

/-- The value in words. -/
def Found.message : Found → String
  | null => "null"
  | bool b => s!"boolean `{b}`"
  | integer n => s!"integer `{n}`"
  | float spelling => s!"floating point `{spelling}`"
  | text s => "string " ++ visible s
  | list => "sequence"
  | object => "map"

/-- How a value differs from the one wanted. -/
inductive Mismatch where
  /-- It is of another kind. -/
  | kind (found : Found) (wanted : String)
  /-- It is of the right kind and out of bounds. -/
  | bounds (found : Found) (wanted : String)
  /-- It is a list of the wrong length. -/
  | length (found : Nat) (wanted : String)
  /-- It names none of the variants that there are. -/
  | unknownVariant (name : String) (known : List String)
  /-- It has a field besides those that there are. -/
  | unknownField (name : String) (known : List String)
  /-- It lacks a field. -/
  | missingField (name : String)
  /-- It has a field twice. -/
  | repeatedField (name : String)
deriving DecidableEq, Repr

/-- A choice in words. -/
def choice : List String → String
  | [name] => s!"`{name}`"
  | [first, second] => s!"`{first}` or `{second}`"
  | names => "one of " ++ ", ".intercalate (names.map fun name => s!"`{name}`")

/-- The difference in words. -/
def Mismatch.message : Mismatch → String
  | kind found wanted => s!"invalid type: {found.message}, expected {wanted}"
  | bounds found wanted => s!"invalid value: {found.message}, expected {wanted}"
  | length found wanted => s!"invalid length {found}, expected {wanted}"
  | unknownVariant name known => s!"unknown variant `{name}`, expected {choice known}"
  | unknownField name known => s!"unknown field `{name}`, expected {choice known}"
  | missingField name => s!"missing field `{name}`"
  | repeatedField name => s!"duplicate field `{name}`"

/-- Why a text cannot be read. -/
inductive Reason where
  /-- It ends too early. -/
  | cut (part : Part)
  /-- It breaks a rule of the format. -/
  | malformed (breach : Breach)
  /-- It holds another value than wanted. -/
  | mismatch (difference : Mismatch)
deriving DecidableEq, Repr

/-- The reason in words. -/
def Reason.message : Reason → String
  | cut part => s!"EOF while parsing {part.name}"
  | malformed breach => breach.message
  | mismatch difference => difference.message

/-- Why a text cannot be read, and where. -/
structure Fault where
  /-- Why it cannot be read. -/
  reason : Reason
  /-- The line of the fault. The first line is line 1. -/
  line : Nat
  /-- The number of bytes in that line up to the fault. -/
  column : Nat
deriving DecidableEq, Repr

namespace Fault

/-- The fault behind these bytes. -/
def after (reason : Reason) (before : Bytes) : Fault where
  reason
  line := before.count 0x0A + 1
  column := (before.reverse.takeWhile (· != 0x0A)).length

/-- The fault in words. -/
def message (fault : Fault) : String :=
  s!"{fault.reason.message} at line {fault.line} column {fault.column}"

example : (after (.cut .value) (Bytes.ofText "[\n1,")).message =
    "EOF while parsing a value at line 2 column 2" := by decide +kernel

end Fault

end ImportIndex.Json
