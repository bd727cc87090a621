import ImportIndex.Decimal.Shortest
import ImportIndex.Json.Basic
import ImportIndex.Json.Fault

/-!
# Reading structured text

A reader takes a value off the front of a text. It works from left to right and stops at the first
fault (`Json.Stop`). A mismatch that concerns a list or an object as a whole has no place of its
own: it is placed where reading goes on after that list or object (`Reader.inList`,
`Reader.inObject`).

Records are read from objects, whose members may come in any order but not twice, or from lists,
which give the fields in their order (`Reader.record`).
-/

namespace ImportIndex.Json

/-- The number of bytes in a text. -/
def bytesIn (cs : List Char) : Nat := (String.ofList cs).utf8ByteSize

/-- Why and where reading stops. -/
inductive Stop where
  /-- It stops at a place that has this many bytes after it. -/
  | placed (reason : Reason) (left : Nat)
  /-- It stops for a mismatch that has no place yet, in front of this rest of the text. -/
  | unplaced (difference : Mismatch) (rest : List Char)
deriving DecidableEq, Repr

/-- The fault of the text whose reading stops like this. -/
def Stop.fault (source : String) : Stop → Fault
  | placed reason left => .after reason ((Bytes.ofText source).take (source.utf8ByteSize - left))
  | unplaced difference rest =>
    .after (.mismatch difference) ((Bytes.ofText source).take (source.utf8ByteSize - bytesIn rest))

/-- Takes a value off the front of a text. -/
abbrev Reader := StateT (List Char) (Except Stop)

namespace Reader

/-- Stops in front of what is left of the text. -/
def stop {α : Type} (reason : Reason) : Reader α :=
  fun rest => .error (.placed reason (bytesIn rest))

/-- Stops behind the first byte of what is left of the text. -/
def stopNext {α : Type} (breach : Breach) : Reader α :=
  fun rest => .error (.placed (.malformed breach) (bytesIn rest - 1))

/-- Stops for a mismatch that has no place of its own. -/
def stopUnplaced {α : Type} (difference : Mismatch) : Reader α :=
  fun rest => .error (.unplaced difference rest)

/-- The characters that may stand between values. -/
def isSpace (c : Char) : Bool :=
  c == ' ' || c == '\n' || c == '\t' || c == '\r'

/-- The next character that is no space. It stays in the text. -/
def peek : Reader (Option Char) := do
  modify (·.dropWhile isSpace)
  return (← get).head?

/-- Takes one character, whatever it is. -/
def drop : Reader Unit := modify (·.drop 1)

/-- Takes exactly these characters. -/
def exactly : List Char → Reader Unit
  | [] => return
  | c :: cs => do
    match ← get with
    | [] => stop (.cut .value)
    | d :: rest =>
      if d = c then
        set rest
        exactly cs
      else stopNext .word

/-! ### Quoted texts -/

/-- The value of a hexadecimal digit. -/
def hexDigit? (c : Char) : Option Nat :=
  if '0' ≤ c ∧ c ≤ '9' then some (c.toNat - '0'.toNat)
  else if 'a' ≤ c ∧ c ≤ 'f' then some (c.toNat - 'a'.toNat + 10)
  else if 'A' ≤ c ∧ c ≤ 'F' then some (c.toNat - 'A'.toNat + 10)
  else none

/-- The value of four hexadecimal digits. -/
def fourHex? (a b c d : Char) : Option Nat := do
  return ((← hexDigit? a) * 0x10 + (← hexDigit? b)) * 0x100 +
    ((← hexDigit? c) * 0x10 + (← hexDigit? d))

/-- The end of a quoted text is missing. -/
def unclosed : Stop := .placed (.cut .text) 0

/-- A quoted text breaks a rule at its last byte in front of the rest. -/
def breachBefore (breach : Breach) (rest : List Char) : Stop :=
  .placed (.malformed breach) (bytesIn rest)

/-- A quoted text breaks a rule at the first byte of the rest. -/
def breachAt (breach : Breach) (rest : List Char) : Stop :=
  .placed (.malformed breach) (bytesIn rest - 1)

/-- Four hexadecimal digits are due and do not come. Four bytes are looked at, if there are as
    many. -/
def noHex (rest : List Char) : Stop :=
  if bytesIn rest < 4 then unclosed else .placed (.malformed .escape) (bytesIn rest - 4)

/-- The character that a letter stands for after a backslash. -/
def unescape? (c : Char) : Option Char :=
  if c = '"' then some '"'
  else if c = '\\' then some '\\'
  else if c = '/' then some '/'
  else if c = 'b' then some '\x08'
  else if c = 'f' then some '\x0c'
  else if c = 'n' then some '\n'
  else if c = 'r' then some '\r'
  else if c = 't' then some '\t'
  else none

/-- Whether a number is the first half of a pair that stands for one character. -/
def isHighHalf (n : Nat) : Bool := 0xD800 ≤ n && n ≤ 0xDBFF

/-- Whether a number is the second half of a pair that stands for one character. -/
def isLowHalf (n : Nat) : Bool := 0xDC00 ≤ n && n ≤ 0xDFFF

/-- The characters up to the closing quote, and what follows it. A strict reading wants both
    halves of every pair; otherwise a lone half is let pass as a replacement character. -/
def quoted (strict : Bool) : List Char → Except Stop (List Char × List Char)
  | [] => .error unclosed
  | c :: cs =>
    if c = '"' then .ok ([], cs)
    else if c ≠ '\\' then
      if c.toNat < 0x20 then .error (breachBefore .control (if strict then cs else c :: cs))
      else (quoted strict cs).map fun r => (c :: r.1, r.2)
    else match cs with
      | [] => .error unclosed
      | e :: cs =>
        match unescape? e with
        | some x => (quoted strict cs).map fun r => (x :: r.1, r.2)
        | none =>
          if e ≠ 'u' then .error (breachAt .escape (e :: cs))
          else match cs with
            | h₁ :: h₂ :: h₃ :: h₄ :: cs =>
              match fourHex? h₁ h₂ h₃ h₄ with
              | none => .error (noHex (h₁ :: h₂ :: h₃ :: h₄ :: cs))
              | some n =>
                if isLowHalf n && strict then .error (breachBefore .loneHalf cs)
                else if isHighHalf n && strict then
                  match cs with
                  | [] => .error unclosed
                  | b :: cs =>
                    if b ≠ '\\' then .error (breachAt .openPair (b :: cs))
                    else match cs with
                      | [] => .error unclosed
                      | u :: cs =>
                        if u ≠ 'u' then .error (breachAt .openPair (u :: cs))
                        else match cs with
                          | l₁ :: l₂ :: l₃ :: l₄ :: cs =>
                            match fourHex? l₁ l₂ l₃ l₄ with
                            | none => .error (noHex (l₁ :: l₂ :: l₃ :: l₄ :: cs))
                            | some m =>
                              if isLowHalf m then
                                let x := Char.ofNat
                                  (0x10000 + (n - 0xD800) * 0x400 + (m - 0xDC00))
                                (quoted strict cs).map fun r => (x :: r.1, r.2)
                              else .error (breachBefore .loneHalf cs)
                          | short => .error (noHex short)
                else
                  let x := if isHighHalf n || isLowHalf n then '\uFFFD' else Char.ofNat n
                  (quoted strict cs).map fun r => (x :: r.1, r.2)
            | short => .error (noHex short)

/-- The rest of a text whose opening quote was taken. -/
def quotedRest (strict : Bool) : Reader String := do
  match quoted strict (← get) with
  | .error stop => throw stop
  | .ok (chars, rest) =>
    set rest
    return String.ofList chars

/-! ### Numbers -/

/-- Whether a character is a decimal digit. -/
def isDigit (c : Char) : Bool := '0' ≤ c && c ≤ '9'

/-- The digits at the front of the text. -/
def digits : Reader (List Char) := do
  let found := (← get).takeWhile isDigit
  modify (·.dropWhile isDigit)
  return found

/-- A number in its parts. -/
structure Numeral where
  /-- Whether a minus sign is in front. -/
  negative : Bool
  /-- The digits before the point. -/
  whole : List Char
  /-- The digits after the point, if there is one. -/
  fraction : Option (List Char) := none
  /-- Whether the exponent is negative, and its digits, if there is one. -/
  exponent : Option (Bool × List Char) := none

/-- The number that a list of digits stands for. -/
def digitsValue (ds : List Char) : Nat :=
  ds.foldl (fun n d => 10 * n + (d.toNat - '0'.toNat)) 0

/-- Takes digits into a number as long as it stays within a limit, and returns it with the number of
    digits that were left out. -/
def takeWithin (limit : Nat) (start : Nat) : List Char → Nat × Nat
  | [] => (start, 0)
  | d :: ds =>
    let next := 10 * start + (d.toNat - '0'.toNat)
    if next ≤ limit then takeWithin limit next ds else (start, ds.length + 1)

/-- The number that a list of digits stands for, or the number after the limit if that is less. -/
def cappedValue (limit : Nat) (ds : List Char) : Nat :=
  match takeWithin limit 0 ds with
  | (n, 0) => n
  | _ => limit + 1

theorem le_foldl_digits (ds : List Char) (n : Nat) :
    n ≤ ds.foldl (fun n d => 10 * n + (d.toNat - '0'.toNat)) n := by
  induction ds generalizing n with
  | nil => exact Nat.le_refl n
  | cons d ds ih => exact Nat.le_trans (by omega) (ih (10 * n + (d.toNat - '0'.toNat)))

theorem takeWithin_cases {limit n : Nat} (ds : List Char) (h : n ≤ limit) :
    (∃ value, takeWithin limit n ds = (value, 0) ∧ value ≤ limit ∧
        ds.foldl (fun n d => 10 * n + (d.toNat - '0'.toNat)) n = value) ∨
      (∃ value omitted, takeWithin limit n ds = (value, omitted + 1) ∧
        limit < ds.foldl (fun n d => 10 * n + (d.toNat - '0'.toNat)) n) := by
  induction ds generalizing n with
  | nil => exact .inl ⟨n, rfl, h, rfl⟩
  | cons d ds ih =>
    by_cases hd : 10 * n + (d.toNat - '0'.toNat) ≤ limit
    · simpa only [takeWithin, hd, if_true, List.foldl_cons] using ih hd
    · refine .inr ⟨n, ds.length, by simp only [takeWithin, hd, if_false], ?_⟩
      exact Nat.lt_of_lt_of_le (Nat.lt_of_not_le hd) (le_foldl_digits ds _)

theorem cappedValue_eq_min (limit : Nat) (ds : List Char) :
    cappedValue limit ds = min (digitsValue ds) (limit + 1) := by
  unfold cappedValue digitsValue
  rcases takeWithin_cases ds (Nat.zero_le limit) with ⟨value, h, hle, hv⟩ | ⟨value, omitted, h, hlt⟩
  · rw [h, hv]
    exact (Nat.min_eq_left (Nat.le_succ_of_le hle)).symm
  · rw [h]
    exact (Nat.min_eq_right hlt).symm

/-- A power of ten as a binary64 value. -/
def powerOfTen (n : Nat) : Float := Float.ofScientific 1 false n

/-- Divides by `10 ^ k`, where no divisor is greater than `10 ^ 308` and there are at most `n`. -/
def divideDown : Nat → Float → Nat → Float
  | 0, _, _ => 0
  | n + 1, x, k => if k ≤ 308 then x / powerOfTen k else divideDown n (x / powerOfTen 308) (k - 308)

namespace Numeral

/-- The spelling. -/
def spelling (n : Numeral) : List Char :=
  (if n.negative then ['-'] else []) ++ n.whole
    ++ (match n.fraction with | some ds => '.' :: ds | none => [])
    ++ (match n.exponent with
      | some (negative, ds) => 'e' :: (if negative then '-' :: ds else ds)
      | none => [])

/-- The largest significand that is kept exactly. -/
def maxSignificand : Nat := 0xFFFFFFFFFFFFFFFF

/-- The largest exponent that is told from larger ones. -/
def maxExponent : Nat := 0x7FFFFFFF

/-- Whether the number is spelled as an integer whose size is kept exactly. -/
def isWhole (n : Numeral) : Bool :=
  n.fraction.isNone && n.exponent.isNone && cappedValue maxSignificand n.whole ≤ maxSignificand

/-- The significand and the power of ten that the number is made of. Digits that do not fit into the
    significand are left out. -/
def parts (n : Numeral) : Nat × Int :=
  let (whole, omitted) := takeWithin maxSignificand 0 n.whole
  let fraction := n.fraction.getD []
  let (significand, unused) := takeWithin maxSignificand whole fraction
  let shift : Int := omitted - (fraction.length - unused)
  match n.exponent with
  | some (true, ds) => (significand, shift - cappedValue maxExponent ds)
  | some (false, ds) => (significand, shift + cappedValue maxExponent ds)
  | none => (significand, shift)

/-- The size of the number as a binary64 value: the rounded significand times the power of ten, or
    divided by it. -/
def size (n : Numeral) : Float :=
  let (significand, power) := n.parts
  let x := Float.ofScientific significand false 0
  if significand = 0 then 0
  else if power < 0 then divideDown 4 x (-power).toNat
  else if power ≤ 308 then x * powerOfTen power.toNat
  else 1 / 0

/-- Whether the number is too large for a binary64 value. -/
def overflows (n : Numeral) : Bool := !n.isWhole && n.size.isInf

/-- How many digits of the exponent are not looked at, as those before tell that it is too large. -/
def idleDigits (n : Numeral) : Nat :=
  match n.exponent with
  | some (_, ds) => (takeWithin maxExponent 0 ds).2 - 1
  | none => 0

/-- The number as it is found in the place of another value. Zero with a minus sign, and a negative
    number whose size has 64 binary digits, are no integers. -/
def found (n : Numeral) : Found :=
  if n.isWhole then
    let size := digitsValue n.whole
    if !n.negative then .integer size
    else if 0 < size && size ≤ 0x8000000000000000 then .integer (-size)
    else .float ("-" ++ Decimal.text (Float.ofScientific size false 0))
  else .float ((if n.negative then "-" else "") ++ Decimal.text n.size)

end Numeral

/-- Stops because a digit is due. A strict reading tells a text that ends from one that goes on
    otherwise. -/
def digitDue {α : Type} (strict : Bool) : Reader α := do
  if strict && (← get).isEmpty then stop (.cut .value) else stopNext .number

/-- The exponent of a number whose mark was taken. -/
def exponentRest (strict : Bool) : Reader (Bool × List Char) := do
  let negative := (← get).head? == some '-'
  if negative || (← get).head? == some '+' then drop
  let ds ← digits
  if ds.isEmpty then digitDue strict
  return (negative, ds)

/-- A number. Its whole part is zero or does not start with a zero. -/
def numeral (strict : Bool) : Reader Numeral := do
  let negative := (← get).head? == some '-'
  if negative then drop
  let source ← get
  let whole ← digits
  match whole with
  | [] => digitDue strict
  | '0' :: _ :: _ => throw (.placed (.malformed .number) (bytesIn source - 2))
  | _ => pure ()
  let mut fraction := none
  if (← get).head? == some '.' then
    drop
    let ds ← digits
    if ds.isEmpty then digitDue strict
    fraction := some ds
  let mut exponent := none
  if (← get).head? == some 'e' || (← get).head? == some 'E' then
    drop
    exponent := some (← exponentRest strict)
  return { negative, whole, fraction, exponent }

/-- A number that is not too large. -/
def boundedNumeral : Reader Numeral := do
  let n ← numeral true
  if n.overflows then throw (.placed (.malformed .tooLarge) (bytesIn (← get) + n.idleDigits))
  return n

/-! ### Lists and objects -/

/-- Whether another item of a list follows. The closing bracket stays in the text. In a strict
    reading, the end after a comma is a fault of its own. -/
def anotherItem (strict first : Bool) : Reader Bool := do
  match ← peek with
  | none => stop (.cut .list)
  | some ']' => return false
  | some c =>
    if first then return true
    else if c ≠ ',' then stopNext .itemEnd
    else
      drop
      match ← peek with
      | none => stop (.cut .value)
      | some ']' => stopNext (if strict then .lastComma else .value)
      | some _ => return true

/-- Whether another member of an object follows. The closing brace stays in the text. In a strict
    reading, the end after a comma is a fault of its own. -/
def anotherMember (strict first : Bool) : Reader Bool := do
  match ← peek with
  | none => stop (.cut .object)
  | some '}' => return false
  | some c =>
    if first then
      if c = '"' then return true else stopNext .name
    else if c ≠ ',' then stopNext .memberEnd
    else
      drop
      match ← peek with
      | none => stop (.cut (if strict then .value else .object))
      | some '"' => return true
      | some '}' => stopNext (if strict then .lastComma else .name)
      | some _ => stopNext .name

/-- Takes the colon after the name of a member. -/
def colon : Reader Unit := do
  match ← peek with
  | none => stop (.cut .object)
  | some ':' => drop
  | some _ => stopNext .colon

/-- Takes the bracket that closes a list. -/
def closeList : Reader Unit := do
  match ← peek with
  | none => stop (.cut .list)
  | some ']' => drop
  | some ',' =>
    drop
    stopNext (if (← peek) = some ']' then .lastComma else .trailing)
  | some _ => stopNext .trailing

/-- Takes the brace that closes an object. -/
def closeObject : Reader Unit := do
  match ← peek with
  | none => stop (.cut .object)
  | some '}' => drop
  | some ',' => stopNext .lastComma
  | some _ => stopNext .trailing

/-- Where reading goes on after the list that holds the front of this text. -/
def afterList (rest : List Char) : List Char :=
  match rest.dropWhile isSpace with
  | ']' :: rest => rest
  | ',' :: rest => rest.dropWhile isSpace
  | rest => rest

/-- Where reading goes on after the object that holds the front of this text. -/
def afterObject (rest : List Char) : List Char :=
  match rest.dropWhile isSpace with
  | '}' :: rest => rest
  | rest => rest

/-- Places a mismatch that has no place yet. -/
def placing {α : Type} (place : List Char → List Char) (r : Reader α) : Reader α :=
  tryCatch r fun
    | .unplaced difference rest =>
      throw (.placed (.mismatch difference) (bytesIn (place rest)))
    | stop => throw stop

/-- Reads what is in a list whose opening bracket was taken, and takes the closing one. -/
def inList {α : Type} (r : Reader α) : Reader α := do
  let a ← placing afterList r
  closeList
  return a

/-- Reads what is in an object whose opening brace was taken, and takes the closing one. -/
def inObject {α : Type} (r : Reader α) : Reader α := do
  let a ← placing afterObject r
  closeObject
  return a

/-- The items of a list whose opening bracket was taken, at most one for each character of a
    text. -/
def itemsWithin {α : Type} (strict : Bool) (item : Reader α) : List Char → Bool → Reader (List α)
  | [], _ => stop (.cut .list)
  | _ :: cs, first => do
    if ← anotherItem strict first then
      let a ← item
      return a :: (← itemsWithin strict item cs false)
    else return []

/-- The items of a list from here on. -/
def items {α : Type} (strict : Bool) (item : Reader α) (first : Bool) : Reader (List α) := do
  itemsWithin strict item (← get) first

/-- The members of an object whose opening brace was taken, at most one for each character of a
    text, handed one by one to `member`, which takes everything after the name. -/
def membersWithin {σ : Type} (strict : Bool) (member : σ → String → Reader σ) :
    List Char → Bool → σ → Reader σ
  | [], _, _ => stop (.cut .object)
  | _ :: cs, first, s => do
    if ← anotherMember strict first then
      drop
      let s ← member s (← quotedRest strict)
      membersWithin strict member cs false s
    else return s

/-- The members of an object from its opening brace on. -/
def members {σ : Type} (strict : Bool) (member : σ → String → Reader σ) (start : σ) : Reader σ := do
  membersWithin strict member (← get) true start

/-! ### Values of any kind -/

/-- How deeply lists and objects may be nested, the outermost included. -/
def maxDepth : Nat := 127

/-- A value that holds at most one level for each character of a text. In a strict reading, lists
    and objects may be nested `depth` levels deep, numbers may not be too large, and texts have to
    be well formed. -/
def valueWithin (strict : Bool) : List Char → Nat → Reader Json
  | [], _ => stop (.cut .value)
  | _ :: cs, depth => do
    match ← peek with
    | none => stop (.cut .value)
    | some 'n' => drop; exactly ['u', 'l', 'l']; return .null
    | some 't' => drop; exactly ['r', 'u', 'e']; return .bool true
    | some 'f' => drop; exactly ['a', 'l', 's', 'e']; return .bool false
    | some '"' => drop; return .text (← quotedRest strict)
    | some '[' =>
      if strict && depth = 0 then stopNext .tooDeep
      drop
      return .list (← inList (items strict (valueWithin strict cs (depth - 1)) true))
    | some '{' =>
      if strict && depth = 0 then stopNext .tooDeep
      drop
      let add := fun (l : List (String × Json)) name => do
        colon
        let value ← valueWithin strict cs (depth - 1)
        return (name, value) :: l
      return .object (← inObject (members strict add [])).reverse
    | some c =>
      if c = '-' || isDigit c then
        return .number (← if strict then boundedNumeral else numeral false).spelling
      else stopNext .value

/-- A value of any kind, nested at most `depth` levels deep. -/
def value (depth : Nat) : Reader Json := do
  valueWithin true (← get) depth

/-- Takes a value of any kind, however deep. -/
def skip : Reader Unit := do
  let _ ← valueWithin false (← get) 0

/-! ### Values of a wanted kind -/

/-- Stops because the value at the front is of another kind than wanted, or because it is no
    value. -/
def mismatched {α : Type} (wanted : String) : Reader α := do
  match ← peek with
  | none => stop (.cut .value)
  | some 'n' => drop; exactly ['u', 'l', 'l']; instead .null
  | some 't' => drop; exactly ['r', 'u', 'e']; instead (.bool true)
  | some 'f' => drop; exactly ['a', 'l', 's', 'e']; instead (.bool false)
  | some '"' => drop; instead (.text (← quotedRest true))
  | some '[' => instead .list
  | some '{' => instead .object
  | some c => if c = '-' || isDigit c then instead (← boundedNumeral).found else stopNext .value
where
  /-- Stops because of what was found. -/
  instead (found : Found) : Reader α := stop (.mismatch (.kind found wanted))

/-- A text. -/
def text (wanted : String) : Reader String := do
  match ← peek with
  | some '"' => drop; quotedRest true
  | _ => mismatched wanted

/-- A natural number up to `limit`. -/
def natural (limit : Nat) (wanted : String) : Reader Nat := do
  match ← peek with
  | some c =>
    if c = '-' || isDigit c then
      match (← boundedNumeral).found with
      | .integer n =>
        if 0 ≤ n ∧ n ≤ limit then return n.toNat
        else stop (.mismatch (.bounds (.integer n) wanted))
      | found => stop (.mismatch (.kind found wanted))
    else mismatched wanted
  | none => mismatched wanted

/-- A list of values that are all of one kind. -/
def list {α : Type} (item : Reader α) : Reader (List α) := do
  match ← peek with
  | some '[' => drop; inList (items true item true)
  | _ => mismatched "a sequence"

/-- The members of an object. -/
def object {σ : Type} (member : σ → String → Reader σ) (start : σ) : Reader σ := do
  match ← peek with
  | some '{' => drop; inObject (members true member start)
  | _ => mismatched "a map"

/-- A field of a record that is read into a value of type `σ`. -/
structure Field (σ : Type) where
  /-- The name of the field. -/
  name : String
  /-- Reads the value of the field into the record. -/
  read : σ → Reader σ
  /-- Whether the record cannot do without it. -/
  required : Bool

/-- The fields of a record, from the items of a list whose opening bracket was taken. Those that the
    list has no items for keep their values. `n` fields were read already. -/
def fieldsInOrder {σ : Type} (wanted : String) : List (Field σ) → Nat → σ → Reader σ
  | [], _, s => return s
  | field :: fields, n, s => do
    if ← anotherItem true (n = 0) then fieldsInOrder wanted fields (n + 1) (← field.read s)
    else if (field :: fields).any (·.required) then stopUnplaced (.length n wanted)
    else return s

/-- A member of an object that a record is read from. The names of the fields that were read are
    kept beside the record. -/
def fieldMember {σ : Type} (fields : List (Field σ)) (ignoreUnknown : Bool)
    (s : σ × List String) (name : String) : Reader (σ × List String) := do
  match fields.find? (·.name == name) with
  | some field =>
    if name ∈ s.2 then stopUnplaced (.repeatedField name)
    colon
    return (← field.read s.1, name :: s.2)
  | none =>
    if ignoreUnknown then
      colon
      skip
      return s
    else stopUnplaced (.unknownField name (fields.map (·.name)))

/-- The fields of a record, from the members of an object whose opening brace was taken. -/
def fieldsByName {σ : Type} (fields : List (Field σ)) (ignoreUnknown : Bool) (start : σ) :
    Reader σ := do
  let (s, names) ← members true (fieldMember fields ignoreUnknown) (start, [])
  match fields.find? fun field => field.required && field.name ∉ names with
  | some field => stopUnplaced (.missingField field.name)
  | none => return s

/-- A record, from an object or from a list of its fields. It is called `wanted` where there is
    something else. -/
def record {σ : Type} (wanted : String) (fields : List (Field σ)) (ignoreUnknown : Bool)
    (start : σ) : Reader σ := do
  match ← peek with
  | some '[' =>
    drop
    inList (fieldsInOrder s!"{wanted} with {fields.length} elements" fields 0 start)
  | some '{' => drop; inObject (fieldsByName fields ignoreUnknown start)
  | _ => mismatched wanted

/-- Takes the spaces at the end of a text. -/
def finish : Reader Unit := do
  if (← peek).isSome then stopNext .trailing

/-- Reads a whole text with a reader. -/
def run {α : Type} (r : Reader α) (source : String) : Except Fault α :=
  match (do let a ← r; finish; return a : Reader α) source.toList with
  | .ok (a, _) => .ok a
  | .error stop => .error (stop.fault source)

end Reader

/-- The value as it is found in the place of another one. -/
def found : Json → Found
  | null => .null
  | bool b => .bool b
  | number spelling =>
    match Reader.numeral true spelling with
    | .ok (n, _) => n.found
    | .error _ => .null
  | text s => .text s
  | list _ => .list
  | object _ => .object

end ImportIndex.Json
