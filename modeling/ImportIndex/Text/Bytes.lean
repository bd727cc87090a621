/-!
# Bytes and text

Paths and the names of files are byte sequences, most of which are the UTF-8 form of a text. Reading
a text back gives it (`toText?_ofText`), and what reads as a text is its UTF-8 form
(`toText?_eq_some_iff`). Byte arrays hold the same sequences (`ofArray_packed`, `packed_ofArray`).

A byte sequence that is no UTF-8 has a first fault (`utf8Fault?`): the index where the text stops
being well formed, and the number of bytes that cannot begin a character there, unless the bytes
merely end in the middle of one. Shown to people, each such stretch becomes one replacement
character (`Bytes.shown`).
-/

namespace ImportIndex

/-- A sequence of bytes, such as the spelling of a path. -/
abbrev Bytes := List UInt8

namespace Bytes

/-- Byte sequences are compared byte by byte. -/
instance decEq : DecidableEq Bytes
  | [], [] => isTrue rfl
  | [], _ :: _ => isFalse nofun
  | _ :: _, [] => isFalse nofun
  | a :: p, b :: q =>
    if h : a = b then
      match decEq p q with
      | isTrue h' => isTrue (by rw [h, h'])
      | isFalse h' => isFalse fun e => h' (List.cons.inj e).2
    else isFalse fun e => h (List.cons.inj e).1

/-- The first `n` bytes of an array, in front of other bytes. -/
def leading (a : ByteArray) : (n : Nat) → n ≤ a.size → Bytes → Bytes
  | 0, _, after => after
  | n + 1, h, after => leading a n (Nat.le_of_succ_le h) (a[n] :: after)

theorem leading_eq {a : ByteArray} {n : Nat} (h : n ≤ a.size) (after : Bytes) :
    leading a n h after = a.data.toList.take n ++ after := by
  induction n generalizing after with
  | zero => rfl
  | succ n ih =>
    have hn : n < a.data.toList.length := Nat.lt_of_lt_of_eq h Array.length_toList.symm
    rw [leading, ih, List.take_succ_eq_append_getElem hn]
    simp [ByteArray.getElem_eq_getElem_data]

/-- The bytes of an array. -/
def ofArray (a : ByteArray) : Bytes := leading a a.size (Nat.le_refl _) []

theorem ofArray_eq (a : ByteArray) : ofArray a = a.data.toList := by
  rw [ofArray, leading_eq, List.append_nil]
  exact List.take_of_length_le (Nat.le_of_eq Array.length_toList)

/-- The UTF-8 form of a text. -/
def ofText (s : String) : Bytes := ofArray s.toByteArray

/-- The bytes in an array. -/
def packed (b : Bytes) : ByteArray := b.foldl ByteArray.push ByteArray.empty

theorem data_foldl_push (b : Bytes) (a : ByteArray) :
    (b.foldl ByteArray.push a).data = a.data ++ List.toArray b := by
  induction b generalizing a with
  | nil => simp
  | cons x b ih => simp [ih, ByteArray.data_push]

theorem packed_eq (b : Bytes) : packed b = ⟨List.toArray b⟩ := by
  apply ByteArray.ext
  rw [packed, data_foldl_push]
  exact Array.empty_append

@[simp] theorem ofArray_packed (b : Bytes) : ofArray b.packed = b := by
  rw [ofArray_eq, packed_eq]

@[simp] theorem packed_ofArray (a : ByteArray) : (ofArray a).packed = a := by
  rw [packed_eq, ofArray_eq]

/-- The text whose UTF-8 form the bytes are, if there is one. -/
def toText? (b : Bytes) : Option String := String.fromUTF8? b.packed

theorem toText?_ofText (s : String) : toText? (ofText s) = some s := by
  rw [toText?, ofText, packed_ofArray, String.fromUTF8?, dif_pos s.isValidUTF8]
  rfl

theorem toText?_eq_some_iff {b : Bytes} {s : String} : toText? b = some s ↔ b = ofText s := by
  constructor
  · intro h
    rw [toText?, String.fromUTF8?] at h
    split at h
    · injection h with h
      subst h
      exact (ofArray_packed b).symm
    · contradiction
  · rintro rfl
    exact toText?_ofText s

/-- How a byte sequence goes on at one place. -/
inductive Next where
  /-- It ends. -/
  | finished
  /-- A character follows, of this many bytes. -/
  | scalar (c : Char) (width : Nat)
  /-- This many bytes follow that cannot begin a character. -/
  | invalid (width : Nat)
  /-- It ends in the middle of a character. -/
  | truncated

/-- Whether a byte continues a character. -/
def isTail (b : UInt8) : Bool := 0x80 ≤ b && b ≤ 0xBF

/-- The six low bits of a byte, which are what it adds to a character. -/
def tailBits (b : UInt8) : Nat := b.toNat % 0x40

/-- Whether `b` may follow the leading byte `a` of a character of three or four bytes. The range is
    narrower after a leading byte that begins overlong forms, surrogates or numbers past the last
    code point. -/
def maySecond (a b : UInt8) : Bool :=
  if a == 0xE0 then 0xA0 ≤ b && b ≤ 0xBF
  else if a == 0xED then 0x80 ≤ b && b ≤ 0x9F
  else if a == 0xF0 then 0x90 ≤ b && b ≤ 0xBF
  else if a == 0xF4 then 0x80 ≤ b && b ≤ 0x8F
  else isTail b

/-- The first character of a byte sequence, or what stands in its place. -/
def next : Bytes → Next
  | [] => .finished
  | a :: r =>
    if a < 0x80 then .scalar (Char.ofNat a.toNat) 1
    else if 0xC2 ≤ a && a ≤ 0xDF then
      match r with
      | [] => .truncated
      | b :: _ =>
        if isTail b then .scalar (Char.ofNat (a.toNat % 0x20 * 0x40 + tailBits b)) 2
        else .invalid 1
    else if 0xE0 ≤ a && a ≤ 0xEF then
      match r with
      | [] => .truncated
      | b :: r =>
        if !maySecond a b then .invalid 1
        else match r with
          | [] => .truncated
          | c :: _ =>
            if isTail c then
              .scalar (Char.ofNat ((a.toNat % 0x10 * 0x40 + tailBits b) * 0x40 + tailBits c)) 3
            else .invalid 2
    else if 0xF0 ≤ a && a ≤ 0xF4 then
      match r with
      | [] => .truncated
      | b :: r =>
        if !maySecond a b then .invalid 1
        else match r with
          | [] => .truncated
          | c :: r =>
            if !isTail c then .invalid 2
            else match r with
              | [] => .truncated
              | d :: _ =>
                if isTail d then
                  .scalar (Char.ofNat
                    (((a.toNat % 0x08 * 0x40 + tailBits b) * 0x40 + tailBits c) * 0x40
                      + tailBits d)) 4
                else .invalid 3
    else .invalid 1

/-- Where a byte sequence stops being UTF-8. -/
structure Utf8Fault where
  /-- The number of bytes before the fault. -/
  index : Nat
  /-- The number of bytes that cannot begin a character, or `none` if the bytes end too early. -/
  width : Option Nat
deriving DecidableEq, Repr

/-- The first fault of a byte sequence, if it is no UTF-8. -/
def utf8Fault? (b : Bytes) : Option Utf8Fault :=
  go 0 b.length b
where
  /-- Looks for the fault in `b`, which starts at `index`, in at most `n` characters. -/
  go (index : Nat) : Nat → Bytes → Option Utf8Fault
    | 0, _ => none
    | n + 1, b =>
      match next b with
      | .finished => none
      | .scalar _ width => go (index + width) n (b.drop width)
      | .invalid width => some ⟨index, some width⟩
      | .truncated => some ⟨index, none⟩

/-- The bytes as people see them: every stretch that is no UTF-8 is one replacement character. -/
def shown (b : Bytes) : String :=
  String.ofList (go b.length b)
where
  /-- The characters of `b`, which has at most `n` of them. -/
  go : Nat → Bytes → List Char
    | 0, _ => []
    | n + 1, b =>
      match next b with
      | .finished => []
      | .scalar c width => c :: go n (b.drop width)
      | .invalid width => '\uFFFD' :: go n (b.drop width)
      | .truncated => ['\uFFFD']

/-- Cuts `p` off the front of `b`, if `b` starts with it. -/
def dropStart? (b p : Bytes) : Option Bytes :=
  if p.isPrefixOf b then some (b.drop p.length) else none

/-- Cuts `p` off the end of `b`, if `b` ends with it. -/
def dropEnd? (b p : Bytes) : Option Bytes :=
  if p.isSuffixOf b then some (b.take (b.length - p.length)) else none

end Bytes

end ImportIndex
