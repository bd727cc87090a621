import ImportIndex.Text.Bytes

/-!
# File contents

The content of a file is a byte sequence. As it may be long it is kept in an array, and seen through
the list of its bytes: contents with the same bytes are equal (`Content.bytes_inj`), and every list
of bytes is that of a content (`Content.bytes_ofBytes`). Most contents are the UTF-8 form of a text
(`Content.toText?_eq_some_iff`).
-/

namespace ImportIndex

/-- The content of a file. -/
structure Content where
  /-- The bytes. -/
  array : ByteArray

namespace Content

/-- Contents are compared through their arrays. -/
instance decEq : DecidableEq Content := fun c d =>
  match ByteArray.decEq c.array d.array with
  | isTrue h => isTrue (congrArg mk h)
  | isFalse h => isFalse fun e => h (congrArg array e)

/-- The bytes of a content. -/
def bytes (c : Content) : Bytes := .ofArray c.array

/-- The content that consists of these bytes. -/
def ofBytes (b : Bytes) : Content := ⟨b.packed⟩

instance : Repr Content := ⟨fun c _ => repr c.bytes⟩

/-- The number of bytes. -/
def size (c : Content) : Nat := c.array.size

/-- The UTF-8 form of a text. -/
def ofText (s : String) : Content := ⟨s.toByteArray⟩

/-- The text whose UTF-8 form the content is, if there is one. -/
def toText? (c : Content) : Option String := String.fromUTF8? c.array

variable {c d : Content}

@[simp] theorem bytes_ofBytes (b : Bytes) : (ofBytes b).bytes = b := Bytes.ofArray_packed b

@[simp] theorem ofBytes_bytes (c : Content) : ofBytes c.bytes = c := by
  rw [ofBytes, bytes, Bytes.packed_ofArray]

/-- Contents with the same bytes are equal. -/
theorem bytes_inj : c.bytes = d.bytes ↔ c = d :=
  ⟨fun h => by rw [← ofBytes_bytes c, h, ofBytes_bytes], congrArg bytes⟩

@[simp] theorem bytes_ofText (s : String) : (ofText s).bytes = Bytes.ofText s := rfl

theorem length_bytes (c : Content) : c.bytes.length = c.size := by
  rw [bytes, Bytes.ofArray_eq, Array.length_toList]
  rfl

theorem toText?_bytes (c : Content) : c.bytes.toText? = c.toText? := by
  rw [Bytes.toText?, bytes, Bytes.packed_ofArray, toText?]

theorem toText?_ofText (s : String) : toText? (ofText s) = some s := by
  rw [← toText?_bytes]
  exact Bytes.toText?_ofText s

theorem toText?_eq_some_iff {s : String} : c.toText? = some s ↔ c = ofText s := by
  rw [← toText?_bytes, Bytes.toText?_eq_some_iff, ← bytes_ofText, bytes_inj]

end Content

end ImportIndex
