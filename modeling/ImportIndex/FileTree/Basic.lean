import ImportIndex.Text.Content

/-!
# Directory trees

A directory is the list of its entries, each a file with its content or a directory with entries of
its own. What a directory holds is seen through `Dir.find?`, one name at a time, and through
`Dir.get?`, which follows the names of a *location* from the directory down.
-/

namespace ImportIndex

/-- The names that lead from a directory to something below it. -/
abbrev Location := List Bytes

/-- The entries of a directory. -/
inductive Dir where
  /-- No entries. -/
  | empty
  /-- A file, and the other entries. -/
  | file (name : Bytes) (content : Content) (rest : Dir)
  /-- A directory, and the other entries. -/
  | dir (name : Bytes) (inner : Dir) (rest : Dir)
deriving DecidableEq, Repr, Inhabited

/-- What a name or a location stands for. -/
inductive Entry where
  /-- A file. -/
  | file (content : Content)
  /-- A directory. -/
  | dir (inner : Dir)
deriving DecidableEq, Repr

namespace Dir

/-- The entry with this name. -/
def find? : Dir → Bytes → Option Entry
  | empty, _ => none
  | file n content rest, name => if n = name then some (.file content) else rest.find? name
  | dir n inner rest, name => if n = name then some (.dir inner) else rest.find? name

/-- The directory with one more entry in front. -/
def cons (name : Bytes) : Entry → Dir → Dir
  | .file content, rest => .file name content rest
  | .dir inner, rest => .dir name inner rest

/-- Makes `e` the entry with this name, in the place of the one that has it. -/
def insert (name : Bytes) (e : Entry) : Dir → Dir
  | empty => cons name e empty
  | file n content rest =>
    if n = name then cons name e rest else file n content (rest.insert name e)
  | dir n inner rest =>
    if n = name then cons name e rest else dir n inner (rest.insert name e)

/-- Takes every entry with this name out. -/
def erase (name : Bytes) : Dir → Dir
  | empty => empty
  | file n content rest => if n = name then rest.erase name else file n content (rest.erase name)
  | dir n inner rest => if n = name then rest.erase name else dir n inner (rest.erase name)

/-- What is at a location below the directory. -/
def get? : Dir → Location → Option Entry
  | d, [] => some (.dir d)
  | d, name :: rest =>
    match d.find? name with
    | some (.dir inner) => inner.get? rest
    | some (.file content) => if rest = [] then some (.file content) else none
    | none => none

/-- Changes the directory at a location, if there is one. -/
def modify (f : Dir → Dir) : Dir → Location → Dir
  | d, [] => f d
  | d, name :: rest =>
    match d.find? name with
    | some (.dir inner) => d.insert name (.dir (inner.modify f rest))
    | _ => d

/-! ### What a directory holds -/

variable {d : Dir} {n name : Bytes} {e : Entry}

@[simp] theorem find?_cons :
    (cons n e d).find? name = if n = name then some e else d.find? name := by
  cases e <;> rfl

@[simp] theorem find?_insert_self : (d.insert name e).find? name = some e := by
  induction d with
  | empty => simp [insert]
  | file m content rest ih =>
    rw [insert]
    split
    · simp
    · next h => simp [find?, h, ih]
  | dir m inner rest _ ih =>
    rw [insert]
    split
    · simp
    · next h => simp [find?, h, ih]

theorem find?_insert_of_ne (h : n ≠ name) : (d.insert n e).find? name = d.find? name := by
  induction d with
  | empty => simp [insert, find?, h]
  | file m content rest ih =>
    rw [insert]
    split
    · next hm => simp [find?, hm, h]
    · simp [find?, ih]
  | dir m inner rest _ ih =>
    rw [insert]
    split
    · next hm => simp [find?, hm, h]
    · simp [find?, ih]

@[simp] theorem find?_erase_self : (d.erase name).find? name = none := by
  induction d with
  | empty => rfl
  | file m content rest ih =>
    rw [erase]
    split
    · exact ih
    · next h => simp [find?, h, ih]
  | dir m inner rest _ ih =>
    rw [erase]
    split
    · exact ih
    · next h => simp [find?, h, ih]

theorem find?_erase_of_ne (h : n ≠ name) : (d.erase n).find? name = d.find? name := by
  induction d with
  | empty => rfl
  | file m content rest ih =>
    rw [erase]
    split
    · next hm => simp [find?, hm, h, ih]
    · simp [find?, ih]
  | dir m inner rest _ ih =>
    rw [erase]
    split
    · next hm => simp [find?, hm, h, ih]
    · simp [find?, ih]

end Dir

end ImportIndex
