import ImportIndex.Path.Order
import Std.Data.ExtTreeMap

/-!
# Tables keyed by paths

A table maps paths to values. Paths that are the same path are one key, in the spelling it was first
inserted with (`spelling?`), and the entries are listed in the order of their keys. A table is seen
through `get?`: inserting a value makes it the value of its key (`get?_insert_of_same`) and of no
other (`get?_insert_of_not_same`), and erasing leaves the key without one (`get?_erase_of_same`).

Tables with the same entries are equal, whatever their history (`entries_inj`).
-/

namespace ImportIndex

/-- A table from paths to values of type `α`. -/
structure PathTable (α : Type) where
  /-- The entries, as a search tree. -/
  tree : Std.ExtTreeMap Path α Path.compare

namespace PathTable

variable {α : Type}

/-- The table without entries. -/
def empty : PathTable α := ⟨∅⟩

instance : EmptyCollection (PathTable α) := ⟨empty⟩

instance : Inhabited (PathTable α) := ⟨empty⟩

/-- The entries, in the order of their keys. -/
def entries (t : PathTable α) : List (Path × α) := t.tree.toList

/-- The number of entries. -/
def size (t : PathTable α) : Nat := t.tree.size

/-- Whether there are no entries. -/
def isEmpty (t : PathTable α) : Bool := t.tree.isEmpty

/-- The keys, in order. -/
def keys (t : PathTable α) : List Path := t.tree.keys

/-- The value of `p`. -/
def get? (t : PathTable α) (p : Path) : Option α := t.tree[p]?

/-- Whether `p` has a value. -/
def contains (t : PathTable α) (p : Path) : Bool := t.tree.contains p

/-- The key that is the same path as `p`, in its spelling. -/
def spelling? (t : PathTable α) (p : Path) : Option Path := t.tree.getKey? p

/-- Makes `v` the value of `p`. A key that is the same path as `p` keeps its spelling. -/
def insert (t : PathTable α) (p : Path) (v : α) : PathTable α :=
  ⟨t.tree.insert ((t.spelling? p).getD p) v⟩

/-- Takes the value of `p` out of the table. -/
def erase (t : PathTable α) (p : Path) : PathTable α := ⟨t.tree.erase p⟩

/-! ### What a table holds -/

variable {t u : PathTable α} {p q : Path} {v : α}

/-- Tables with the same entries are equal. -/
theorem entries_inj : t.entries = u.entries ↔ t = u := by
  rw [entries, entries, Std.ExtTreeMap.toList_inj]
  cases t
  cases u
  simp

theorem length_entries : t.entries.length = t.size := Std.ExtTreeMap.length_toList

theorem length_keys : t.keys.length = t.size := Std.ExtTreeMap.length_keys

/-- The keys ascend, so each is listed once. -/
theorem pairwise_keys : t.keys.Pairwise fun p q => p.compare q = .lt :=
  Std.ExtTreeMap.ordered_keys

theorem contains_eq_isSome_get? : t.contains p = (t.get? p).isSome :=
  Std.ExtTreeMap.contains_eq_isSome_getElem?

theorem contains_eq_isSome_spelling? : t.contains p = (t.spelling? p).isSome :=
  Std.ExtTreeMap.contains_eq_isSome_getKey?

/-- The key of a path is the same path. -/
theorem same_of_spelling? (h : t.spelling? p = some q) : q.Same p := by
  have := Std.ExtTreeMap.compare_getKey?_self (t := t.tree) (k := p)
  rw [← Path.compare_eq_iff]
  simpa [show t.tree.getKey? p = some q from h] using this

theorem get?_congr (h : p.Same q) : t.get? p = t.get? q :=
  Std.ExtTreeMap.getElem?_congr (Path.compare_eq_iff.2 h)

theorem contains_congr (h : p.Same q) : t.contains p = t.contains q :=
  Std.ExtTreeMap.contains_congr (Path.compare_eq_iff.2 h)

theorem spelling?_congr (h : p.Same q) : t.spelling? p = t.spelling? q :=
  Std.ExtTreeMap.getKey?_congr (Path.compare_eq_iff.2 h)

/-- The key under which a value of `p` is put is the same path. -/
theorem same_getD_spelling? : ((t.spelling? p).getD p).Same p := by
  cases h : t.spelling? p with
  | none => exact rfl
  | some q => exact same_of_spelling? h

@[simp] theorem get?_empty : (∅ : PathTable α).get? p = none :=
  Std.ExtTreeMap.getElem?_empty

@[simp] theorem contains_empty : (∅ : PathTable α).contains p = false :=
  Std.ExtTreeMap.contains_empty

theorem get?_insert_of_same (h : p.Same q) : (t.insert p v).get? q = some v := by
  rw [get?, insert, Std.ExtTreeMap.getElem?_insert,
    if_pos (Path.compare_eq_iff.2 (same_getD_spelling?.trans h))]

theorem get?_insert_of_not_same (h : ¬ p.Same q) : (t.insert p v).get? q = t.get? q := by
  rw [get?, insert, Std.ExtTreeMap.getElem?_insert, if_neg]
  · rfl
  · rw [Path.compare_eq_iff]
    exact fun hq => h (same_getD_spelling?.symm.trans hq)

/-- What is there after inserting was put there, or was there before. -/
theorem get?_insert_eq_some {w : α} (h : (t.insert p v).get? q = some w) :
    p.Same q ∧ v = w ∨ ¬ p.Same q ∧ t.get? q = some w := by
  by_cases hs : p.Same q
  · rw [get?_insert_of_same hs] at h
    exact .inl ⟨hs, Option.some.inj h⟩
  · rw [get?_insert_of_not_same hs] at h
    exact .inr ⟨hs, h⟩

theorem contains_insert : (t.insert p v).contains q = (decide (p.Same q) || t.contains q) := by
  rw [contains_eq_isSome_get?, contains_eq_isSome_get?]
  by_cases h : p.Same q
  · simp [get?_insert_of_same h, h]
  · simp [get?_insert_of_not_same h, h]

/-- A key keeps the spelling it was first inserted with. -/
theorem spelling?_insert_of_same (h : p.Same q) :
    (t.insert p v).spelling? q = some ((t.spelling? q).getD p) := by
  rw [spelling?, insert, Std.ExtTreeMap.getKey?_insert,
    if_pos (Path.compare_eq_iff.2 (same_getD_spelling?.trans h)), spelling?_congr h]

theorem spelling?_insert_of_not_same (h : ¬ p.Same q) :
    (t.insert p v).spelling? q = t.spelling? q := by
  rw [spelling?, insert, Std.ExtTreeMap.getKey?_insert, if_neg]
  · rfl
  · rw [Path.compare_eq_iff]
    exact fun hq => h (same_getD_spelling?.symm.trans hq)

theorem get?_erase_of_same (h : p.Same q) : (t.erase p).get? q = none := by
  rw [get?, erase, Std.ExtTreeMap.getElem?_erase, if_pos (Path.compare_eq_iff.2 h)]

theorem get?_erase_of_not_same (h : ¬ p.Same q) : (t.erase p).get? q = t.get? q := by
  rw [get?, erase, Std.ExtTreeMap.getElem?_erase, if_neg (fun hq => h (Path.compare_eq_iff.1 hq))]
  rfl

/-- What is there after erasing was there before. -/
theorem get?_of_get?_erase (h : (t.erase p).get? q = some v) : t.get? q = some v := by
  by_cases hs : p.Same q
  · rw [get?_erase_of_same hs] at h
    cases h
  · rwa [get?_erase_of_not_same hs] at h

example : ((((∅ : PathTable Nat).insert (.ofText "b") 1).insert (.ofText "a//b") 2).insert
    (.ofText "a/b") 3).entries.map (fun e => (e.1.shown, e.2)) = [("a//b", 3), ("b", 1)] := by
  decide +kernel

end PathTable

end ImportIndex
