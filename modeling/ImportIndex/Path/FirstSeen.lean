import ImportIndex.Path.Table

/-!
# Paths in the order in which they are first seen

A list of paths to which paths are added unless the same path is there (`FirstSeen.add`). What is
there is found in a table, so that adding does not take longer as the list grows.

* `mem_toList_iff`: the list holds each path in the spelling in which the table finds it;
* `pairwise_toList`: no two paths in the list are the same;
* `contains_iff`: a path is found exactly if the same path is in the list.
-/

namespace ImportIndex

/-- A list of paths, no two of which are the same. -/
structure FirstSeen where
  /-- The paths, the last one first. -/
  latest : List Path
  /-- The paths, to look them up. -/
  found : PathTable Unit
  /-- Both hold the same paths in the same spellings. -/
  mem_latest : ∀ q, q ∈ latest ↔ found.spelling? q = some q
  /-- Every path is listed once. -/
  distinct : latest.Pairwise fun p q => ¬ p.Same q

namespace FirstSeen

/-- The list without paths. -/
def empty : FirstSeen where
  latest := []
  found := ∅
  mem_latest q := by
    have : (∅ : PathTable Unit).spelling? q = none := Std.ExtTreeMap.getKey?_empty
    simp [this]
  distinct := .nil

instance : EmptyCollection FirstSeen := ⟨empty⟩

instance : Inhabited FirstSeen := ⟨empty⟩

/-- The paths, in the order in which they were added. -/
def toList (l : FirstSeen) : List Path := l.latest.reverse

/-- The number of paths. -/
def size (l : FirstSeen) : Nat := l.found.size

/-- Whether the same path is in the list. -/
def contains (l : FirstSeen) (p : Path) : Bool := l.found.contains p

/-- The same path in the spelling in which it was added. -/
def spelling? (l : FirstSeen) (p : Path) : Option Path := l.found.spelling? p

variable {l : FirstSeen} {p q : Path}

theorem spelling?_eq_none (h : l.contains p = false) : l.found.spelling? p = none := by
  rw [contains, PathTable.contains_eq_isSome_spelling?] at h
  simpa using h

theorem contains_of_mem_latest (h : q ∈ l.latest) : l.contains q = true := by
  rw [contains, PathTable.contains_eq_isSome_spelling?, (l.mem_latest q).1 h]
  rfl

/-- Adds a path, unless the same path is in the list. -/
def add (l : FirstSeen) (p : Path) : FirstSeen :=
  if h : l.contains p then l
  else
    { latest := p :: l.latest
      found := l.found.insert p ()
      mem_latest := fun q => by
        by_cases hs : p.Same q
        · have hq : l.contains q = false := by
            rw [contains, ← PathTable.contains_congr hs]
            exact Bool.eq_false_iff.2 h
          rw [PathTable.spelling?_insert_of_same hs, spelling?_eq_none hq, List.mem_cons,
            l.mem_latest, spelling?_eq_none hq]
          simp [eq_comm]
        · have hne : q ≠ p := fun he => hs (he ▸ rfl)
          rw [PathTable.spelling?_insert_of_not_same hs, List.mem_cons, l.mem_latest]
          simp [hne]
      distinct := by
        refine List.pairwise_cons.2 ⟨fun q hq hs => ?_, l.distinct⟩
        have hq := contains_of_mem_latest hq
        rw [contains, ← PathTable.contains_congr hs] at hq
        exact h hq }

/-- Adds paths one after another. -/
def addAll (l : FirstSeen) (paths : List Path) : FirstSeen := paths.foldl add l

/-! ### What is in the list -/

theorem mem_toList_iff : q ∈ l.toList ↔ l.spelling? q = some q := by
  rw [toList, List.mem_reverse, l.mem_latest, spelling?]

theorem pairwise_toList : l.toList.Pairwise fun p q => ¬ p.Same q :=
  List.pairwise_reverse.2 (l.distinct.imp fun h hs => h hs.symm)

theorem contains_iff : l.contains p = true ↔ ∃ q ∈ l.toList, q.Same p := by
  constructor
  · intro h
    rw [contains, PathTable.contains_eq_isSome_spelling?] at h
    obtain ⟨q, hq⟩ := Option.isSome_iff_exists.1 h
    have hs := PathTable.same_of_spelling? hq
    refine ⟨q, mem_toList_iff.2 ?_, hs⟩
    rw [spelling?, PathTable.spelling?_congr hs, hq]
  · rintro ⟨q, hq, hs⟩
    rw [contains, ← PathTable.contains_congr hs]
    exact contains_of_mem_latest (List.mem_reverse.1 hq)

@[simp] theorem toList_empty : (∅ : FirstSeen).toList = [] := rfl

/-- A path is added at the end, unless the same path is in the list. -/
theorem toList_add : (l.add p).toList = if l.contains p then l.toList else l.toList ++ [p] := by
  unfold add
  split <;> simp [toList, *]

theorem contains_add : (l.add p).contains q = (decide (p.Same q) || l.contains q) := by
  unfold add
  split
  · next h =>
    by_cases hs : p.Same q
    · rw [contains, PathTable.contains_congr hs] at h
      simp [contains, h]
    · simp [hs]
  · exact PathTable.contains_insert

end FirstSeen

end ImportIndex
