import ImportIndex.Path.Table

/-!
# Tables from their entries

A table is known by the values and the spellings of its keys (`PathTable.ext`). Inserting the entries
of a table one by one into the empty table gives it back (`PathTable.foldl_insert_entries`). Taking keys
out leaves the other entries (`PathTable.entries_foldl_erase`).
-/

namespace ImportIndex.PathTable

variable {α : Type} {t u : PathTable α} {p q : Path} {v : α} {l : List (Path × α)} {e : Path × α}

/-- Tables with the same values of the same keys are equal. -/
theorem ext (hspelling : ∀ p, t.spelling? p = u.spelling? p) (hget : ∀ p, t.get? p = u.get? p) :
    t = u := by
  have htree : t.tree = u.tree := by
    refine Std.ExtTreeMap.ext_getKey_getElem? (fun p hp hp' => ?_) hget
    exact Option.some.inj ((Std.ExtTreeMap.getKey?_eq_some_getKey hp).symm.trans
      ((hspelling p).trans (Std.ExtTreeMap.getKey?_eq_some_getKey hp')))
  cases t
  cases u
  exact congrArg mk htree

/-- What the entries of a table are. -/
theorem mem_entries : e ∈ t.entries ↔ t.spelling? e.1 = some e.1 ∧ t.get? e.1 = some e.2 :=
  Std.ExtTreeMap.mem_toList_iff_getKey?_eq_some_and_getElem?_eq_some

theorem exists_of_get? (h : t.get? p = some v) :
    ∃ e ∈ t.entries, e.1.Same p ∧ e.2 = v ∧ t.spelling? p = some e.1 := by
  have hcontains : (t.spelling? p).isSome = true := by
    rw [← contains_eq_isSome_spelling?, contains_eq_isSome_get?, h]
    rfl
  obtain ⟨q, hq⟩ := Option.isSome_iff_exists.1 hcontains
  have hsame := same_of_spelling? hq
  refine ⟨(q, v), mem_entries.2 ⟨?_, ?_⟩, hsame, rfl, hq⟩
  · rw [spelling?_congr hsame, hq]
  · rw [get?_congr hsame, h]

theorem foldl_insert_of_not (h : ∀ e ∈ l, ¬ e.1.Same p) :
    (l.foldl (fun t e => t.insert e.1 e.2) t).get? p = t.get? p ∧
      (l.foldl (fun t e => t.insert e.1 e.2) t).spelling? p = t.spelling? p := by
  induction l generalizing t with
  | nil => exact ⟨rfl, rfl⟩
  | cons e l ih =>
    rw [List.forall_mem_cons] at h
    rw [List.foldl_cons, (ih h.2).1, (ih h.2).2, get?_insert_of_not_same h.1,
      spelling?_insert_of_not_same h.1]
    exact ⟨rfl, rfl⟩

/-- Each of several entries with different keys is found after they were inserted. -/
theorem foldl_insert_of_mem (hl : l.Pairwise fun e e' => ¬ e.1.Same e'.1)
    (hnew : ∀ e ∈ l, t.spelling? e.1 = none) (he : e ∈ l) (hp : e.1.Same p) :
    (l.foldl (fun t e => t.insert e.1 e.2) t).get? p = some e.2 ∧
      (l.foldl (fun t e => t.insert e.1 e.2) t).spelling? p = some e.1 := by
  induction l generalizing t with
  | nil => cases he
  | cons first l ih =>
    rw [List.pairwise_cons] at hl
    rw [List.forall_mem_cons] at hnew
    rw [List.foldl_cons]
    rcases List.mem_cons.1 he with rfl | he
    · have hothers : ∀ e' ∈ l, ¬ e'.1.Same p := fun e' he' h => hl.1 e' he' (hp.trans h.symm)
      rw [(foldl_insert_of_not hothers).1, (foldl_insert_of_not hothers).2, get?_insert_of_same hp,
        spelling?_insert_of_same hp, ← spelling?_congr hp, hnew.1]
      exact ⟨rfl, rfl⟩
    · refine ih hl.2 (fun e' he' => ?_) he
      rw [spelling?_insert_of_not_same (hl.1 e' he')]
      exact hnew.2 e' he'

/-- The entries of a table make it up. -/
theorem foldl_insert_entries : t.entries.foldl (fun t e => t.insert e.1 e.2) (∅ : PathTable α) = t := by
  have hdistinct : t.entries.Pairwise fun e e' => ¬ e.1.Same e'.1 :=
    Std.ExtTreeMap.distinct_keys_toList.imp fun h hsame => h (Path.compare_eq_iff.2 hsame)
  have hempty : ∀ p, (∅ : PathTable α).spelling? p = none := fun p => Std.ExtTreeMap.getKey?_empty
  have hboth : ∀ p, (t.entries.foldl (fun t e => t.insert e.1 e.2) (∅ : PathTable α)).get? p = t.get? p ∧
      (t.entries.foldl (fun t e => t.insert e.1 e.2) (∅ : PathTable α)).spelling? p = t.spelling? p := by
    intro p
    cases hget : t.get? p with
    | some v =>
      obtain ⟨e, he, hsame, rfl, hspelling⟩ := exists_of_get? hget
      rw [hspelling]
      exact foldl_insert_of_mem hdistinct (fun e _ => hempty e.1) he hsame
    | none =>
      have hspelling : t.spelling? p = none := by
        rw [← Option.isNone_iff_eq_none, ← Option.not_isSome, ← contains_eq_isSome_spelling?,
          contains_eq_isSome_get?, hget]
        rfl
      have hnone : ∀ e ∈ t.entries, ¬ e.1.Same p := by
        intro e he hsame
        rw [← get?_congr hsame, (mem_entries.1 he).2] at hget
        cases hget
      rw [(foldl_insert_of_not hnone).1, (foldl_insert_of_not hnone).2, hspelling]
      exact ⟨get?_empty, hempty p⟩
  exact ext (fun p => (hboth p).2) fun p => (hboth p).1

/-! ### Taking keys out -/

theorem spelling?_erase_of_same (h : p.Same q) : (t.erase p).spelling? q = none := by
  rw [spelling?, erase, Std.ExtTreeMap.getKey?_erase, if_pos (Path.compare_eq_iff.2 h)]

theorem spelling?_erase_of_not_same (h : ¬ p.Same q) : (t.erase p).spelling? q = t.spelling? q := by
  rw [spelling?, erase, Std.ExtTreeMap.getKey?_erase, if_neg fun hq => h (Path.compare_eq_iff.1 hq)]
  rfl

/-- The entries ascend. -/
theorem pairwise_entries : t.entries.Pairwise fun e e' => e.1.compare e'.1 = .lt :=
  Std.ExtTreeMap.ordered_keys_toList

theorem nodup_entries : t.entries.Nodup :=
  pairwise_entries.imp fun {a b} h hab => by
    rw [hab, Path.compare_eq_iff.2 rfl] at h
    cases h

/-- Entries that ascend are in the one order that there is. -/
theorem entries_eq_of_mem (hl : l.Pairwise fun e e' => e.1.compare e'.1 = .lt)
    (h : ∀ e, e ∈ t.entries ↔ e ∈ l) : t.entries = l := by
  have hirrefl : ∀ e : Path × α, e.1.compare e.1 ≠ .lt := fun e he => by
    rw [Path.compare_eq_iff.2 rfl] at he
    cases he
  refine List.Perm.eq_of_pairwise (fun e e' _ _ h h' => ?_) pairwise_entries hl
    ((List.perm_ext_iff_of_nodup nodup_entries ?_).2 h)
  · rw [Std.OrientedCmp.gt_of_lt h] at h'
    cases h'
  · refine hl.imp fun {e e'} h he => ?_
    rw [he] at h
    exact hirrefl e' h

/-- What is left after a key was taken out. -/
theorem entries_erase : (t.erase p).entries = t.entries.filter fun e => !decide (p.Same e.1) := by
  refine entries_eq_of_mem (pairwise_entries.filter _) fun e => ?_
  rw [mem_entries, List.mem_filter, mem_entries]
  by_cases h : p.Same e.1
  · simp [spelling?_erase_of_same h, h]
  · simp [spelling?_erase_of_not_same h, get?_erase_of_not_same h, h]

/-- What is left after keys were taken out. -/
theorem entries_foldl_erase {ps : List Path} : (ps.foldl erase t).entries =
    t.entries.filter fun e => !ps.any fun p => decide (p.Same e.1) := by
  induction ps generalizing t with
  | nil => simp [List.filter_eq_self.2]
  | cons p ps ih =>
    rw [List.foldl_cons, ih, entries_erase, List.filter_filter]
    simp [Bool.and_comm]

/-- Keys that are not taken out stay as they are. -/
theorem foldl_erase_of_not {ps : List Path} (h : ∀ q ∈ ps, ¬ q.Same p) :
    (ps.foldl erase t).get? p = t.get? p ∧ (ps.foldl erase t).spelling? p = t.spelling? p := by
  induction ps generalizing t with
  | nil => exact ⟨rfl, rfl⟩
  | cons q ps ih =>
    rw [List.forall_mem_cons] at h
    rw [List.foldl_cons, (ih h.2).1, (ih h.2).2, get?_erase_of_not_same h.1,
      spelling?_erase_of_not_same h.1]
    exact ⟨rfl, rfl⟩

theorem keys_eq_map_entries : t.keys = t.entries.map (·.1) :=
  Std.ExtTreeMap.map_fst_toList_eq_keys.symm

@[simp] theorem spelling?_empty : (∅ : PathTable α).spelling? p = none := Std.ExtTreeMap.getKey?_empty

theorem mem_keys : p ∈ t.keys ↔ t.spelling? p = some p := by
  rw [keys_eq_map_entries, List.mem_map]
  constructor
  · rintro ⟨e, he, rfl⟩
    exact (mem_entries.1 he).1
  · intro hp
    obtain ⟨v, hv⟩ : ∃ v, t.get? p = some v := by
      rw [← Option.isSome_iff_exists, ← contains_eq_isSome_get?, contains_eq_isSome_spelling?, hp]
      rfl
    exact ⟨(p, v), mem_entries.2 ⟨hp, hv⟩, rfl⟩

/-- The keys after an insertion are those before, and the new one. -/
theorem mem_keys_insert (h : q ∈ (t.insert p v).keys) : q = p ∨ q ∈ t.keys := by
  rw [mem_keys] at h ⊢
  by_cases hs : p.Same q
  · rw [spelling?_insert_of_same hs] at h
    cases hq : t.spelling? q with
    | none =>
      rw [hq] at h
      exact .inl (Option.some.inj h).symm
    | some q' =>
      rw [hq] at h
      exact .inr h
  · rw [spelling?_insert_of_not_same hs] at h
    exact .inr h

/-- What is left after those keys were taken out that are of some kind. -/
theorem entries_foldl_erase_filter {f : Path → Bool} :
    ((t.keys.filter f).foldl erase t).entries = t.entries.filter fun e => !f e.1 := by
  rw [entries_foldl_erase]
  refine List.filter_congr fun e he => ?_
  have hkey : (t.keys.filter f).any (fun p => decide (p.Same e.1)) = f e.1 := by
    rw [Bool.eq_iff_iff, List.any_eq_true]
    constructor
    · rintro ⟨p, hp, hsame⟩
      obtain ⟨hp, hf⟩ := List.mem_filter.1 hp
      rw [keys_eq_map_entries, List.mem_map] at hp
      obtain ⟨e', he', rfl⟩ := hp
      have hsame := of_decide_eq_true hsame
      have hspelling := (mem_entries.1 he').1
      rw [spelling?_congr hsame, (mem_entries.1 he).1] at hspelling
      rwa [Option.some.inj hspelling]
    · intro hf
      rw [keys_eq_map_entries]
      exact ⟨e.1, List.mem_filter.2 ⟨List.mem_map_of_mem he, hf⟩, decide_eq_true rfl⟩
  rw [hkey]

end ImportIndex.PathTable
