import ImportIndex.FileTree.Disk
import ImportIndex.Path.Order
import ImportIndex.Path.Relative

/-!
# Paths as lists of names

A normal path is a list of names in disguise: `Path.ofLocation` spells it from the root directory
down, and `Path.ofNames` as seen from some directory. On such paths the operations on spellings are
those on lists.

* `components_ofLocation`, `components_ofNames`, `steps_ofLocation`: the names are read back;
* `parent?_ofLocation`, `join_ofLocation`: the parent drops the last name, and joining appends.
-/

namespace ImportIndex

/-- Whether an entry of a directory can be named so. -/
def IsName (n : Bytes) : Prop :=
  n ≠ [] ∧ Path.separator ∉ n ∧ n ≠ Path.herePiece ∧ n ≠ Path.upPiece

instance (n : Bytes) : Decidable (IsName n) :=
  inferInstanceAs (Decidable (n ≠ [] ∧ Path.separator ∉ n ∧ n ≠ Path.herePiece ∧ n ≠ Path.upPiece))

/-! ### Splitting -/

section

variable {α : Type} {p : α → Bool} {l : List α} {ls : List (List α)} {sep : α}

/-- No piece holds a separator. -/
theorem not_of_mem_splitWhere {piece : List α} (h : piece ∈ splitWhere p l) {x : α}
    (hx : x ∈ piece) : p x = false := by
  induction l generalizing piece with
  | nil => simp_all [splitWhere]
  | cons y l ih =>
    rw [splitWhere] at h
    split at h
    · rcases List.mem_cons.1 h with rfl | h
      · contradiction
      · exact ih h hx
    · next hy =>
      cases hs : splitWhere p l with
      | nil => exact absurd hs (splitWhere_ne_nil p l)
      | cons q qs =>
        rw [hs] at h ih
        rcases List.mem_cons.1 h with rfl | h
        · rcases List.mem_cons.1 hx with rfl | hx
          · simpa using hy
          · exact ih List.mem_cons_self hx
        · exact ih (List.mem_cons_of_mem _ h) hx

theorem splitWhere_of_not (h : ∀ x ∈ l, p x = false) : splitWhere p l = [l] := by
  induction l with
  | nil => rfl
  | cons y l ih =>
    rw [splitWhere, h y List.mem_cons_self, ih fun x hx => h x (List.mem_cons_of_mem _ hx)]
    rfl

variable [BEq α] [LawfulBEq α]

theorem splitAt_of_not_mem (h : sep ∉ l) : splitAt sep l = [l] :=
  splitWhere_of_not fun x hx => by
    simp only [beq_eq_false_iff_ne, ne_eq]
    rintro rfl
    exact h hx

/-- Pieces without separators that are joined are read back. -/
theorem splitAt_joinWith (hne : ls ≠ []) (h : ∀ piece ∈ ls, sep ∉ piece) :
    splitAt sep (joinWith sep ls) = ls := by
  induction ls with
  | nil => contradiction
  | cons piece ls ih =>
    have hp := splitAt_of_not_mem (h piece List.mem_cons_self)
    cases ls with
    | nil => exact hp
    | cons q ls =>
      rw [joinWith, splitAt_append_cons, hp, ih (by simp) fun r hr => h r (by simp [hr])]
      · rfl
      · simp

/-- What holds no separator is put at the end of the last piece if it is put at the end. -/
theorem exists_splitAt_append (sep : α) (l : List α) :
    ∃ init last, ∀ e : List α, sep ∉ e → splitAt sep (l ++ e) = init ++ [last ++ e] := by
  induction l with
  | nil => exact ⟨[], [], fun e he => by simpa using splitAt_of_not_mem he⟩
  | cons x l ih =>
    obtain ⟨init, last, ih⟩ := ih
    by_cases hx : x = sep
    · subst hx
      refine ⟨[] :: init, last, fun e he => ?_⟩
      rw [List.cons_append, ← List.nil_append (x :: (l ++ e)), splitAt_append_cons, ih e he]
      rfl
    · have hstep : ∀ {e q : List α} {qs}, splitAt sep (l ++ e) = q :: qs →
          splitAt sep (x :: (l ++ e)) = (x :: q) :: qs := fun {e q qs} h => by
        rw [splitAt] at h ⊢
        rw [splitWhere, if_neg (by simpa using hx), h]
      cases init with
      | nil => exact ⟨[], x :: last, fun e he => hstep (ih e he)⟩
      | cons q init => exact ⟨(x :: q) :: init, last, fun e he => hstep (ih e he)⟩

omit [BEq α] [LawfulBEq α] in
theorem joinWith_append {ms : List (List α)} (hl : ls ≠ []) (hm : ms ≠ []) :
    joinWith sep (ls ++ ms) = joinWith sep ls ++ sep :: joinWith sep ms := by
  induction ls with
  | nil => contradiction
  | cons piece ls ih =>
    cases ls with
    | nil =>
      cases ms with
      | nil => contradiction
      | cons q ms => rfl
    | cons q ls =>
      have := ih (by simp)
      simp only [List.cons_append, joinWith] at this ⊢
      simp [this]

end

namespace IsName

variable {n : Bytes}

theorem pieceComponent? (h : IsName n) : Path.pieceComponent? n = some (.name n) := by
  obtain ⟨hne, -, hhere, hup⟩ := h
  simp [Path.pieceComponent?, Path.isIdle, hne, hhere, hup]

theorem isIdle (h : IsName n) : Path.isIdle n = false := by
  obtain ⟨hne, -, hhere, -⟩ := h
  simp [Path.isIdle, hne, hhere]

/-- A piece of a path that stands for a name is one. -/
theorem of_pieceComponent? {piece : Bytes} (hs : Path.separator ∉ piece)
    (h : Path.pieceComponent? piece = some (.name n)) : IsName n := by
  rw [Path.pieceComponent?] at h
  split at h
  · contradiction
  · next hidle =>
    split at h
    · cases h
    · next hup =>
      obtain rfl : piece = n := by simpa using h
      simp [Path.isIdle] at hidle
      exact ⟨hidle.1, hs, hidle.2, hup⟩

end IsName

namespace Path

/-- The path that spells these names, as seen from some directory. -/
def ofNames (names : List Bytes) : Path := ⟨joinWith separator names⟩

variable {l m : List Bytes} {n : Bytes}

theorem filterMap_pieceComponent? (h : ∀ n ∈ l, IsName n) :
    l.filterMap pieceComponent? = l.map .name := by
  induction l with
  | nil => rfl
  | cons n l ih =>
    rw [List.filterMap_cons_some (h n List.mem_cons_self).pieceComponent?,
      ih fun n hn => h n (List.mem_cons_of_mem _ hn), List.map_cons]

theorem splitAt_joinWith_names (hne : l ≠ []) (h : ∀ n ∈ l, IsName n) :
    splitAt separator (joinWith separator l) = l :=
  splitAt_joinWith hne fun n hn => (h n hn).2.1

/-- The pieces of a spelled list of names: the names, or one empty piece. -/
theorem splitAt_joinWith_eq (h : ∀ n ∈ l, IsName n) :
    splitAt separator (joinWith separator l) = if l = [] then [[]] else l := by
  split
  · next hl => subst hl; rfl
  · next hl => exact splitAt_joinWith_names hl h

/-! ### Spelled from the root directory -/

@[simp] theorem isAbsolute_ofLocation : (ofLocation l).isAbsolute = true := by
  simp [isAbsolute, ofLocation]

theorem layout_ofLocation (h : ∀ n ∈ l, IsName n) :
    (ofLocation l).layout = ⟨some .root, if l = [] then [[]] else l⟩ := by
  rw [ofLocation, layout]
  simp only [if_true]
  rw [splitAt_joinWith_eq h]

theorem components_ofLocation (h : ∀ n ∈ l, IsName n) :
    (ofLocation l).components = .root :: l.map .name := by
  rw [components, layout_ofLocation h]
  split
  · next hl => subst hl; rfl
  · simp [filterMap_pieceComponent? h]

theorem steps_ofLocation (h : ∀ n ∈ l, IsName n) : (ofLocation l).steps = l := by
  have : splitAt separator (separator :: joinWith separator l) =
      [] :: splitAt separator (joinWith separator l) := splitAt_append_cons separator [] _
  rw [steps, ofLocation, this, splitAt_joinWith_eq h, List.filter_cons_of_neg (by simp)]
  split
  · next hl => subst hl; rfl
  · exact List.filter_eq_self.2 fun n hn => by simpa using (h n hn).1

/-- A spelled list of names ends as its last name does. -/
theorem getLast?_joinWith (hn : n ≠ []) :
    (joinWith separator (l ++ [n])).getLast? = n.getLast? := by
  cases l with
  | nil => rfl
  | cons a l =>
    rw [joinWith_append (by simp) (by simp), List.getLast?_append, List.getLast?_cons]
    simp [joinWith, List.getLast?_eq_some_getLast hn]

theorem not_endsInSeparator {p : Path} {b : Bytes} (hb : b ++ joinWith separator (l ++ [n]) = p.bytes)
    (h : IsName n) : p.endsInSeparator = false := by
  have hlast := getLast?_joinWith (l := l) h.1
  rw [List.getLast?_eq_some_getLast h.1] at hlast
  rw [endsInSeparator, ← hb, List.getLast?_append, hlast]
  simp only [Option.some_or, beq_eq_false_iff_ne, ne_eq, Option.some.injEq]
  intro heq
  exact h.2.1 (heq ▸ List.getLast_mem h.1)

/-- What follows the last name of a location is nothing. -/
theorem endsInSeparator_ofLocation (h : IsName n) :
    (ofLocation (l ++ [n])).endsInSeparator = false :=
  not_endsInSeparator (b := [separator]) rfl h

theorem reverse_dropWhile_isIdle (h : ∀ n ∈ l, IsName n) :
    l.reverse.dropWhile isIdle = l.reverse := by
  cases hr : l.reverse with
  | nil => rfl
  | cons a as =>
    have ha : IsName a := h a (List.mem_reverse.1 (hr ▸ List.mem_cons_self))
    rw [List.dropWhile_cons_of_neg (by simp [ha.isIdle])]

theorem trimEnd_of_names (h : ∀ n ∈ l, IsName n) : trimEnd l = l := by
  rw [trimEnd, reverse_dropWhile_isIdle h, List.reverse_reverse]

theorem ofLayout_root (l : List Bytes) : ofLayout ⟨some .root, l⟩ = ofLocation l := by
  cases l <;> rfl

theorem parent?_ofLocation (h : ∀ m ∈ l ++ [n], IsName m) :
    (ofLocation (l ++ [n])).parent? = some (ofLocation l) := by
  rw [parent?, layout_ofLocation h]
  simp only [List.append_eq_nil_iff, List.cons_ne_self, and_false, if_false]
  rw [reverse_dropWhile_isIdle h]
  simp only [List.reverse_append, List.reverse_cons, List.reverse_nil, List.nil_append,
    List.singleton_append, List.reverse_reverse]
  rw [trimEnd_of_names fun m hm => h m (List.mem_append_left _ hm), ofLayout_root]

/-! ### Spelled from a directory -/

theorem not_isAbsolute_ofNames (h : ∀ n ∈ l, IsName n) : (ofNames l).isAbsolute = false := by
  cases l with
  | nil => rfl
  | cons n l =>
    have hn := h n List.mem_cons_self
    cases n with
    | nil => exact absurd rfl hn.1
    | cons b n =>
      have hb : b ≠ separator := fun hb => hn.2.1 (hb ▸ List.mem_cons_self)
      cases l <;> simp [isAbsolute, ofNames, joinWith, hb]

theorem components_ofNames (h : ∀ n ∈ l, IsName n) : (ofNames l).components = l.map .name := by
  have hhead : (ofNames l).bytes.head? ≠ some separator := by
    simpa [isAbsolute] using not_isAbsolute_ofNames h
  rw [show ofNames l = ⟨(ofNames l).bytes⟩ from rfl, components_of_head?_ne hhead, ofNames,
    splitAt_joinWith_eq h]
  cases l with
  | nil => rfl
  | cons n l =>
    have hn := h n List.mem_cons_self
    simp only [reduceCtorEq, if_false, if_neg hn.2.2.1]
    exact filterMap_pieceComponent? h

theorem ofNames_injective (hl : ∀ n ∈ l, IsName n) (hm : ∀ n ∈ m, IsName n)
    (h : ofNames l = ofNames m) : l = m := by
  have := congrArg components h
  rw [components_ofNames hl, components_ofNames hm] at this
  exact List.map_inj_right (fun _ _ h => Component.name.inj h) |>.1 this

/-- Joining appends the names. -/
theorem join_ofLocation (hl : ∀ n ∈ l, IsName n) (hm : ∀ n ∈ m, IsName n) (hne : m ≠ []) :
    (ofLocation l).join (ofNames m) = ofLocation (l ++ m) := by
  rw [join, not_isAbsolute_ofNames hm]
  simp only [Bool.false_eq_true, if_false]
  rcases List.eq_nil_or_concat l with rfl | ⟨l, n, rfl⟩
  · rfl
  · have hn : IsName n := hl n (by simp)
    have hend : (ofLocation (l ++ [n])).bytes.getLast? ≠ some separator := by
      simpa [endsInSeparator] using endsInSeparator_ofLocation (l := l) hn
    cases hlast : (ofLocation (l ++ [n])).bytes.getLast? with
    | none => simp [ofLocation] at hlast
    | some b =>
      have hb : b ≠ separator := fun hb => hend (hb ▸ hlast)
      rw [List.concat_eq_append, hlast]
      simp only [hb, if_false]
      rw [ofLocation, ofLocation, ofNames, joinWith_append (by simp) hne]
      rfl

/-- Nothing that is looked for in a directory is the directory, written with a separator at the end. -/
theorem endsInSeparator_join_nil {p : Path} (h : p.isAbsolute = true) :
    (p.join (ofNames [])).endsInSeparator = true := by
  have hnil : (ofNames []).isAbsolute = false := by decide
  rw [join, hnil, if_neg Bool.false_ne_true, endsInSeparator, beq_iff_eq]
  cases hlast : p.bytes.getLast? with
  | none =>
    rw [List.getLast?_eq_none_iff] at hlast
    simp [isAbsolute, hlast] at h
  | some b =>
    by_cases hb : b = separator
    · simpa [hb, ofNames, joinWith] using hlast
    · simp [hb, ofNames, joinWith]

/-- What is seen from an absolute path is absolute. -/
theorem isAbsolute_join {p : Path} (h : p.isAbsolute = true) (q : Path) :
    (p.join q).isAbsolute = true := by
  rw [join]
  split
  · assumption
  · cases hlast : p.bytes.getLast? with
    | none =>
      rw [isAbsolute, List.getLast?_eq_none_iff.1 hlast] at h
      contradiction
    | some c =>
      rw [isAbsolute, beq_iff_eq] at h
      simp only
      split <;> simp [isAbsolute, List.head?_append, h]

end Path

end ImportIndex
