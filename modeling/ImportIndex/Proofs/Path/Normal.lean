import ImportIndex.Artifact.Name
import ImportIndex.Proofs.Path.Names

/-!
# Normal paths as lists of names

A path leads somewhere by its components (`Path.resolve`), and an absolute path spells where it leads
once it is folded (`normalize_of_isAbsolute`).

A *place* is an absolute normal path, and a path is *below* a directory if it is normal and made of
names only. Both are lists of names (`IsPlace.exists_eq`, `IsBelow.exists_eq`). Folding an absolute
path gives a place (`isPlace_normalize`), and what is left of a place after another one is below it
(`stripStart?_eq_some`, `isBelow_of_relativeTo`).

The artifacts of the sources below a directory are places: `artifact_eq_ofLocation` tells which, and
`source?_artifact` that they tell their sources.
-/

namespace ImportIndex

/-- Where a component leads from a location. Nothing leads above the root directory. -/
def Component.resolve (l : Location) : Component → Location
  | .root => []
  | .here => l
  | .up => l.dropLast
  | .name n => l ++ [n]

namespace Path

/-- Whether a path is absolute and normal. -/
def IsPlace (p : Path) : Prop := p.isAbsolute = true ∧ p.normalize = p

/-- Whether a path is normal and made of names only. -/
def IsBelow (p : Path) : Prop := p.normalize = p ∧ ∀ c ∈ p.components, ∃ n, c = .name n

instance (p : Path) : Decidable p.IsPlace :=
  inferInstanceAs (Decidable (p.isAbsolute = true ∧ p.normalize = p))

instance (c : Component) : Decidable (∃ n, c = .name n) :=
  match c with
  | .name n => .isTrue ⟨n, rfl⟩
  | .root | .here | .up => .isFalse (by simp)

instance (p : Path) : Decidable p.IsBelow :=
  inferInstanceAs (Decidable (p.normalize = p ∧ ∀ c ∈ p.components, ∃ n, c = .name n))

variable {p q : Path} {cs : List Component} {l m r : List Bytes} {n : Bytes}

/-! ### Folding -/

@[simp] theorem normalStep_here (stack : List Component) : normalStep stack .here = stack := by
  cases stack <;> rfl

@[simp] theorem normalStep_root (stack : List Component) : normalStep stack .root = [.root] := by
  cases stack <;> rfl

@[simp] theorem normalStep_name (stack : List Component) (n : Bytes) :
    normalStep stack (.name n) = .name n :: stack := by
  cases stack <;> rfl

theorem isName_of_mem_filterMap {pieces : List Bytes} (hs : ∀ piece ∈ pieces, separator ∉ piece)
    (h : Component.name n ∈ pieces.filterMap pieceComponent?) : IsName n := by
  obtain ⟨piece, hp, hn⟩ := List.mem_filterMap.1 h
  exact IsName.of_pieceComponent? (hs piece hp) hn

theorem separator_not_mem_splitAt {b piece : Bytes} (h : piece ∈ splitAt separator b) :
    separator ∉ piece := fun hs => by
  simpa using not_of_mem_splitWhere h hs

theorem separator_not_mem_layout (h : n ∈ p.layout.pieces) : separator ∉ n := by
  rw [layout] at h
  split at h
  · contradiction
  · split at h
    · exact separator_not_mem_splitAt h
    · split at h
      · contradiction
      · next hs =>
        split at h
        · exact separator_not_mem_splitAt (hs ▸ List.mem_cons_of_mem _ h)
        · exact separator_not_mem_splitAt (hs ▸ h)

theorem front_ne_name : p.layout.front ≠ some (.name n) := by
  rw [layout]
  split
  · simp
  · split
    · simp
    · split
      · simp
      · split <;> simp

/-- The names among the components of a path are names. -/
theorem isName_of_mem_components (h : .name n ∈ p.components) : IsName n := by
  rcases List.mem_append.1 h with h | h
  · exact absurd (Option.mem_toList.1 h) front_ne_name
  · exact isName_of_mem_filterMap (fun _ => separator_not_mem_layout) h

theorem foldl_normalStep_names (stack : List Component) :
    (l.map Component.name).foldl normalStep stack = (l.map Component.name).reverse ++ stack := by
  induction l generalizing stack with
  | nil => rfl
  | cons n l ih =>
    rw [List.map_cons, List.foldl_cons, normalStep_name, ih]
    simp

theorem ofComponents_root : ofComponents (.root :: l.map .name) = ofLocation l := by
  rw [ofComponents, List.map_map, ofLocation, show Component.bytes ∘ Component.name = id from rfl,
    List.map_id]

theorem ofComponents_names : ofComponents (l.map .name) = ofNames l := by
  have : (l.map Component.name).map Component.bytes = l := by
    rw [List.map_map, show Component.bytes ∘ Component.name = id from rfl, List.map_id]
  cases l with
  | nil => rfl
  | cons n l =>
    rw [List.map_cons, ofComponents, ← List.map_cons, this, ofNames]
    · simp

theorem normalize_ofLocation (h : ∀ n ∈ l, IsName n) : (ofLocation l).normalize = ofLocation l := by
  rw [normalize, components_ofLocation h, normalComponents, List.foldl_cons,
    show normalStep [] .root = [.root] from rfl, foldl_normalStep_names]
  simp [ofComponents_root]

theorem normalize_ofNames (h : ∀ n ∈ l, IsName n) : (ofNames l).normalize = ofNames l := by
  rw [normalize, components_ofNames h, normalComponents, foldl_normalStep_names]
  simp [ofComponents_names]

/-! ### Where a path leads -/

/-- An absolute path is the root directory and pieces. -/
theorem exists_layout_eq (h : p.isAbsolute = true) :
    ∃ rest, p.bytes = separator :: rest ∧ p.layout = ⟨some .root, splitAt separator rest⟩ := by
  rw [isAbsolute] at h
  cases hb : p.bytes with
  | nil => simp [hb] at h
  | cons b rest =>
    obtain rfl : b = separator := by simpa [hb] using h
    exact ⟨rest, rfl, by simp [layout, hb]⟩

/-- An absolute path starts at the root directory. -/
theorem exists_components_eq (h : p.isAbsolute = true) :
    ∃ cs, p.components = .root :: cs := by
  obtain ⟨rest, -, hlayout⟩ := exists_layout_eq h
  exact ⟨_, by rw [components, hlayout]; rfl⟩

/-- Where a path leads from a location, by its components alone. -/
def resolve (l : Location) (p : Path) : Location := p.components.foldl Component.resolve l

/-- Names lead down. -/
theorem foldl_resolve_names (l m : List Bytes) : (m.map .name).foldl Component.resolve l = l ++ m := by
  induction m generalizing l with
  | nil => simp
  | cons n m ih =>
    rw [List.map_cons, List.foldl_cons, ih]
    simp [Component.resolve]

theorem resolve_ofLocation (hm : ∀ n ∈ m, IsName n) : (ofLocation m).resolve l = m := by
  rw [resolve, components_ofLocation hm, List.foldl_cons, show Component.resolve l .root = [] from rfl,
    foldl_resolve_names, List.nil_append]

/-- Folding keeps the names on the way to where the components lead. -/
theorem foldl_normalStep_resolve : cs.foldl normalStep ((l.map .name).reverse ++ [.root]) =
    ((cs.foldl Component.resolve l).map .name).reverse ++ [.root] := by
  induction cs generalizing l with
  | nil => rfl
  | cons c cs ih =>
    have hstep : normalStep ((l.map .name).reverse ++ [.root]) c =
        ((c.resolve l).map .name).reverse ++ [.root] := by
      cases c with
      | root => simp [Component.resolve]
      | here => simp [Component.resolve]
      | name n => simp [Component.resolve]
      | up =>
        rcases List.eq_nil_or_concat l with rfl | ⟨l, n, rfl⟩
        · rfl
        · simp [Component.resolve, normalStep]
    rw [List.foldl_cons, hstep, ih]
    rfl

theorem isName_of_mem_resolve (hl : ∀ n ∈ l, IsName n) : ∀ n ∈ p.resolve l, IsName n := by
  have hcs : ∀ n, Component.name n ∈ p.components → IsName n := fun n => isName_of_mem_components
  rw [resolve]
  generalize p.components = cs at hcs
  induction cs generalizing l with
  | nil => exact hl
  | cons c cs ih =>
    refine ih (fun n hn => ?_) fun n hn => hcs n (List.mem_cons_of_mem _ hn)
    cases c with
    | root => cases hn
    | here => exact hl n hn
    | up => exact hl n (List.dropLast_subset _ hn)
    | name n' =>
      rcases List.mem_append.1 hn with hn | hn
      · exact hl n hn
      · exact List.mem_singleton.1 hn ▸ hcs n' List.mem_cons_self

/-- An absolute path that is folded spells where it leads, from wherever. -/
theorem normalize_of_isAbsolute (h : p.isAbsolute = true) (l : Location) :
    p.normalize = ofLocation (p.resolve l) := by
  obtain ⟨cs, hcs⟩ := exists_components_eq h
  have hfold := @foldl_normalStep_resolve cs []
  rw [List.map_nil, List.reverse_nil, List.nil_append] at hfold
  rw [normalize, resolve, hcs, normalComponents, List.foldl_cons, List.foldl_cons, normalStep_root, hfold,
    ← ofComponents_root]
  simp [Component.resolve]

/-! ### Places and paths below a directory -/

/-- Folding an absolute path gives a list of names, spelled from the root directory. -/
theorem exists_normalize (h : p.isAbsolute = true) :
    ∃ l, (∀ n ∈ l, IsName n) ∧ p.normalize = ofLocation l :=
  ⟨p.resolve [], isName_of_mem_resolve (by simp), normalize_of_isAbsolute h []⟩

/-- A place is a list of names. -/
theorem IsPlace.exists_eq (h : p.IsPlace) : ∃ l, (∀ n ∈ l, IsName n) ∧ p = ofLocation l := by
  obtain ⟨l, hl, hp⟩ := exists_normalize h.1
  exact ⟨l, hl, h.2 ▸ hp⟩

theorem isPlace_ofLocation (h : ∀ n ∈ l, IsName n) : (ofLocation l).IsPlace :=
  ⟨isAbsolute_ofLocation, normalize_ofLocation h⟩

theorem isPlace_normalize (h : p.isAbsolute = true) : p.normalize.IsPlace := by
  obtain ⟨l, hl, hp⟩ := exists_normalize h
  exact hp ▸ isPlace_ofLocation hl

theorem isBelow_ofNames (h : ∀ n ∈ l, IsName n) : (ofNames l).IsBelow := by
  refine ⟨normalize_ofNames h, fun c hc => ?_⟩
  rw [components_ofNames h] at hc
  obtain ⟨n, -, rfl⟩ := List.mem_map.1 hc
  exact ⟨n, rfl⟩

theorem exists_eq_map_name (h : ∀ c ∈ cs, ∃ n, c = .name n) : ∃ l : List Bytes, cs = l.map .name := by
  induction cs with
  | nil => exact ⟨[], rfl⟩
  | cons c cs ih =>
    obtain ⟨⟨n, rfl⟩, hcs⟩ := List.forall_mem_cons.1 h
    obtain ⟨l, rfl⟩ := ih hcs
    exact ⟨n :: l, rfl⟩

/-- A path below a directory is a list of names. -/
theorem IsBelow.exists_eq (h : p.IsBelow) : ∃ l, (∀ n ∈ l, IsName n) ∧ p = ofNames l := by
  obtain ⟨l, hl⟩ := exists_eq_map_name h.2
  refine ⟨l, fun n hn => isName_of_mem_components (p := p) ?_, ?_⟩
  · rw [hl]
    exact List.mem_map_of_mem hn
  · rw [← h.1, normalize, hl, normalComponents, foldl_normalStep_names]
    simp [ofComponents_names]

/-- Paths below a directory that are the same are equal. -/
theorem IsBelow.eq_of_same (hp : p.IsBelow) (hq : q.IsBelow) (h : p.Same q) : p = q := by
  rw [← hp.1, ← hq.1, normalize, normalize, h]

/-- Places that are the same are equal. -/
theorem IsPlace.eq_of_same (hp : p.IsPlace) (hq : q.IsPlace) (h : p.Same q) : p = q := by
  rw [← hp.2, ← hq.2, normalize, normalize, h]

/-! ### What is left after a start -/

theorem dropCounted_names (hr : ∀ n ∈ r, IsName n) (hm : ∀ n ∈ m, IsName n) :
    dropCounted r.length (r ++ m) = m := by
  induction r with
  | nil =>
    cases m with
    | nil => rfl
    | cons n m =>
      rw [List.nil_append, List.length_nil, dropCounted,
        List.dropWhile_cons_of_neg (by simp [(hm n List.mem_cons_self).isIdle])]
  | cons n r ih =>
    rw [List.length_cons, dropCounted, List.cons_append,
      List.dropWhile_cons_of_neg (by simp [(hr n List.mem_cons_self).isIdle])]
    exact ih fun n hn => hr n (List.mem_cons_of_mem _ hn)

theorem startsWith_ofLocation_iff (hl : ∀ n ∈ l, IsName n) (hr : ∀ n ∈ r, IsName n) :
    (ofLocation l).StartsWith (ofLocation r) ↔ r <+: l := by
  rw [StartsWith, components_ofLocation hl, components_ofLocation hr, List.cons_prefix_cons]
  simp only [true_and]
  constructor
  · rintro ⟨t, ht⟩
    obtain ⟨r', m, rfl, hr', -⟩ := List.map_eq_append_iff.1 ht.symm
    have : r' = r := List.map_inj_right (fun _ _ h => Component.name.inj h) |>.1 hr'
    exact this ▸ List.prefix_append r' m
  · exact fun h => h.map _

theorem stripStart?_ofLocation (hr : ∀ n ∈ r, IsName n) (hm : ∀ n ∈ m, IsName n) :
    (ofLocation (r ++ m)).stripStart? (ofLocation r) = some (ofNames m) := by
  have hrm : ∀ n ∈ r ++ m, IsName n := fun n hn =>
    (List.mem_append.1 hn).elim (hr n) (hm n)
  rw [stripStart?, if_pos ((startsWith_ofLocation_iff hrm hr).2 (List.prefix_append r m)),
    components_ofLocation hr, layout_ofLocation hrm]
  simp only [List.length_cons, List.length_map]
  split
  · next h =>
    obtain ⟨rfl, rfl⟩ := List.append_eq_nil_iff.1 h
    rfl
  · rw [dropCounted_names hr hm, trimEnd_of_names hm, ofNames]

/-- What is left of a place after another one. -/
theorem stripStart?_eq_some (hl : ∀ n ∈ l, IsName n) (hr : ∀ n ∈ r, IsName n)
    (h : (ofLocation l).stripStart? (ofLocation r) = some q) :
    ∃ m, l = r ++ m ∧ q = ofNames m := by
  by_cases hs : (ofLocation l).StartsWith (ofLocation r)
  · obtain ⟨m, rfl⟩ := (startsWith_ofLocation_iff hl hr).1 hs
    rw [stripStart?_ofLocation hr fun n hn => hl n (List.mem_append_right _ hn)] at h
    exact ⟨m, rfl, (Option.some.inj h).symm⟩
  · rw [stripStart?, if_neg hs] at h
    contradiction

/-- A path as seen from a root that is a place is below it. -/
theorem isBelow_of_relativeTo {root : Path} (hroot : root.IsPlace) (hp : p.isAbsolute = true)
    (h : p.relativeTo root = .ok q) : q.IsBelow := by
  obtain ⟨r, hr, rfl⟩ := hroot.exists_eq
  obtain ⟨l, hl, hpl⟩ := exists_normalize hp
  rw [relativeTo, hpl] at h
  split at h
  · next heq =>
    obtain rfl := Except.ok.inj h
    obtain ⟨m, rfl, rfl⟩ := stripStart?_eq_some hl hr heq
    exact isBelow_ofNames fun n hn => hl n (List.mem_append_right _ hn)
  · contradiction

end Path

end ImportIndex
