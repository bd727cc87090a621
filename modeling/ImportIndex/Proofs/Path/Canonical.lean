import ImportIndex.Proofs.Path.Joined

/-!
# Normal paths as canonical forms

Folding components that are folded already is folding them once, whatever was folded before
(`Path.foldl_normalComponents`). So a path that is folded leads where it led before (`Path.resolve_normalize`),
and paths can be folded before they are joined and folded (`Path.normalize_join`).

A normal path is the root or a run of `..`, and names. The root directory tells its names, and a directory that
is deep enough tells the length of the run, so normal paths that lead to the same locations are equal
(`Path.IsNormal.eq_of_resolve`). Hence folding leaves normal paths as they are (`Path.isNormal_iff`), and
decides whether two paths lead to the same location from wherever they are looked at
(`Path.normalize_canonical`).
-/

namespace ImportIndex.Path

variable {p q : Path} {cs ds : List Component} {l m : List Bytes}

/-! ### Folding what is folded -/

/-- Folded components do to a stack what the components do. -/
theorem foldl_normalComponents (cs stack : List Component) :
    (normalComponents cs).foldl normalStep stack = cs.foldl normalStep stack := by
  rw [normalComponents]
  -- The last component is cut off, as it meets the top of both stacks.
  induction cs using List.reverseRecOn with
  | nil => rfl
  | append_singleton cs c ih =>
    rw [List.foldl_concat, List.foldl_concat, ← ih]
    generalize cs.foldl normalStep [] = folded
    cases c with
    | here => rw [normalStep_here, normalStep_here]
    | root => simp
    | name n => simp
    | up =>
      -- Whether something is taken off, and what, shows in the top of what is folded.
      rcases folded with _ | ⟨_ | _ | _ | n, folded⟩ <;> simp [normalStep]

theorem normalComponents_append : normalComponents (cs ++ ds) =
    normalComponents (normalComponents cs ++ normalComponents ds) := by
  rw [normalComponents, normalComponents, List.foldl_append, List.foldl_append, foldl_normalComponents,
    foldl_normalComponents]

/-- Paths can be folded before they are joined. -/
theorem normalize_join (p q : Path) : (p.join q).normalize = (p.normalize.join q.normalize).normalize := by
  rw [normalize, normalize, normalComponents_join, normalComponents_join, normalComponents_append,
    components_normalize, components_normalize]

/-- A normal path leads where the path leads that was folded. -/
theorem resolve_normalize (p : Path) (l : Location) : p.normalize.resolve l = p.resolve l := by
  have hfold := foldl_normalComponents p.components ((l.map .name).reverse ++ [.root])
  rw [foldl_normalStep_resolve, foldl_normalStep_resolve, List.append_left_inj, List.reverse_inj] at hfold
  rw [resolve, components_normalize]
  exact (List.map_inj_right fun _ _ => Component.name.inj).1 hfold

/-! ### What a normal path tells -/

/-- Folding gives a normal path. -/
theorem isNormal_normalize (p : Path) : p.normalize.IsNormal := by
  refine ⟨by rw [components_normalize, normalize], ?_⟩
  cases h : p.isAbsolute with
  | true =>
    obtain ⟨l, hl, hp⟩ := exists_normalize h
    exact ⟨[.root], l, by rw [hp, components_ofLocation hl]; rfl, .inl rfl⟩
  | false =>
    obtain ⟨l, k, hfold, -, -⟩ := exists_foldl_replicate (root_not_mem h) [] 0
    rw [List.map_nil, List.replicate_zero, List.append_nil] at hfold
    refine ⟨List.replicate k .up, l.reverse, ?_, .inr ⟨k, rfl⟩⟩
    simp [components_normalize, normalComponents, hfold]

/-- Normal paths that are the same are equal. -/
theorem IsNormal.eq_of_same (hp : p.IsNormal) (hq : q.IsNormal) (h : p.Same q) : p = q := by
  rw [Same] at h
  rw [hp.1, h, ← hq.1]

/-- A run of `..` leads as many directories up, and no further than to the root directory. -/
theorem foldl_resolve_replicate (k : Nat) :
    (List.replicate k Component.up).foldl Component.resolve l = l.take (l.length - k) := by
  induction k generalizing l with
  | zero => simp
  | succ k ih =>
    rw [List.replicate_succ, List.foldl_cons, ih, Component.resolve, List.dropLast_eq_take, List.take_take,
      List.length_take]
    congr 1
    omega

namespace IsFront

variable {front front' : List Component} (hfront : IsFront front) (hfront' : IsFront front')

include hfront

/-- Nothing leads above the root directory. -/
theorem foldl_resolve_nil : front.foldl Component.resolve [] = [] := by
  rcases hfront with rfl | ⟨k, rfl⟩
  · rfl
  · rw [foldl_resolve_replicate, List.take_nil]

include hfront'

/-- Fronts that lead equally deep from directories of each depth are equal. -/
theorem eq_of_length {n : Bytes} (h : ∀ k, (front.foldl Component.resolve (List.replicate k n)).length =
    (front'.foldl Component.resolve (List.replicate k n)).length) : front = front' := by
  rcases hfront with rfl | ⟨k, rfl⟩ <;> rcases hfront' with rfl | ⟨k', rfl⟩
  · rfl
  -- A run of `..` does not lead to the root directory from one directory deeper than the run is long.
  · exact absurd (h (k' + 1)) (by simp [Component.resolve, foldl_resolve_replicate])
  · exact absurd (h (k + 1)) (by simp [Component.resolve, foldl_resolve_replicate])
  · have hlength : k' = k := by simpa [foldl_resolve_replicate] using h (k + k')
    rw [hlength]

end IsFront

theorem resolve_eq_foldl_append {front : List Component} (h : p.components = front ++ m.map .name)
    (l : Location) : p.resolve l = front.foldl Component.resolve l ++ m := by
  rw [resolve, h, List.foldl_append, foldl_resolve_names]

/-- Normal paths that lead to the same location from wherever they are looked at are equal. -/
theorem IsNormal.eq_of_resolve (hp : p.IsNormal) (hq : q.IsNormal)
    (h : ∀ l, (∀ n ∈ l, IsName n) → p.resolve l = q.resolve l) : p = q := by
  obtain ⟨front, m, hpc, hfront⟩ := hp.2
  obtain ⟨front', m', hqc, hfront'⟩ := hq.2
  have hresolve : ∀ l, (∀ n ∈ l, IsName n) →
      front.foldl Component.resolve l ++ m = front'.foldl Component.resolve l ++ m' := fun l hl => by
    rw [← resolve_eq_foldl_append hpc, ← resolve_eq_foldl_append hqc, h l hl]
  -- From the root directory there is no way up, so only the names are left.
  have hnames : m = m' := by
    simpa [hfront.foldl_resolve_nil, hfront'.foldl_resolve_nil] using hresolve [] (by simp)
  have hfronts : front = front' := by
    refine hfront.eq_of_length hfront' (n := Bytes.ofText "d") fun k => ?_
    have hdeep : ∀ n ∈ List.replicate k (Bytes.ofText "d"), IsName n := fun n hn =>
      List.eq_of_mem_replicate hn ▸ by decide
    simpa [hnames] using congrArg List.length (hresolve _ hdeep)
  refine hp.eq_of_same hq ?_
  rw [Same, hpc, hqc, hnames, hfronts]

/-- Normal paths are those that folding leaves as they are. -/
theorem isNormal_iff : p.IsNormal ↔ p.normalize = p :=
  ⟨fun h => (isNormal_normalize p).eq_of_resolve h fun l _ => resolve_normalize p l,
    fun h => h ▸ isNormal_normalize p⟩

instance (p : Path) : Decidable p.IsNormal := decidable_of_iff _ isNormal_iff.symm

example : (ofText "../../a").IsNormal ∧ (ofText "").IsNormal ∧ ¬ (ofText "./a").IsNormal ∧
    ¬ (ofText "/a//b").IsNormal := by decide

/-- What is folded is left as it is. -/
theorem normalize_normalize (p : Path) : p.normalize.normalize = p.normalize :=
  isNormal_iff.1 (isNormal_normalize p)

/-- Folding gives a path a canonical form. It tells whether paths lead to the same location from each absolute
    directory. It is the root or a run of `..`, and names, with nothing besides, so there is only one way to
    write it. Folding it again changes nothing, and neither does folding both paths before they are joined. -/
theorem normalize_canonical (p q : Path) :
    (p.normalize.Same q.normalize ↔
      ∀ d : Path, d.isAbsolute = true → p.resolve (d.resolve []) = q.resolve (d.resolve [])) ∧
    (p.normalize.Same q.normalize ↔ p.normalize = q.normalize) ∧
    p.normalize.IsNormal ∧ p.normalize.normalize = p.normalize ∧
    (p.join q).normalize = (p.normalize.join q.normalize).normalize := by
  have hp := isNormal_normalize p
  have hq := isNormal_normalize q
  have hsame : p.normalize.Same q.normalize ↔ p.normalize = q.normalize :=
    ⟨hp.eq_of_same hq, congrArg components⟩
  refine ⟨hsame.trans ⟨fun h d _ => ?_, fun h => hp.eq_of_resolve hq fun l hl => ?_⟩, hsame, hp,
    normalize_normalize p, normalize_join p q⟩
  · rw [← resolve_normalize p, h, resolve_normalize]
  · have hl' := h (ofLocation l) isAbsolute_ofLocation
    rwa [resolve_ofLocation hl, ← resolve_normalize p, ← resolve_normalize q] at hl'

/-- Two spellings that lead to the same location from everywhere, and two paths that do from the root directory
    but not from everywhere. -/
theorem normalize_canonical_spelled :
    (∀ d : Path, d.isAbsolute = true →
      (ofText "a//../../b").resolve (d.resolve []) = (ofText "./../b/.").resolve (d.resolve [])) ∧
    (ofText "/b").resolve [] = (ofText "../b").resolve [] ∧
    ¬ ∀ d : Path, d.isAbsolute = true →
      (ofText "/b").resolve (d.resolve []) = (ofText "../b").resolve (d.resolve []) := by
  have hunlike : ¬ (ofText "/b").normalize.Same (ofText "../b").normalize := by decide
  exact ⟨(normalize_canonical _ _).1.1 (by decide), by decide, mt (normalize_canonical _ _).1.2 hunlike⟩

end ImportIndex.Path
