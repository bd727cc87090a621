import Mathlib.Data.List.Infix
import ImportIndex.Proofs.Path.Normal

/-!
# Joined paths

A leading `.` leads nowhere. So a path that is looked at from a directory leads where its components do after
those of the directory (`Path.resolve_join`), and is folded like both, one after the other
(`Path.normalComponents_join`).

Folding keeps a `..` at the front of a relative path only if the path *climbs*: at some point it has passed
more `..` than names (`Path.Climbs`). A path that does not climb does to any stack what it does to the empty
one (`Path.exists_foldl_of_not_climbsFrom`), so it never leaves the directory it is looked at from; one that
does starts with `..` when it is folded, even if it comes back (`Path.startsWith_up_iff`).
-/

namespace ImportIndex

namespace Component

/-- How many directories deeper a component leads, away from the root directory. -/
def level : Component → Int
  | .root | .here => 0
  | .up => -1
  | .name _ => 1

/-- How many directories deeper components lead, one after the other. -/
@[simp] def depth : List Component → Int
  | [] => 0
  | c :: cs => c.level + depth cs

/-- Whether a component is a step of a normal path: `..` or a name that can be one. -/
def IsStep : Component → Prop
  | .root | .here => False
  | .up => True
  | .name n => IsName n

theorem IsStep.cases {c : Component} (h : c.IsStep) : c = .up ∨ ∃ n, c = .name n ∧ IsName n := by
  cases c with
  | root | here => exact h.elim
  | up => exact .inl rfl
  | name n => exact .inr ⟨n, rfl, h⟩

theorem IsStep.pieceComponent? {c : Component} (h : c.IsStep) :
    Path.pieceComponent? c.bytes = some c := by
  obtain rfl | ⟨n, rfl, hn⟩ := h.cases
  · decide
  · exact hn.pieceComponent?

theorem IsStep.separator_not_mem {c : Component} (h : c.IsStep) : Path.separator ∉ c.bytes := by
  obtain rfl | ⟨n, rfl, hn⟩ := h.cases
  · decide
  · exact hn.2.1

theorem IsStep.bytes_ne {c : Component} (h : c.IsStep) : c.bytes ≠ [] ∧ c.bytes ≠ Path.herePiece := by
  obtain rfl | ⟨n, rfl, hn⟩ := h.cases
  · decide
  · exact ⟨hn.1, hn.2.2.1⟩

end Component

namespace Path

variable {p q : Path} {c : Component} {cs : List Component} {l m : List Bytes} {n : Bytes} {d : Int}

/-! ### Components of steps that are written down -/

theorem filterMap_pieceComponent?_bytes (h : ∀ c ∈ cs, c.IsStep) :
    (cs.map Component.bytes).filterMap pieceComponent? = cs := by
  induction cs with
  | nil => rfl
  | cons c cs ih =>
    rw [List.forall_mem_cons] at h
    rw [List.map_cons, List.filterMap_cons_some h.1.pieceComponent?, ih h.2]

theorem splitAt_joinWith_bytes (hne : cs ≠ []) (h : ∀ c ∈ cs, c.IsStep) :
    splitAt separator (joinWith separator (cs.map Component.bytes)) = cs.map Component.bytes := by
  refine splitAt_joinWith (by simpa using hne) fun piece hp => ?_
  obtain ⟨c, hc, rfl⟩ := List.mem_map.1 hp
  exact (h c hc).separator_not_mem

theorem ofComponents_steps (h : ∀ c ∈ cs, c.IsStep) :
    ofComponents cs = ⟨joinWith separator (cs.map Component.bytes)⟩ := by
  cases cs with
  | nil => rfl
  | cons c cs =>
    rw [ofComponents]
    intro rest heq
    have hroot : Component.root ∈ c :: cs := heq ▸ List.mem_cons_self
    exact h _ hroot

theorem not_isAbsolute_steps (h : ∀ c ∈ cs, c.IsStep) : (ofComponents cs).isAbsolute = false := by
  rw [ofComponents_steps h, isAbsolute]
  cases cs with
  | nil => rfl
  | cons c cs =>
    have hc := h c List.mem_cons_self
    cases hb : c.bytes with
    | nil => exact absurd hb hc.bytes_ne.1
    | cons b bytes =>
      have hsep : b ≠ separator := fun he => hc.separator_not_mem (by simp [hb, he])
      cases cs <;> simp [joinWith, hb, hsep]

/-- Steps that are written down are read back. -/
theorem components_steps (h : ∀ c ∈ cs, c.IsStep) : (ofComponents cs).components = cs := by
  have habs := not_isAbsolute_steps h
  rw [ofComponents_steps h] at habs ⊢
  rw [components_of_head?_ne (by simpa [isAbsolute] using habs)]
  cases cs with
  | nil => rfl
  | cons c cs =>
    have hc := h c List.mem_cons_self
    rw [splitAt_joinWith_bytes (by simp) h, List.map_cons]
    simp only [hc.bytes_ne.2, if_false]
    rw [← List.map_cons, filterMap_pieceComponent?_bytes h]

/-! ### What counts of a joined path -/

theorem here_not_mem (pieces : List Bytes) : .here ∉ pieces.filterMap pieceComponent? := by
  intro h
  obtain ⟨piece, -, hp⟩ := List.mem_filterMap.1 h
  rw [pieceComponent?] at hp
  split at hp
  · cases hp
  · split at hp <;> cases hp

/-- Apart from a leading `.`, the components of a path are what its pieces stand for. -/
theorem filter_components : p.components.filter (· ≠ .here) =
    (if p.isAbsolute then [.root] else []) ++ (splitAt separator p.bytes).filterMap pieceComponent? := by
  have hfilter : ∀ pieces : List Bytes,
      (pieces.filterMap pieceComponent?).filter (· ≠ .here) = pieces.filterMap pieceComponent? :=
    fun pieces => List.filter_eq_self.2 fun c hc => by
      have : c ≠ .here := fun he => here_not_mem pieces (he ▸ hc)
      simpa using this
  cases habs : p.isAbsolute with
  | true =>
    obtain ⟨rest, hbytes, hlayout⟩ := exists_layout_eq habs
    have hsplit : splitAt separator (separator :: rest) = [] :: splitAt separator rest :=
      splitAt_append_cons separator [] rest
    rw [components, hlayout, hbytes, hsplit, List.filterMap_cons_none rfl]
    exact congrArg (Component.root :: ·) (hfilter _)
  | false =>
    rw [show p = ⟨p.bytes⟩ from rfl, components_of_head?_ne (by simpa [isAbsolute] using habs)]
    cases splitAt separator p.bytes with
    | nil => rfl
    | cons piece pieces =>
      by_cases hp : piece = herePiece
      · subst hp
        rw [List.filterMap_cons_none (show pieceComponent? herePiece = none by decide)]
        exact hfilter pieces
      · simp only [hp, if_false]
        exact hfilter (piece :: pieces)

/-- A path that is written from a byte of a name on is its pieces. -/
theorem components_of_head?_ordinary {b : UInt8} (h : p.bytes.head? = some b) (hsep : b ≠ separator)
    (hdot : b ≠ dot) : p.components = (splitAt separator p.bytes).filterMap pieceComponent? := by
  rw [show p = ⟨p.bytes⟩ from rfl, components_of_head?_ne (by simpa [h] using hsep)]
  cases hsplit : splitAt separator p.bytes with
  | nil => rfl
  | cons piece pieces =>
    have hpiece : piece ≠ herePiece := by
      rintro rfl
      have hbytes := joinWith_splitAt separator p.bytes
      rw [hsplit] at hbytes
      cases pieces <;> rw [← hbytes] at h <;> exact hdot (Option.some.inj h).symm
    simp only [hpiece, if_false]

theorem filter_components_join (h : q.isAbsolute = false) :
    (p.join q).components.filter (· ≠ .here) =
      p.components.filter (· ≠ .here) ++ q.components.filter (· ≠ .here) := by
  rcases List.eq_nil_or_concat p.bytes with hp | ⟨init, b, hp⟩
  · have hjoin : p.join q = q := by simp [join, h, hp]
    have hcomponents : p.components = [] := by simp [components, layout, hp]
    rw [hjoin, hcomponents, List.filter_nil, List.nil_append]
  · rw [List.concat_eq_append] at hp
    -- in either case a separator follows what is written before `q`
    obtain ⟨before, after, hbefore, hbytes, hstart⟩ : ∃ before after : Bytes,
        (splitAt separator before).filterMap pieceComponent? =
          (splitAt separator p.bytes).filterMap pieceComponent? ∧
        (p.join q).bytes = before ++ separator :: q.bytes ∧ (p.join q).bytes = p.bytes ++ after := by
      by_cases hb : b = separator
      · refine ⟨init, q.bytes, ?_, by simp [join, h, hp, hb], by simp [join, h, hp, hb]⟩
        rw [hp, hb, splitAt_append_cons, List.filterMap_append]
        exact (List.append_nil _).symm
      · exact ⟨p.bytes, separator :: q.bytes, rfl, by simp [join, h, hp, hb],
          by simp [join, h, hp, hb]⟩
    have habs : (p.join q).isAbsolute = p.isAbsolute := by
      rw [isAbsolute, isAbsolute, hstart, hp]
      cases init <;> rfl
    rw [filter_components, filter_components, filter_components, habs, h, hbytes, splitAt_append_cons,
      List.filterMap_append, hbefore]
    simp

theorem normalComponents_filter :
    normalComponents (cs.filter (· ≠ .here)) = normalComponents cs := by
  rw [normalComponents, normalComponents]
  generalize ([] : List Component) = stack
  induction cs generalizing stack with
  | nil => rfl
  | cons c cs ih =>
    by_cases hc : c = .here
    · subst hc
      rw [List.filter_cons_of_neg (by simp), List.foldl_cons, normalStep_here]
      exact ih stack
    · rw [List.filter_cons_of_pos (by simpa using hc)]
      exact ih _

/-- A joined path is folded like the components of both paths, one after the other. -/
theorem normalComponents_join :
    normalComponents (p.join q).components = normalComponents (p.components ++ q.components) := by
  cases h : q.isAbsolute with
  | true =>
    obtain ⟨cs, hcs⟩ := exists_components_eq h
    rw [join, if_pos h, hcs, normalComponents, normalComponents, List.foldl_append, List.foldl_cons,
      List.foldl_cons, normalStep_root, normalStep_root]
  | false =>
    rw [← normalComponents_filter, filter_components_join h, ← List.filter_append,
      normalComponents_filter]

/-! ### Where a path leads -/

theorem foldl_resolve_filter :
    (cs.filter (· ≠ .here)).foldl Component.resolve l = cs.foldl Component.resolve l := by
  induction cs generalizing l with
  | nil => rfl
  | cons c cs ih =>
    by_cases hc : c = .here
    · subst hc
      rw [List.filter_cons_of_neg (by simp)]
      exact ih
    · rw [List.filter_cons_of_pos (by simpa using hc)]
      exact ih

/-- A joined path leads where the second path leads from where the first one does. -/
theorem resolve_join : (p.join q).resolve l = q.resolve (p.resolve l) := by
  cases h : q.isAbsolute with
  | true =>
    obtain ⟨cs, hcs⟩ := exists_components_eq h
    rw [join, if_pos h, resolve, resolve, hcs]
    rfl
  | false =>
    rw [resolve, ← foldl_resolve_filter, filter_components_join h, List.foldl_append,
      foldl_resolve_filter, foldl_resolve_filter]
    rfl

/-! ### What is left of a folded path -/

/-- What folding keeps was there, and is no `.`. -/
theorem mem_of_mem_normalComponents (h : c ∈ normalComponents cs) : c ∈ cs ∧ c ≠ .here := by
  suffices ∀ stack, c ∈ cs.foldl normalStep stack → c ∈ stack ∨ c ∈ cs ∧ c ≠ .here by
    simpa using this [] (List.mem_reverse.1 h)
  clear h
  induction cs with
  | nil => exact fun stack h => .inl h
  | cons d cs ih =>
    intro stack h
    rcases ih _ h with h | ⟨h, hne⟩
    · have hstep : c ∈ stack ∨ c = d ∧ c ≠ .here := by
        cases d with
        | here => rw [normalStep_here] at h; exact .inl h
        | name n =>
          rw [normalStep_name] at h
          exact (List.mem_cons.1 h).symm.imp_right fun h => ⟨h, by simp [h]⟩
        | root =>
          rw [normalStep_root] at h
          exact .inr ⟨List.mem_singleton.1 h, by simp [List.mem_singleton.1 h]⟩
        | up =>
          rcases stack with _ | ⟨_ | _ | _ | n, stack⟩ <;> simp [normalStep] at h ⊢ <;> grind
      grind
    · exact .inr ⟨List.mem_cons_of_mem _ h, hne⟩

theorem root_not_mem (h : p.isAbsolute = false) : .root ∉ p.components := fun hroot => by
  have hmem : Component.root ∈ p.components.filter (· ≠ .here) :=
    List.mem_filter.2 ⟨hroot, by simp⟩
  rw [filter_components, h] at hmem
  obtain ⟨piece, -, hp⟩ := List.mem_filterMap.1 (by simpa using hmem)
  rw [pieceComponent?] at hp
  split at hp
  · cases hp
  · split at hp <;> cases hp

/-- What is left of a relative path that is folded are steps. -/
theorem isStep_of_mem_normalComponents (h : p.isAbsolute = false)
    (hc : c ∈ normalComponents p.components) : c.IsStep := by
  obtain ⟨hc, hne⟩ := mem_of_mem_normalComponents hc
  cases c with
  | root => exact root_not_mem h hc
  | here => exact hne rfl
  | up => trivial
  | name n => exact isName_of_mem_components hc

theorem components_normalize (p : Path) : p.normalize.components = normalComponents p.components := by
  cases h : p.isAbsolute with
  | true =>
    obtain ⟨cs, hcs⟩ := exists_components_eq h
    have hfold := @foldl_normalStep_resolve cs []
    have hnames : ∀ n ∈ p.resolve [], IsName n := isName_of_mem_resolve (by simp)
    rw [normalize_of_isAbsolute h [], components_ofLocation hnames, hcs, normalComponents, List.foldl_cons,
      normalStep_root, show [Component.root] = (List.map .name []).reverse ++ [.root] from rfl, hfold,
      resolve, hcs]
    simp [Component.resolve]
  | false => exact components_steps fun _ => isStep_of_mem_normalComponents h

/-- Names that are looked at from a directory are added to the path of the directory. -/
theorem components_normalize_join (h : ∀ c ∈ q.components, ∃ n, c = .name n) :
    (p.join q).normalize.components = p.normalize.components ++ q.components := by
  obtain ⟨l, hl⟩ := exists_eq_map_name h
  rw [components_normalize, components_normalize, normalComponents_join, hl, normalComponents,
    List.foldl_append, foldl_normalStep_names, List.reverse_append, List.reverse_reverse]
  rfl

/-! ### Climbing -/

/-- Whether components lead above where they start, if they start `d` directories deep. -/
def ClimbsFrom (d : Int) (cs : List Component) : Prop :=
  ∃ front, front <+: cs ∧ d + Component.depth front < 0

theorem not_climbsFrom_nil (h : 0 ≤ d) : ¬ ClimbsFrom d [] := by
  rintro ⟨front, hfront, hd⟩
  rw [List.prefix_nil.1 hfront] at hd
  simp at hd
  omega

theorem climbsFrom_cons (h : 0 ≤ d) : ClimbsFrom d (c :: cs) ↔ ClimbsFrom (d + c.level) cs := by
  constructor
  · rintro ⟨front, hfront, hd⟩
    cases front with
    | nil =>
      simp at hd
      omega
    | cons c' front =>
      obtain ⟨rfl, hrest⟩ := List.cons_prefix_cons.1 hfront
      exact ⟨front, hrest, by simpa [Int.add_assoc] using hd⟩
  · rintro ⟨front, hfront, hd⟩
    exact ⟨c :: front, List.cons_prefix_cons.2 ⟨rfl, hfront⟩, by simpa [Int.add_assoc] using hd⟩

instance (d : Int) (cs : List Component) : Decidable (ClimbsFrom d cs) :=
  decidable_of_iff (∃ front ∈ cs.inits, d + Component.depth front < 0) <| by
    simp only [List.mem_inits _ _, ClimbsFrom]

/-- Whether a path leads above the directory it is looked at from, be it to come back. -/
def Climbs (p : Path) : Prop := p.isAbsolute = false ∧ ClimbsFrom 0 p.components

instance (p : Path) : Decidable p.Climbs :=
  inferInstanceAs (Decidable (p.isAbsolute = false ∧ ClimbsFrom 0 p.components))

theorem not_climbs_of_isAbsolute (h : p.isAbsolute = true) : ¬ p.Climbs := fun hp =>
  Bool.false_ne_true (hp.1.symm.trans h)

/-- Components that do not climb leave what is below them on the stack as it is. -/
theorem exists_foldl_of_not_climbsFrom (hcs : .root ∉ cs) (h : ¬ ClimbsFrom l.length cs) :
    ∃ m : List Bytes, ∀ stack,
      cs.foldl normalStep (l.map .name ++ stack) = m.map .name ++ stack := by
  induction cs generalizing l with
  | nil => exact ⟨l, fun _ => rfl⟩
  | cons c cs ih =>
    rw [climbsFrom_cons (Int.natCast_nonneg _)] at h
    rw [List.mem_cons, not_or] at hcs
    cases c with
    | root => exact absurd rfl hcs.1
    | here =>
      obtain ⟨m, hm⟩ := ih hcs.2 (l := l) (by simpa [Component.level] using h)
      refine ⟨m, fun stack => ?_⟩
      rw [List.foldl_cons, normalStep_here, hm]
    | up =>
      cases l with
      | nil => exact absurd ⟨[], List.nil_prefix, by simp [Component.level]⟩ h
      | cons n l =>
        obtain ⟨m, hm⟩ := ih hcs.2 (l := l)
          (by simpa [Component.level, Int.add_neg_cancel_right] using h)
        exact ⟨m, hm⟩
    | name n =>
      obtain ⟨m, hm⟩ := ih hcs.2 (l := n :: l) (by simpa [Component.level] using h)
      refine ⟨m, fun stack => ?_⟩
      rw [List.foldl_cons, normalStep_name]
      exact hm stack

/-- Components that start at names after `k` times `..` end at names after as many or, if they climb above
    the names, after more. -/
theorem exists_foldl_replicate (hcs : .root ∉ cs) (l : List Bytes) (k : Nat) :
    ∃ (m : List Bytes) (j : Nat),
      cs.foldl normalStep (l.map .name ++ List.replicate k .up) = m.map .name ++ List.replicate j .up ∧
        k ≤ j ∧ (ClimbsFrom l.length cs → k < j) := by
  induction cs generalizing l k with
  | nil => exact ⟨l, k, rfl, Nat.le_refl k, fun h => absurd h (not_climbsFrom_nil (Int.natCast_nonneg _))⟩
  | cons c cs ih =>
    rw [climbsFrom_cons (Int.natCast_nonneg _)]
    rw [List.mem_cons, not_or] at hcs
    cases c with
    | root => exact absurd rfl hcs.1
    | here =>
      rw [List.foldl_cons, normalStep_here]
      simpa [Component.level] using ih hcs.2 l k
    | up =>
      cases l with
      | nil =>
        obtain ⟨m, j, hfold, hle, -⟩ := ih hcs.2 [] (k + 1)
        have hstep : normalStep (List.replicate k .up) .up = List.replicate (k + 1) .up := by
          cases k <;> rfl
        refine ⟨m, j, ?_, by omega, fun _ => by omega⟩
        rw [List.foldl_cons, List.map_nil, List.nil_append, hstep]
        exact hfold
      | cons n l =>
        simpa [Component.level, normalStep, Int.add_neg_cancel_right] using ih hcs.2 l k
    | name n =>
      rw [List.foldl_cons, normalStep_name]
      simpa [Component.level] using ih hcs.2 (n :: l) k

/-- A relative path starts with `..` when it is folded exactly if it climbs. -/
theorem startsWith_up_iff (h : p.isAbsolute = false) :
    p.normalize.StartsWith (ofText "..") ↔ p.Climbs := by
  have hup : (ofText "..").components = [.up] := by decide
  have hroot := root_not_mem h
  rw [StartsWith, hup, components_normalize, Climbs, and_iff_right h, normalComponents]
  constructor
  · rintro ⟨rest, hrest⟩
    by_contra hclimbs
    obtain ⟨m, hm⟩ := exists_foldl_of_not_climbsFrom hroot (l := []) hclimbs
    have hmem : Component.up ∈ m.map .name := by
      rw [← List.mem_reverse, ← List.append_nil (m.map _), ← hm []]
      exact hrest ▸ List.mem_cons_self
    simp at hmem
  · intro hclimbs
    obtain ⟨m, j, hfold, -, hj⟩ := exists_foldl_replicate hroot [] 0
    obtain ⟨j, rfl⟩ := Nat.exists_eq_succ_of_ne_zero (Nat.ne_of_gt (hj hclimbs))
    exact ⟨List.replicate j .up ++ (m.map .name).reverse, by
      rw [show p.components.foldl normalStep [] = _ from hfold, List.reverse_append,
        List.reverse_replicate, List.replicate_succ]
      rfl⟩

/-- A relative path that does not climb is a list of names when it is folded, and leads down these names
    from wherever it is looked at. -/
theorem exists_normalize_of_not_climbs (h : p.isAbsolute = false) (hclimbs : ¬ p.Climbs) :
    ∃ m, (∀ n ∈ m, IsName n) ∧ p.normalize = ofNames m ∧ ∀ l, p.resolve l = l ++ m := by
  obtain ⟨m, hm⟩ := exists_foldl_of_not_climbsFrom (root_not_mem h) (l := [])
    fun hc => hclimbs ⟨h, hc⟩
  simp only [List.map_nil, List.nil_append] at hm
  have hfold : normalComponents p.components = m.reverse.map .name := by
    rw [normalComponents, hm [], List.append_nil, List.map_reverse]
  refine ⟨m.reverse, fun n hn => ?_, ?_, fun l => ?_⟩
  · have hmem : Component.name n ∈ normalComponents p.components := hfold ▸ List.mem_map_of_mem hn
    exact isStep_of_mem_normalComponents h hmem
  · rw [normalize, hfold, ofComponents_names]
  · have hstack := (hm ((l.map .name).reverse ++ [.root])).symm.trans foldl_normalStep_resolve
    rw [← List.append_assoc, List.append_left_inj, ← List.reverse_inj] at hstack
    refine (List.map_inj_right (f := Component.name) fun _ _ => Component.name.inj).1 ?_
    rw [resolve, ← List.reverse_reverse (List.map _ (List.foldl _ _ _)), ← hstack]
    simp

end Path

end ImportIndex
