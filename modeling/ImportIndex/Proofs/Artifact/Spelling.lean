import ImportIndex.Proofs.Artifact.Name

/-!
# Artifacts in any spelling

A target may be spelled in many ways, and the source that it tells is spelled like it. Whatever the
spelling is, the target is the same path as the artifact of its source (`same_artifact_of_source?`).
The artifacts of a source differ in the end of their last name only (`exists_components_artifact`), so if
one artifact of a source is the same path as one of another, all of them are (`artifact_same`). And a target
has the form of an artifact of one kind at most (`classify?_eq_some_iff`).
-/

namespace ImportIndex

namespace Path

variable {p q : Path} {l : List Bytes}

theorem filterMap_dropWhile_isIdle :
    (l.dropWhile isIdle).filterMap pieceComponent? = l.filterMap pieceComponent? := by
  induction l with
  | nil => rfl
  | cons piece l ih =>
    cases hp : isIdle piece with
    | true =>
      rw [List.dropWhile_cons_of_pos hp, List.filterMap_cons_none (by simp [pieceComponent?, hp]), ih]
    | false => rw [List.dropWhile_cons_of_neg (by simp [hp])]

/-- What counts of the pieces after the first ones that count. -/
theorem filterMap_dropCounted (k : Nat) : (dropCounted k l).filterMap pieceComponent? =
    (l.filterMap pieceComponent?).drop k := by
  induction k generalizing l with
  | zero => rw [dropCounted, filterMap_dropWhile_isIdle, List.drop_zero]
  | succ k ih =>
    rw [dropCounted, ← filterMap_dropWhile_isIdle (l := l)]
    cases hl : l.dropWhile isIdle with
    | nil => simp
    | cons piece rest =>
      have hp : isIdle piece = false := by
        have := List.head?_dropWhile_not isIdle l
        simpa [hl] using this
      obtain ⟨c, hc⟩ : ∃ c, pieceComponent? piece = some c := by
        rw [pieceComponent?, hp, if_neg (by simp)]
        exact ⟨_, (apply_ite some _ _ _).symm⟩
      rw [List.filterMap_cons_some hc, List.drop_succ_cons]
      exact ih

/-- No piece that counts is trimmed off. -/
theorem filterMap_trimEnd : (trimEnd l).filterMap pieceComponent? = l.filterMap pieceComponent? := by
  rw [trimEnd, List.filterMap_reverse, filterMap_dropWhile_isIdle, List.filterMap_reverse,
    List.reverse_reverse]

theorem mem_of_mem_dropCounted {k : Nat} {piece : Bytes} (h : piece ∈ dropCounted k l) : piece ∈ l := by
  induction k generalizing l with
  | zero => exact (List.dropWhile_sublist _).subset h
  | succ k ih =>
    rw [dropCounted] at h
    split at h
    · cases h
    · next hl => exact (List.dropWhile_sublist isIdle).subset (hl ▸ List.mem_cons_of_mem _ (ih h))

/-- The first piece that is left counts. -/
theorem isIdle_head_dropCounted {k : Nat} {piece : Bytes} {rest : List Bytes}
    (h : dropCounted k l = piece :: rest) : isIdle piece = false := by
  induction k generalizing l with
  | zero =>
    have := List.head?_dropWhile_not isIdle l
    rw [dropCounted] at h
    rw [h] at this
    simpa using this
  | succ k ih =>
    rw [dropCounted] at h
    split at h
    · cases h
    · exact ih h

/-- Pieces that count stay in front. -/
theorem exists_trimEnd_cons {piece : Bytes} (rest : List Bytes) (h : isIdle piece = false) :
    ∃ rest', trimEnd (piece :: rest) = piece :: rest' ∧ rest' ⊆ rest := by
  have hdrop : ∀ l : List Bytes, (l ++ [piece]).dropWhile isIdle = l.dropWhile isIdle ++ [piece] := by
    intro l
    induction l with
    | nil => simp [h]
    | cons q l ih =>
      cases hq : isIdle q with
      | true => simpa [hq] using ih
      | false => simp [hq]
  refine ⟨(rest.reverse.dropWhile isIdle).reverse, ?_, fun q hq => ?_⟩
  · rw [trimEnd, List.reverse_cons, hdrop, List.reverse_append]
    rfl
  · exact List.mem_reverse.1 ((List.dropWhile_sublist _).subset (List.mem_reverse.1 hq))

/-- What is left of a path after a place: pieces, the first of which counts. -/
theorem exists_of_stripStart? (hl : ∀ n ∈ l, IsName n) (h : p.stripStart? (ofLocation l) = some q)
    (hne : q.bytes ≠ []) : ∃ piece rest, isIdle piece = false ∧
      (∀ n ∈ piece :: rest, separator ∉ n) ∧ q.bytes = joinWith separator (piece :: rest) ∧
      p.components = .root :: l.map .name ++ (piece :: rest).filterMap pieceComponent? := by
  rw [stripStart?] at h
  split at h
  · next hstart =>
    rw [StartsWith, components_ofLocation hl] at hstart
    -- A path that starts with the root directory is absolute.
    have hfront : p.layout.front = some .root := by
      rcases hfront : p.layout.front with _ | c
      · rw [components, hfront, Option.toList_none, List.nil_append] at hstart
        have hroot := hstart.subset List.mem_cons_self
        obtain ⟨piece, -, hpiece⟩ := List.mem_filterMap.1 hroot
        rw [pieceComponent?] at hpiece
        split at hpiece
        · cases hpiece
        · split at hpiece <;> cases hpiece
      · rw [components, hfront] at hstart
        exact congrArg some (List.cons_prefix_cons.1 hstart).1.symm
    have hcomponents : p.components = .root :: p.layout.pieces.filterMap pieceComponent? := by
      rw [components, hfront]
      rfl
    rw [hcomponents, List.cons_prefix_cons] at hstart
    obtain ⟨cs, hcs⟩ := hstart.2
    simp only [components_ofLocation hl, List.length_cons, List.length_map, hfront, Option.some.injEq]
      at h
    subst h
    have hleft : (dropCounted l.length p.layout.pieces).filterMap pieceComponent? = cs := by
      rw [filterMap_dropCounted, ← hcs, List.drop_left' (by simp)]
    cases hdrop : dropCounted l.length p.layout.pieces with
    | nil => simp [hdrop, trimEnd, joinWith] at hne
    | cons piece rest =>
      have hidle := isIdle_head_dropCounted hdrop
      obtain ⟨rest', htrim, hsub⟩ := exists_trimEnd_cons rest hidle
      have hpieces : ∀ n ∈ piece :: rest, n ∈ p.layout.pieces := fun n hn =>
        mem_of_mem_dropCounted (hdrop ▸ hn)
      refine ⟨piece, rest', hidle, ?_, congrArg (joinWith separator) htrim, ?_⟩
      · refine List.forall_mem_cons.2 ⟨separator_not_mem_layout (hpieces _ List.mem_cons_self), fun n hn => ?_⟩
        exact separator_not_mem_layout (hpieces _ (List.mem_cons_of_mem _ (hsub hn)))
      · rw [hcomponents, ← hcs, ← htrim, filterMap_trimEnd, ← hdrop, hleft]
        rfl
  · contradiction

end Path

namespace ArtifactKind

open Path

variable {kind other : ArtifactKind} {out t u F G : Path}

/-- The artifacts of a source differ in the end of their last name only. -/
theorem exists_components_artifact (hout : out.isAbsolute = true) (F : Path) : ∃ init n,
    ∀ kind : ArtifactKind, (kind.artifact out F).components = init ++ [.name (n ++ kind.ending)] := by
  obtain ⟨b, hb, -⟩ := exists_layout_eq (isAbsolute_join hout F)
  obtain ⟨init, n, hsplit⟩ := exists_splitAt_append separator b
  refine ⟨.root :: init.filterMap pieceComponent?, n, fun kind => ?_⟩
  have hlast : pieceComponent? (n ++ kind.ending) = some (.name (n ++ kind.ending)) := by
    have hlen := @length_ending kind
    have hlong : ∀ piece : Bytes, piece.length ≤ 2 → n ++ kind.ending ≠ piece := by
      rintro piece hpiece rfl
      rw [List.length_append] at hpiece
      omega
    have hempty := hlong [] (by decide)
    have hhere := hlong herePiece (by decide)
    have hup := hlong upPiece (by decide)
    simp [pieceComponent?, isIdle, List.isEmpty_iff, hempty, hhere, hup]
  have hbytes : (kind.artifact out F).bytes = separator :: (b ++ kind.ending) := by
    rw [artifact, hb]
    rfl
  rw [components, layout, hbytes]
  simp [hsplit _ separator_not_mem_ending, List.filterMap_append, hlast]

/-- If an artifact of one source is the same path as one of another, so are the others of the same kind. -/
theorem artifact_same (hout : out.isAbsolute = true)
    (h : (kind.artifact out F).Same (other.artifact out G)) :
    kind = other ∧ ∀ kind : ArtifactKind, (kind.artifact out F).Same (kind.artifact out G) := by
  obtain ⟨init, n, hF⟩ := exists_components_artifact hout F
  obtain ⟨init', n', hG⟩ := exists_components_artifact hout G
  rw [Same, hF, hG] at h
  obtain ⟨hinit, hlast⟩ := List.append_inj' h rfl
  obtain ⟨hkind, rfl⟩ := ending_inj (Component.name.inj (List.cons.inj hlast).1)
  exact ⟨hkind, fun kind => by rw [Same, hF, hG, hinit]⟩

/-- The source of a target is what comes before the suffix, and it is a relative path. -/
theorem exists_of_source? (hout : out.IsPlace) (h : kind.source? out t = some F) :
    ∃ rel, t.stripStart? out = some rel ∧ rel.bytes = F.bytes ++ kind.ending ∧ F.bytes ≠ [] ∧
      F.isAbsolute = false := by
  obtain ⟨o, ho, rfl⟩ := hout.exists_eq
  simp only [source?, Option.bind_eq_bind, Option.bind_eq_some_iff] at h
  obtain ⟨rel, hrel, -, -, source, hsource, hF⟩ := h
  split at hF
  · contradiction
  next hne =>
  obtain rfl := Option.some.inj hF
  simp only [not_or] at hne
  have hbytes : rel.bytes = source ++ kind.ending := by
    rw [Bytes.dropEnd?] at hsource
    split at hsource
    · next hs =>
      obtain ⟨b, hb⟩ := List.isSuffixOf_iff_suffix.1 hs
      rw [← hb] at hsource ⊢
      simpa [ending] using hsource
    · contradiction
  refine ⟨rel, hrel, hbytes, hne.1, ?_⟩
  -- The first piece that is left counts, so it is not empty.
  obtain ⟨piece, rest, hidle, hpieces, hjoin, -⟩ := exists_of_stripStart? ho hrel (by simp [hbytes, hne.1])
  obtain ⟨b, source, rfl⟩ := List.exists_cons_of_ne_nil hne.1
  obtain ⟨b', piece, rfl⟩ : ∃ b piece', piece = b :: piece' :=
    List.exists_cons_of_ne_nil (by rintro rfl; simp [isIdle] at hidle)
  have hb : b = b' := by
    rw [hjoin] at hbytes
    cases rest <;> simp [joinWith] at hbytes <;> exact hbytes.1.symm
  have hsep : b ≠ separator := fun h => hpieces _ List.mem_cons_self (by simp [← hb, h])
  simpa [isAbsolute] using hsep

/-- A target is the same path as the artifact of its source. -/
theorem same_artifact_of_source? (hout : out.IsPlace) (h : kind.source? out t = some F) :
    t.Same (kind.artifact out F) := by
  obtain ⟨rel, hrel, hbytes, hne, habsolute⟩ := exists_of_source? hout h
  obtain ⟨o, ho, rfl⟩ := hout.exists_eq
  obtain ⟨piece, rest, -, hpieces, hjoin, ht⟩ := exists_of_stripStart? ho hrel (by simp [hbytes, hne])
  have hspelled : (kind.artifact (ofLocation o) F).bytes =
      separator :: joinWith separator (o ++ piece :: rest) := by
    rw [artifact, join, habsolute, if_neg (by simp)]
    change _ ++ kind.ending = _
    rcases List.eq_nil_or_concat o with rfl | ⟨o, n, rfl⟩
    · rw [List.nil_append, ← hjoin, hbytes]
      rfl
    · rw [List.concat_eq_append] at ho ⊢
      have hend := endsInSeparator_ofLocation (l := o) (ho n (by simp))
      rw [endsInSeparator] at hend
      rw [joinWith_append (by simp) (by simp), ← hjoin, hbytes]
      cases hlast : (ofLocation (o ++ [n])).bytes.getLast? with
      | none => simp [ofLocation] at hlast
      | some b =>
        have hb : b ≠ separator := by simpa [hlast] using hend
        simp [hb, ofLocation]
  have hseparator : ∀ n ∈ o ++ piece :: rest, separator ∉ n := fun n hn =>
    (List.mem_append.1 hn).elim (fun hn => (ho n hn).2.1) (hpieces n)
  rw [Same, ht, components, layout, hspelled]
  simp [splitAt_joinWith _ hseparator, filterMap_pieceComponent? ho]

/-- A path is that of an artifact of one kind only. -/
theorem eq_of_source? (hout : out.IsPlace) (h : kind.source? out t = some F)
    (h' : other.source? out t = some G) : kind = other :=
  (artifact_same hout.1
    ((same_artifact_of_source? hout h).symm.trans (same_artifact_of_source? hout h'))).1

/-- The kind and the source of a path are those of its only reading. -/
theorem classify?_eq_some_iff (hout : out.IsPlace) :
    classify? out t = some (kind, F) ↔ kind.source? out t = some F := by
  constructor
  · intro h
    obtain ⟨other, -, h⟩ := List.exists_of_findSome?_eq_some h
    obtain ⟨G, hG, heq⟩ := Option.map_eq_some_iff.1 h
    obtain ⟨rfl, rfl⟩ := Prod.mk.inj heq
    exact hG
  · intro h
    have hother : ∀ other, other ≠ kind → other.source? out t = none := fun other hne =>
      Option.eq_none_iff_forall_ne_some.2 fun G hG => hne (eq_of_source? hout hG h)
    cases kind with
    | direct => simp [classify?, all, h]
    | transitive => simp [classify?, all, h, hother direct (by decide)]

end ArtifactKind

end ImportIndex
