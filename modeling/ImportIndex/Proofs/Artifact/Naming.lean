import ImportIndex.Proofs.Artifact.Spelling

/-!
# Naming artifacts

The artifacts of a source are named by its spelling, whatever that is: a name that tells a source is that of
an artifact of this source, and each artifact of a source that is spelled as a text, starts with a name and
ends in one tells that source in the same spelling (`ArtifactKind.classify?_artifact`). So no two sources
share an artifact (`ArtifactKind.naming`).

Between the names a source may be spelled with repeated separators and with `.`; a source such as `a/.` ends
in a piece that becomes a name together with the suffix.
-/

namespace ImportIndex

namespace Path

variable {o : List Bytes} {p q : Path}

/-- Whether a path can be that of a source: it is a text, not empty, made of names, and does not end in a
    separator. -/
structure NamesSource (p : Path) : Prop where
  /-- The path is a text. -/
  text : p.toText?.isSome = true
  /-- The path is not empty. -/
  nonempty : p.bytes ≠ []
  /-- The path is made of names. -/
  names : ∀ c ∈ p.components, ∃ n, c = .name n
  /-- No separator follows the last name. -/
  unended : p.endsInSeparator = false

theorem NamesSource.isAbsolute (h : p.NamesSource) : p.isAbsolute = false := by
  refine Bool.eq_false_iff.2 fun habs => ?_
  obtain ⟨rest, -, hlayout⟩ := exists_layout_eq habs
  obtain ⟨n, hn⟩ := h.names .root (by simp [components, hlayout])
  cases hn

/-- The pieces of a source: the first one counts, and what counts of them are the components. -/
theorem NamesSource.exists_splitAt_eq (h : p.NamesSource) : ∃ piece pieces,
    splitAt separator p.bytes = piece :: pieces ∧ isIdle piece = false ∧
      p.components = (piece :: pieces).filterMap pieceComponent? := by
  have hhead : p.bytes.head? ≠ some separator := by simpa [Path.isAbsolute] using h.isAbsolute
  have hcomponents := components_of_head?_ne hhead
  cases hsplit : splitAt separator p.bytes with
  | nil => exact absurd hsplit (splitWhere_ne_nil _ _)
  | cons piece pieces =>
    rw [hsplit] at hcomponents
    simp only at hcomponents
    have hhere : piece ≠ herePiece := by
      rintro rfl
      rw [if_pos rfl] at hcomponents
      obtain ⟨n, hn⟩ := h.names .here (hcomponents ▸ List.mem_cons_self)
      cases hn
    have hempty : piece ≠ [] := by
      rintro rfl
      have hbytes := joinWith_splitAt separator p.bytes
      rw [hsplit] at hbytes
      cases pieces with
      | nil => exact h.nonempty hbytes.symm
      | cons q qs => exact hhead (hbytes ▸ rfl)
    rw [if_neg hhere] at hcomponents
    exact ⟨piece, pieces, rfl, by simp [isIdle, hempty, hhere], hcomponents⟩

/-- The layout of a relative path that is seen from a location. -/
theorem layout_join (ho : ∀ n ∈ o, IsName n) (hq : q.isAbsolute = false) :
    ((ofLocation o).join q).layout = ⟨some .root, o ++ splitAt separator q.bytes⟩ := by
  have hne : splitAt separator q.bytes ≠ [] := splitWhere_ne_nil _ _
  have hbytes : ((ofLocation o).join q).bytes =
      separator :: joinWith separator (o ++ splitAt separator q.bytes) := by
    rw [join, hq, if_neg Bool.false_ne_true]
    rcases List.eq_nil_or_concat o with rfl | ⟨o, n, rfl⟩
    · rw [List.nil_append, joinWith_splitAt]
      rfl
    · rw [List.concat_eq_append] at ho ⊢
      have hend := endsInSeparator_ofLocation (l := o) (ho n (by simp))
      rw [joinWith_append (by simp) hne, joinWith_splitAt]
      rw [endsInSeparator] at hend
      cases hlast : (ofLocation (o ++ [n])).bytes.getLast? with
      | none => simp [ofLocation] at hlast
      | some b =>
        have hb : b ≠ separator := by simpa [hlast] using hend
        simp [hb, ofLocation]
  have hpieces : ∀ piece ∈ o ++ splitAt separator q.bytes, separator ∉ piece := fun piece hpiece =>
    (List.mem_append.1 hpiece).elim (fun hn => (ho piece hn).2.1) separator_not_mem_splitAt
  rw [layout, hbytes]
  simp only [if_true]
  rw [splitAt_joinWith (List.append_ne_nil_of_right_ne_nil _ hne) hpieces]

theorem components_join (ho : ∀ n ∈ o, IsName n) (hq : q.isAbsolute = false) :
    ((ofLocation o).join q).components =
      .root :: o.map .name ++ (splitAt separator q.bytes).filterMap pieceComponent? := by
  rw [components, layout_join ho hq, List.filterMap_append, filterMap_pieceComponent? ho]
  rfl

theorem dropCounted_append (ho : ∀ n ∈ o, IsName n) (l : List Bytes) :
    dropCounted o.length (o ++ l) = l.dropWhile isIdle := by
  induction o with
  | nil => rfl
  | cons n o ih =>
    rw [List.length_cons, dropCounted, List.cons_append,
      List.dropWhile_cons_of_neg (by simp [(ho n List.mem_cons_self).isIdle])]
    exact ih fun n hn => ho n (List.mem_cons_of_mem _ hn)

/-- What is left of a path that is seen from a location is that path, in its spelling, if its first and its
    last piece count. -/
theorem stripStart?_join {piece last : Bytes} {pieces init : List Bytes} (ho : ∀ n ∈ o, IsName n)
    (hq : q.isAbsolute = false) (hfirst : splitAt separator q.bytes = piece :: pieces)
    (hlast : splitAt separator q.bytes = init ++ [last]) (hpiece : isIdle piece = false)
    (hend : isIdle last = false) : ((ofLocation o).join q).stripStart? (ofLocation o) = some q := by
  have hstart : ((ofLocation o).join q).StartsWith (ofLocation o) := by
    rw [StartsWith, components_join ho hq, components_ofLocation ho]
    exact List.prefix_append _ _
  have htrim : trimEnd (init ++ [last]) = init ++ [last] := by
    rw [trimEnd, List.reverse_concat, List.dropWhile_cons_of_neg (by simp [hend]), List.reverse_cons,
      List.reverse_reverse]
  rw [stripStart?, if_pos hstart, components_ofLocation ho, layout_join ho hq]
  simp only [List.length_cons, List.length_map]
  rw [dropCounted_append ho, hfirst, List.dropWhile_cons_of_neg (by simp [hpiece]), ← hfirst, hlast, htrim,
    ← hlast, joinWith_splitAt]

end Path

namespace ArtifactKind

open Path

variable {kind other : ArtifactKind} {out F G : Path} {o : List Bytes}

theorem isIdle_append_ending (n : Bytes) : isIdle (n ++ kind.ending) = false := by
  have hlen := @length_ending kind
  rw [isIdle, Bool.or_eq_false_iff, beq_eq_false_iff_ne, List.isEmpty_eq_false_iff]
  constructor <;> intro heq <;> have := congrArg List.length heq <;>
    simp only [List.length_append, List.length_nil, herePiece, List.length_cons] at this <;> omega

theorem isAbsolute_append_ending (hF : F.NamesSource) :
    Path.isAbsolute ⟨F.bytes ++ kind.ending⟩ = false := by
  have hF' := hF.isAbsolute
  obtain ⟨b, bytes, hbytes⟩ := List.exists_cons_of_ne_nil hF.nonempty
  rw [Path.isAbsolute, hbytes] at hF' ⊢
  exact hF'

/-- An artifact is the source with the suffix, as seen from the output root. -/
theorem artifact_eq_join (hF : F.NamesSource) : kind.artifact out F = out.join ⟨F.bytes ++ kind.ending⟩ := by
  rw [artifact, join, join, hF.isAbsolute, isAbsolute_append_ending hF, if_neg Bool.false_ne_true,
    if_neg Bool.false_ne_true]
  cases out.bytes.getLast? with
  | none => rfl
  | some b => by_cases hb : b = separator <;> simp [hb, ending]

/-- The pieces of a source and those of its artifacts differ in the last one. -/
theorem exists_pieces (hF : F.NamesSource) : ∃ init last, splitAt separator F.bytes = init ++ [last] ∧
    (∀ kind : ArtifactKind,
      splitAt separator (F.bytes ++ kind.ending) = init ++ [last ++ kind.ending]) ∧
    ∀ kind : ArtifactKind, ∃ piece pieces,
      splitAt separator (F.bytes ++ kind.ending) = piece :: pieces ∧ isIdle piece = false := by
  obtain ⟨init, last, h⟩ := exists_splitAt_append separator F.bytes
  have hsource : splitAt separator F.bytes = init ++ [last] := by simpa using h [] (by simp)
  refine ⟨init, last, hsource, fun kind => h _ separator_not_mem_ending, fun kind => ?_⟩
  rw [h _ separator_not_mem_ending]
  obtain ⟨piece, pieces, hpieces, hidle, -⟩ := hF.exists_splitAt_eq
  cases init with
  | nil => exact ⟨_, [], rfl, isIdle_append_ending last⟩
  | cons first init =>
    obtain ⟨rfl, -⟩ := List.cons.inj (hsource.symm.trans hpieces)
    exact ⟨first, _, rfl, hidle⟩

/-- An artifact tells the source that it was made for, in its spelling. -/
theorem source?_artifact_spelled (hout : out.IsPlace) (hF : F.NamesSource) :
    kind.source? out (kind.artifact out F) = some F := by
  obtain ⟨o, ho, rfl⟩ := hout.exists_eq
  obtain ⟨init, last, -, hsplit, hfirst⟩ := exists_pieces hF
  obtain ⟨piece, pieces, hpieces, hidle⟩ := hfirst kind
  obtain ⟨text, htext⟩ := Option.isSome_iff_exists.1 hF.text
  have hsuffixed : Path.toText? ⟨F.bytes ++ kind.ending⟩ = some (text ++ kind.suffix) := by
    rw [toText?, Bytes.toText?_eq_some_iff] at htext ⊢
    rw [htext, Bytes.ofText, Bytes.ofText, ending, Bytes.ofText]
    simp [Bytes.ofArray_eq]
  have hend : F.bytes.getLast? ≠ some separator := by simpa [endsInSeparator] using hF.unended
  rw [source?, artifact_eq_join hF, stripStart?_join ho (isAbsolute_append_ending hF) hpieces (hsplit kind)
    hidle (isIdle_append_ending last), Option.bind_eq_bind, Option.bind_some, hsuffixed]
  simp [Bytes.dropEnd?, hF.nonempty, hend, ending]

/-- An artifact tells its kind and the source that it was made for. -/
theorem classify?_artifact (hout : out.IsPlace) (hF : F.NamesSource) :
    classify? out (kind.artifact out F) = some (kind, F) :=
  (classify?_eq_some_iff hout).2 (source?_artifact_spelled hout hF)

/-- Sources that share an artifact are the same. -/
theorem same_of_artifact_same (hout : out.IsPlace) (hF : F.NamesSource) (hG : G.NamesSource)
    (h : (kind.artifact out F).Same (other.artifact out G)) : kind = other ∧ F.Same G := by
  obtain ⟨rfl, -⟩ := artifact_same hout.1 h
  refine ⟨rfl, ?_⟩
  obtain ⟨o, ho, rfl⟩ := hout.exists_eq
  obtain ⟨init, last, hsource, hsplit, -⟩ := exists_pieces hF
  obtain ⟨init', last', hsource', hsplit', -⟩ := exists_pieces hG
  have hname : ∀ n : Bytes, pieceComponent? (n ++ kind.ending) = some (.name (n ++ kind.ending)) := by
    intro n
    have hup : n ++ kind.ending ≠ upPiece := fun heq => by
      have hlen := @length_ending kind
      have := congrArg List.length heq
      simp only [List.length_append, upPiece, List.length_cons, List.length_nil] at this
      omega
    simp [pieceComponent?, isIdle_append_ending, hup]
  rw [Same, artifact_eq_join hF, artifact_eq_join hG, components_join ho (isAbsolute_append_ending hF),
    components_join ho (isAbsolute_append_ending hG), hsplit, hsplit', List.append_cancel_left_eq,
    List.filterMap_append, List.filterMap_append] at h
  simp only [List.filterMap_cons, hname, List.filterMap_nil] at h
  obtain ⟨hinit, hlast⟩ := List.append_inj' h rfl
  obtain rfl : last = last' := List.append_cancel_right (Component.name.inj (List.cons.inj hlast).1)
  obtain ⟨piece, pieces, hpieces, -, hF⟩ := hF.exists_splitAt_eq
  obtain ⟨piece', pieces', hpieces', -, hG⟩ := hG.exists_splitAt_eq
  rw [Same, hF, hG, ← hpieces, ← hpieces', hsource, hsource', List.filterMap_append, List.filterMap_append,
    hinit]

/-- Artifacts are named one to one: an artifact tells its kind and its source, no two sources share one, and
    a path that tells a kind and a source is that artifact. -/
theorem naming (hout : out.IsPlace) :
    (∀ kind F, F.NamesSource → classify? out (artifact kind out F) = some (kind, F)) ∧
    (∀ kind other F G, F.NamesSource → G.NamesSource →
      (artifact kind out F).Same (artifact other out G) → kind = other ∧ F.Same G) ∧
    ∀ a kind F, classify? out a = some (kind, F) → (artifact kind out F).Same a := by
  refine ⟨fun kind F hF => classify?_artifact hout hF,
    fun kind other F G hF hG => same_of_artifact_same hout hF hG, fun a kind F h => ?_⟩
  obtain ⟨other, -, hsource⟩ := List.exists_of_findSome?_eq_some h
  obtain ⟨G, hG, heq⟩ := Option.map_eq_some_iff.1 hsource
  obtain ⟨rfl, rfl⟩ := Prod.mk.inj heq
  exact (same_artifact_of_source? hout hG).symm

/-- A source in a directory that is named as an artifact is, spelled with more than is needed. -/
theorem naming_spelled :
    let out := Path.ofText "/w/_build"
    let source := Path.ofText "a.directImports//./b/."
    let artifact := Path.ofText "/w/./_build//a.directImports/b/..transitiveImports/"
    out.IsPlace ∧ classify? out (transitive.artifact out source) = some (transitive, source) ∧
      classify? out artifact = some (transitive, .ofText "a.directImports/b/.") ∧
      (transitive.artifact out (.ofText "a.directImports/b/.")).Same artifact ∧
      (transitive.artifact out source).Same artifact := by
  intro out source artifact
  have hout : out.IsPlace := by decide
  obtain ⟨htells, -, hnames⟩ := naming hout
  have hsource : source.NamesSource := ⟨by decide, by decide, by decide, by decide⟩
  have hclass : classify? out artifact = some (transitive, .ofText "a.directImports/b/.") := by decide
  have hsame := hnames artifact _ _ hclass
  exact ⟨hout, htells transitive source hsource, hclass, hsame, by decide⟩

end ArtifactKind

end ImportIndex
