import ImportIndex.Proofs.Import.Direct

/-!
# How transitive imports are put together

The rule of transitive imports comes to the direct imports of a source and what those of its family
contribute, in the order in which they are first seen (`transitiveRule_meets`). What an import
contributes is the list in its transitive artifact or, if that was refused for a cycle, the one in
its direct artifact (`World.Contributes`).
-/

namespace ImportIndex

open Recipe Tracked

/-- Whether the artifact of a source may list these paths. -/
def World.Gives (w : World) (kind : ArtifactKind) (out F : Path) (ps : List Path) : Prop :=
  ∃ c text, w.makes (kind.artifact out F) c ∧ c.toText? = some text ∧ Listing.parse text = ps

/-- Whether a source may contribute these paths to the imports of one that imports it. -/
def World.Contributes (w : World) (out F : Path) (ps : List Path) : Prop :=
  w.Gives .transitive out F ps ∨
    (∃ cause, w.refuses (ArtifactKind.transitive.artifact out F) cause ∧ cause.isCycle = true) ∧
      w.Gives .direct out F ps

/-- Whether the rule of transitive imports gets over it that a target is refused: a transitive artifact,
    for a cycle. -/
def GetsOver (t : Path) (cause : Failure) : Prop :=
  cause.isCycle = true ∧ ArtifactKind.transitive.ending <:+ t.bytes

/-- Whether a world refuses a target so that the rule does not get over it, or has an artifact for one
    that is no text. -/
def World.Lacks (w : World) : Prop :=
  (∃ t cause, w.refuses t cause ∧ ¬ GetsOver t cause) ∨ ∃ t c, w.makes t c ∧ c.toText? = none

/-- The paths without a source, in the order in which they are first seen. -/
def firstSeen (F : Path) (ps : List Path) : List Path := (addImports F ∅ ps).toList

/-- Whether a source takes over what an import contributes. -/
def expands (owns : Path → Bool) (F G : Path) : Bool := !decide (G.Same F) && owns G

/-- Whether these are imports of a source, put together from its direct imports and from what they
    contribute. -/
def World.Assembles (w : World) (out : Path) (owns : Path → Bool) (F : Path) (L : List Path) :
    Prop :=
  ∃ ds parts, w.Gives .direct out F ds ∧
    List.Forall₂ (w.Contributes out) (ds.filter (expands owns F)) parts ∧
      L = firstSeen F (ds ++ parts.flatten)

/-! ### Paths in the order in which they are first seen -/

theorem addImports_append {F : Path} {found : FirstSeen} {a b : List Path} :
    addImports F (addImports F found a) b = addImports F found (a ++ b) := by
  simp [addImports, FirstSeen.addAll]

/-- Adding paths of which no two are spelled differently is erasing those that were seen before. -/
theorem FirstSeen.toList_addAll {l : FirstSeen} {ps : List Path} (hl : ∀ p ∈ l.latest, p.IsBelow)
    (hps : ∀ p ∈ ps, p.IsBelow) :
    (l.addAll ps).toList = List.eraseDupsBy.loop (· == ·) ps l.latest := by
  induction ps generalizing l with
  | nil => rfl
  | cons p ps ih =>
    rw [List.forall_mem_cons] at hps
    have hmem : l.contains p = l.latest.any (p == ·) := by
      rw [Bool.eq_iff_iff, contains_iff, List.any_eq_true]
      simp only [toList, List.mem_reverse, beq_iff_eq]
      refine exists_congr fun q => and_congr_right fun hq => ⟨fun h => ?_, fun h => h ▸ rfl⟩
      exact (hl q hq).eq_of_same hps.1 h ▸ rfl
    have hadd : (l.add p).latest = if l.contains p then l.latest else p :: l.latest := by
      unfold add
      split <;> rfl
    change ((l.add p).addAll ps).toList = _
    rw [List.eraseDupsBy.loop, ← hmem]
    cases hc : l.contains p with
    | true =>
      rw [hc, if_pos rfl] at hadd
      rw [ih (hadd ▸ hl) hps.2, hadd]
    | false =>
      rw [hc, if_neg (by simp)] at hadd
      rw [ih (hadd ▸ List.forall_mem_cons.2 ⟨hps.1, hl⟩) hps.2, hadd]

section

variable {F G : Path} {ps : List Path} (hF : F.IsBelow) (hps : ∀ p ∈ ps, p.IsBelow)

include hF hps

theorem firstSeen_eq : firstSeen F ps = (ps.filter (· ≠ F)).eraseDups := by
  have hfilter : (ps.filter fun p => !decide (p.Same F)) = ps.filter (· ≠ F) := by
    refine List.filter_congr fun p hp => ?_
    have hiff : p.Same F ↔ p = F := ⟨(hps p hp).eq_of_same hF, fun h => h ▸ rfl⟩
    simp [hiff]
  rw [firstSeen, addImports, hfilter, FirstSeen.toList_addAll (by rintro p ⟨⟩)
    fun p hp => hps p (List.mem_of_mem_filter hp)]
  rfl

theorem mem_firstSeen : G ∈ firstSeen F ps ↔ G ∈ ps ∧ G ≠ F := by
  simp [firstSeen_eq hF hps]

end

/-! ### The rule of transitive imports -/

section

variable {w : World} {asks : Question → Prop} {kind : ArtifactKind} {out F G : Path}
  {owns : Path → Bool}

theorem getsOver_transitive {cause : Failure} (h : cause.isCycle = true) :
    GetsOver (ArtifactKind.transitive.artifact out F) cause := ⟨h, List.suffix_append _ _⟩

theorem not_getsOver_direct {cause : Failure} : ¬ GetsOver (ArtifactKind.direct.artifact out F) cause := by
  rintro ⟨-, bytes, h⟩
  cases (ArtifactKind.ending_inj h).1

theorem importsOf_meets (ha : asks (.artifact (kind.artifact out F))) :
    (importsOf kind out F).run.Meets w asks fun
      | .ok ps => w.Gives kind out F ps
      | .error cause => w.refuses (kind.artifact out F) cause ∨ w.Lacks ∧ cause.isCycle = false := by
  refine ⟨ha, fun c hc => ?_, fun cause hcause => .inl hcause⟩
  rw [artifactText]
  cases htext : c.toText? with
  | some text => exact ⟨c, text, hc, htext, rfl⟩
  | none => exact .inr ⟨.inr ⟨_, c, hc, htext⟩, rfl⟩

/-- A failure that is passed on under another name is one. -/
theorem adapt_meets {α : Type} {x : Recipe α} {f : Failure → Failure}
    {between post : Except Failure α → Prop} (hx : x.run.Meets w asks between)
    (hok : ∀ a, between (.ok a) → post (.ok a))
    (herror : ∀ cause, between (.error cause) → post (.error (f cause))) :
    (x.adapt f).run.Meets w asks post := by
  refine @Meets.bind _ _ w _ asks _ between post hx fun r hr => ?_
  cases r with
  | ok a => exact hok a hr
  | error cause => exact herror cause hr

theorem expansion_meets (ha : ∀ kind : ArtifactKind, asks (.artifact (kind.artifact out G))) :
    (expansion out F G).run.Meets w asks fun
      | .ok ps => w.Contributes out G ps
      | .error _ => w.Lacks := by
  refine Meets.bind (importsOf_meets (ha .transitive)) fun r hr => ?_
  cases r with
  | ok ps => exact .inl hr
  | error cause =>
    change (if cause.isCycle = true then _ else _ : Recipe (List Path)).run.Meets w asks _
    split
    · next hcycle =>
      -- The import is still being put together, so its direct imports stand in.
      have hrefused := hr.resolve_right fun h => by simp [hcycle] at h
      refine adapt_meets (importsOf_meets (ha .direct)) (fun ps hps => ?_) fun cause' h => ?_
      · exact .inr ⟨⟨cause, hrefused, hcycle⟩, hps⟩
      · exact h.elim (fun h => .inl ⟨_, _, h, not_getsOver_direct⟩) And.left
    · next hcycle => exact hr.elim (fun h => .inl ⟨_, _, h, fun hover => hcycle hover.1⟩) And.left

theorem expandAll_meets {paths : List Path} {found : FirstSeen}
    (ha : ∀ G ∈ paths, expands owns F G = true → ∀ kind : ArtifactKind,
      asks (.artifact (kind.artifact out G))) :
    (expandAll out owns F paths found).run.Meets w asks fun
      | .ok L => ∃ parts, List.Forall₂ (w.Contributes out) (paths.filter (expands owns F)) parts ∧
          L = (addImports F found parts.flatten).toList
      | .error _ => w.Lacks := by
  induction paths generalizing found with
  | nil => exact ⟨[], .nil, rfl⟩
  | cons G paths ih =>
    rw [List.forall_mem_cons] at ha
    rw [expandAll]
    split
    · next hsame =>
      rw [List.filter_cons_of_neg (by simp [expands, hsame])]
      exact ih ha.2
    · next hsame =>
      split
      · next howns =>
        have hexpands : expands owns F G = true := by simp [expands, hsame, howns]
        rw [List.filter_cons_of_pos hexpands]
        refine meets_bind (expansion_meets (ha.1 hexpands)) (fun more hmore => ?_) fun _ h => h
        refine (ih ha.2).mono (fun _ h => h) fun r hr => ?_
        cases r with
        | ok L =>
          obtain ⟨parts, hparts, rfl⟩ := hr
          refine ⟨more :: parts, .cons hmore hparts, ?_⟩
          rw [addImports_append, List.flatten_cons]
        | error cause => exact hr
      · next howns =>
        rw [List.filter_cons_of_neg (by simp [expands, howns])]
        exact ih ha.2

/-- The rule of transitive imports asks for the direct imports and for the artifacts of those that
    it takes imports from, and comes to imports that are put together from them. -/
theorem transitiveRule_meets {family : ImportFamily} {t : Path}
    (ht : ArtifactKind.transitive.source? out t = some F)
    (hdirect : asks (.artifact (ArtifactKind.direct.artifact out F)))
    (ha : ∀ ds, w.Gives .direct out F ds → ∀ G ∈ ds, expands family.owns F G = true →
      ∀ kind : ArtifactKind, asks (.artifact (kind.artifact out G))) :
    ((family.transitiveRule out).recipe t).run.Meets w asks fun r =>
      (∃ L, w.Assembles out family.owns F L ∧ r = ImportFamily.listing L) ∨
        w.Lacks ∧ ∃ cause, r = .error cause := by
  have hsourceOf : ImportFamily.sourceOf .transitive out t = pure F := by
    rw [ImportFamily.sourceOf, ht]
  change (ImportFamily.sourceOf .transitive out t >>= _).run.Meets w asks _
  rw [hsourceOf, pure_bind]
  have himports : (transitiveImports out family.owns F).run.Meets w asks fun
      | .ok L => w.Assembles out family.owns F L
      | .error _ => w.Lacks := by
    have hds : ((importsOf .direct out F).adapt Failure.needed).run.Meets w asks fun
        | .ok ds => w.Gives .direct out F ds
        | .error _ => w.Lacks :=
      adapt_meets (importsOf_meets hdirect) (fun _ h => h) fun cause h =>
        h.elim (fun h => .inl ⟨_, _, h, not_getsOver_direct⟩) And.left
    refine meets_bind hds (fun ds hds => ?_) fun _ h => h
    refine (expandAll_meets (ha ds hds)).mono (fun _ h => h) fun r hr => ?_
    cases r with
    | ok L =>
      obtain ⟨parts, hparts, rfl⟩ := hr
      exact ⟨ds, parts, hds, hparts, congrArg FirstSeen.toList addImports_append⟩
    | error cause => exact hr
  refine meets_bind himports (fun L hL => ?_) fun cause h => .inr ⟨h, cause, rfl⟩
  exact .inl ⟨L, hL, rfl⟩

/-- The rule of transitive imports asks for artifacts only. -/
theorem asksOnly_transitiveRule {family : ImportFamily} {t : Path} :
    ((family.transitiveRule out).recipe t).run.AsksOnly fun q => ∃ u, q = .artifact u := by
  have himports : ∀ kind F, (importsOf kind out F).run.AsksOnly fun q => ∃ u, q = .artifact u :=
    fun kind F => asksOnly_run_bind ⟨⟨_, rfl⟩, fun _ => trivial⟩ fun _ => trivial
  have hadapt : ∀ kind F, ((importsOf kind out F).adapt Failure.needed).run.AsksOnly
      fun q => ∃ u, q = .artifact u := fun kind F =>
    asksOnly_bind (himports kind F) fun _ => trivial
  have hexpansion : ∀ F G, (expansion out F G).run.AsksOnly fun q => ∃ u, q = .artifact u := by
    intro F G
    refine asksOnly_bind (himports .transitive G) fun r => ?_
    cases r with
    | ok ps => trivial
    | error cause =>
      change (if cause.isCycle = true then _ else _ : Recipe (List Path)).run.AsksOnly _
      split
      · exact hadapt .direct G
      · trivial
  have hexpandAll : ∀ F paths found, (expandAll out family.owns F paths found).run.AsksOnly
      fun q => ∃ u, q = .artifact u := by
    intro F paths
    induction paths with
    | nil => exact fun _ => trivial
    | cons G paths ih =>
      intro found
      rw [expandAll]
      split
      · exact ih found
      · split
        · exact asksOnly_run_bind (hexpansion F G) fun _ => ih _
        · exact ih found
  refine asksOnly_run_bind ?_ fun F => ?_
  · rw [ImportFamily.sourceOf]
    cases ArtifactKind.transitive.source? out t <;> trivial
  · exact asksOnly_run_bind (asksOnly_run_bind (hadapt .direct F) fun _ => hexpandAll F _ _)
      fun _ => trivial

theorem heedsFaults_transitiveRule {family : ImportFamily} {t : Path} :
    ((family.transitiveRule out).recipe t).run.HeedsFaults := by
  refine heedsFaults_of_asksOnly (asksOnly_transitiveRule.mono ?_)
  rintro _ ⟨u, rfl⟩ p
  simp

end

end ImportIndex
