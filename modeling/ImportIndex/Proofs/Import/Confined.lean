import ImportIndex.Import.Rules
import ImportIndex.Proofs.Build.Confined

/-!
# What making an artifact asks for

Whatever it is told, the rule of direct imports asks for the source, and for files that its references may
stand for below the search roots; and what it finds is below them (`confined_directImports`). The rule of
transitive imports asks for the direct artifact of the source, and for artifacts of what that lists
(`confined_transitiveImports`).
-/

namespace ImportIndex

open Recipe

variable {asks : Question → Prop} {scanner : Scanner} {roots : List Path} {source out : Path}
  {owns : Path → Bool} {among : Path → Prop}

/-! ### Direct imports -/

theorem confined_findInRoots {relative : Path}
    (hasks : ∀ root ∈ roots, asks (.presence (root.join relative))) :
    (findInRoots Recipe.isFile relative roots).run.Confined asks
      fun r => ∃ found, r = .ok found ∧ ∀ root, found = some root → root ∈ roots := by
  induction roots with
  | nil => exact ⟨none, rfl, by simp⟩
  | cons root roots ih =>
    rw [List.forall_mem_cons] at hasks
    refine ⟨hasks.1, fun answer => ?_⟩
    cases answer with
    | true => exact ⟨some root, rfl, by simp⟩
    | false =>
      refine (ih hasks.2).mono fun r => ?_
      rintro ⟨found, rfl, hfound⟩
      exact ⟨found, rfl, fun root hroot => List.mem_cons_of_mem _ (hfound root hroot)⟩

theorem confined_resolveAll {references : List String} {before : List Path}
    (hasks : ∀ r ∈ references, ∀ root ∈ roots, asks (.presence (root.join (scanner.candidate r))))
    (hamong : ∀ r ∈ references, ∀ root ∈ roots, among (root.join (scanner.candidate r)).normalize)
    (hbefore : ∀ p ∈ before, among p) :
    (resolveAll scanner roots source references before).run.Confined asks
      fun r => ∃ found, r = .ok found ∧ ∀ p ∈ found, among p := by
  induction references generalizing before with
  | nil => exact ⟨before.reverse, rfl, fun p hp => hbefore p (List.mem_reverse.1 hp)⟩
  | cons reference references ih =>
    rw [List.forall_mem_cons] at hasks hamong
    have hresolve : (resolve scanner roots reference).run.Confined asks
        fun r => ∃ found, r = .ok found ∧ ∀ p, found = some p → among p := by
      refine confined_bind (confined_findInRoots hasks.1) (fun found hfound => ?_) ?_
      · obtain ⟨_, heq, hroots⟩ := hfound
        obtain rfl := Except.ok.inj heq
        refine ⟨_, rfl, fun p hp => ?_⟩
        obtain ⟨root, hroot, rfl⟩ := Option.map_eq_some_iff.1 hp
        exact hamong.1 root (hroots root hroot)
      · rintro cause ⟨_, heq, -⟩
        cases heq
    refine confined_bind hresolve (fun found hfound => ?_) ?_
    · obtain ⟨_, heq, hfound⟩ := hfound
      obtain rfl := Except.ok.inj heq
      cases found with
      | some p => exact ih hasks.2 hamong.2 (List.forall_mem_cons.2 ⟨hfound p rfl, hbefore⟩)
      | none => exact ih hasks.2 hamong.2 hbefore
    · rintro cause ⟨_, heq, -⟩
      cases heq

/-- Looking for direct imports ends with files that references in the source may stand for, unless the source
    cannot be read. -/
theorem confined_directImports (hsource : asks (.content source))
    (hasks : ∀ text, ∀ r ∈ scanner.references text, ∀ root ∈ roots,
      asks (.presence (root.join (scanner.candidate r))))
    (hamong : ∀ text, ∀ r ∈ scanner.references text, ∀ root ∈ roots,
      among (root.join (scanner.candidate r)).normalize) :
    (directImports scanner roots source).run.Confined asks fun r =>
      (∃ fault, r = .error (.readSource source fault)) ∨ ∃ found, r = .ok found ∧ ∀ p ∈ found, among p := by
  have hread : (Recipe.readText source (.readSource source)).run.Confined asks fun r =>
      ∀ cause, r = .error cause → ∃ fault, cause = .readSource source fault := by
    refine ⟨hsource, fun answer => ?_⟩
    cases answer with
    | ok text => exact fun cause h => by cases h
    | error fault => exact fun cause h => ⟨fault, (Except.error.inj h).symm⟩
  refine confined_bind hread (fun text _ => ?_) fun cause h => ?_
  · exact (confined_resolveAll (hasks text) (hamong text) (by simp)).mono fun _ => .inr
  · obtain ⟨fault, rfl⟩ := h cause rfl
    exact .inl ⟨fault, rfl⟩

/-! ### Transitive imports -/

theorem confined_importsOf {kind : ArtifactKind} {p : Path} (hp : asks (.artifact (kind.artifact out p))) :
    (importsOf kind out p).run.Confined asks
      fun r => ∀ paths, r = .ok paths → ∃ text, paths = Listing.parse text := by
  have hread : (Recipe.artifact (kind.artifact out p)).run.Confined asks fun _ => True :=
    ⟨hp, fun _ => trivial⟩
  exact confined_bind hread (fun text _ paths h => ⟨text, (Except.ok.inj h).symm⟩) (by simp)

theorem confined_expansion {p : Path} (hp : ∀ kind : ArtifactKind, asks (.artifact (kind.artifact out p))) :
    (expansion out source p).run.Confined asks fun _ => True := by
  refine (confined_importsOf (hp .transitive)).bind fun r _ => ?_
  cases r with
  | ok paths => trivial
  | error cause =>
    change (if cause.isCycle = true then _ else _ : Recipe (List Path)).run.Confined asks _
    split
    · exact (confined_importsOf (hp .direct)).bind fun _ _ => trivial
    · trivial

theorem confined_expandAll {paths : List Path} {found : FirstSeen}
    (hasks : ∀ p ∈ paths, ∀ kind : ArtifactKind, asks (.artifact (kind.artifact out p))) :
    (expandAll out owns source paths found).run.Confined asks fun _ => True := by
  induction paths generalizing found with
  | nil => trivial
  | cons p paths ih =>
    rw [List.forall_mem_cons] at hasks
    rw [expandAll]
    split
    · exact ih hasks.2
    · split
      · exact confined_bind (confined_expansion hasks.1) (fun _ _ => ih hasks.2) fun _ _ => trivial
      · exact ih hasks.2

/-- Putting transitive imports together asks for artifacts of the source and of what a text lists. -/
theorem confined_transitiveImports (hsource : asks (.artifact (ArtifactKind.direct.artifact out source)))
    (hasks : ∀ text, ∀ p ∈ Listing.parse text, ∀ kind : ArtifactKind,
      asks (.artifact (kind.artifact out p))) :
    (transitiveImports out owns source).run.Confined asks fun _ => True := by
  have hdirect : ((importsOf .direct out source).adapt Failure.needed).run.Confined asks
      fun r => ∀ paths, r = .ok paths → ∃ text, paths = Listing.parse text := by
    refine (confined_importsOf hsource).bind fun r hr => ?_
    cases r with
    | ok paths => exact fun _ h => hr _ h
    | error cause => exact fun _ h => by cases h
  refine confined_bind hdirect (fun paths hpaths => ?_) fun _ _ => trivial
  obtain ⟨text, rfl⟩ := hpaths paths rfl
  exact confined_expandAll (hasks text)

end ImportIndex
