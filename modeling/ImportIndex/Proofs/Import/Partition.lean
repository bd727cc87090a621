import ImportIndex.Proofs.Artifact.RoundTrip
import ImportIndex.Proofs.Build.Refusal
import ImportIndex.Proofs.Import.Rules

/-!
# The rules part the targets

Every target is made by one rule of a project or by none: by the one that is named after the kind of the
target and the family of its source, if there is such a source and it has a family, however the extensions of
the families overlap. The rule takes the target apart once more and comes to the same source, and to what is
made of that (`ImportFamily.recipe_eq`).

So neither that several rules make a target nor that a target is not an artifact is why a target fails,
however far away from it (`Project.rules_part`).
-/

namespace ImportIndex

open Tracked Recipe

variable {refuses : Path → Failure → Prop} {own : Failure → Prop} {scanner : Scanner} {roots : List Path}
  {out root source t F : Path} {owns : Path → Bool} {kind : ArtifactKind}

namespace ImportFamily

variable {family : ImportFamily}

/-- The content of the artifact of a source. -/
def content (family : ImportFamily) (out root : Path) : ArtifactKind → Path → Recipe Content
  | .direct, source => do listingBelow root (← family.imports (root.join source))
  | .transitive, source => do listing (← transitiveImports out family.owns source)

/-- A rule makes of a target what there is to make of its source. -/
theorem recipe_eq (h : kind.source? out t = some F) :
    (family.rule out root kind).recipe t = family.content out root kind F := by
  cases kind <;> simp [rule, directRule, transitiveRule, sourceOf, h, content]

theorem name_rule : (family.rule out root kind).name = family.name ++ "-" ++ kind.name := by
  cases kind <;> simp [rule, directRule, transitiveRule, ArtifactKind.name, String.append_assoc]

end ImportFamily

/-! ### Why an artifact cannot be made -/

/-- Whether these are failures that making an artifact can end with, apart from those of its requests. -/
structure Failure.OfImports (own : Failure → Prop) : Prop where
  /-- The source cannot be read. -/
  source : ∀ p fault, own (.readSource p fault)
  /-- The artifact of another source cannot be read. -/
  artifact : ∀ t fault, own (.readArtifact t fault)
  /-- An import does not lie below the project root. -/
  outside : ∀ p root, own (.outsideRoot p root)
  /-- An import cannot be listed. -/
  unlisted : ∀ p, own (.invalidArtifactPath p)
  /-- Such a failure is passed on. -/
  needed : ∀ {cause}, own cause → own (.needed cause)

section

variable (hown : Failure.OfImports own)

theorem failsAs_findInRoots {relative : Path} :
    (findInRoots Recipe.isFile relative roots).run.FailsAs refuses own := by
  induction roots with
  | nil => trivial
  | cons root roots ih =>
    intro answer
    cases answer with
    | true => trivial
    | false => exact ih

theorem failsAs_resolveAll {references : List String} {before : List Path} :
    (resolveAll scanner roots source references before).run.FailsAs refuses own := by
  induction references generalizing before with
  | nil => trivial
  | cons reference references ih =>
    have hresolve : (resolve scanner roots reference).run.FailsAs refuses own :=
      failsAs_bind failsAs_findInRoots fun _ => trivial
    refine failsAs_bind hresolve fun found => ?_
    cases found with
    | some p => exact ih
    | none => exact ih

include hown

theorem failsAs_directImports : (directImports scanner roots source).run.FailsAs refuses own := by
  refine failsAs_bind (fun answer => ?_) fun _ => failsAs_resolveAll
  cases answer with
  | ok text => trivial
  | error fault => exact hown.source _ _

theorem failsAs_needed {α : Type} {x : Recipe α} (hx : x.run.FailsAs refuses own) :
    (x.adapt Failure.needed).run.FailsAs refuses own :=
  hx.bind (fun _ => trivial) fun _ => hown.needed

variable (hrefuses : ∀ u cause, refuses u cause → own cause)

include hrefuses

theorem failsAs_importsOf : (importsOf kind out source).run.FailsAs refuses own :=
  failsAs_bind ⟨fun _ => trivial, fun _ => hown.artifact _ _, hrefuses _⟩ fun _ => trivial

/-- An import that closes a cycle is asked for its direct imports, which is refused as any request is. -/
theorem failsAs_expansion {p : Path} : (expansion out source p).run.FailsAs refuses own := by
  have hcatch : ∀ cause, own cause →
      (if cause.isCycle then do
          Recipe.tell (.cyclic source p)
          (importsOf .direct out p).adapt .needed
        else throw (.needed cause) : Recipe (List Path)).run.FailsAs refuses own := by
    intro cause hcause
    split
    · exact failsAs_needed hown (failsAs_importsOf hown hrefuses)
    · exact hown.needed hcause
  exact (failsAs_importsOf hown hrefuses).bind (fun _ => trivial) hcatch

theorem failsAs_expandAll {paths : List Path} {found : FirstSeen} :
    (expandAll out owns source paths found).run.FailsAs refuses own := by
  induction paths generalizing found with
  | nil => trivial
  | cons p paths ih =>
    rw [expandAll]
    split
    · exact ih
    · split
      · exact failsAs_bind (failsAs_expansion hown hrefuses) fun _ => ih
      · exact ih

theorem failsAs_transitiveImports :
    (transitiveImports out owns source).run.FailsAs refuses own :=
  failsAs_bind (failsAs_needed hown (failsAs_importsOf hown hrefuses)) fun _ =>
    failsAs_expandAll hown hrefuses

end

namespace ImportFamily

variable {family : ImportFamily} {paths : List Path}

theorem failsAs_listing (hown : Failure.OfImports own) :
    (liftM (listing paths) : Recipe Content).run.FailsAs refuses own := by
  cases hrender : Listing.render paths with
  | ok text =>
    rw [listing, hrender]
    trivial
  | error cause =>
    obtain ⟨_, p, _, -, -, -, rfl⟩ := Listing.exists_of_render_error hrender
    rw [listing, hrender]
    exact hown.unlisted p

theorem failsAs_listingBelow (hown : Failure.OfImports own) :
    (liftM (listingBelow root paths) : Recipe Content).run.FailsAs refuses own := by
  rcases mapM_cases (fun p : Path => p.relativeTo root) paths with
    ⟨_, p, _, cause, -, -, hp, hpaths⟩ | ⟨relative, hpaths, -⟩
  · rw [listingBelow, hpaths]
    rw [Path.relativeTo] at hp
    split at hp <;> cases hp
    exact hown.outside _ _
  · rw [listingBelow, hpaths]
    exact failsAs_listing hown

/-- What is made of a source fails for the source, for an import, or for a request. -/
theorem failsAs_content (hown : Failure.OfImports own) (hrefuses : ∀ u cause, refuses u cause → own cause)
    (himports : ∀ source, (family.imports source).run.FailsAs refuses own) :
    (family.content out root kind F).run.FailsAs refuses own := by
  cases kind with
  | direct => exact failsAs_bind (himports _) fun _ => failsAs_listingBelow hown
  | transitive => exact failsAs_bind (failsAs_transitiveImports hown hrefuses) fun _ => failsAs_listing hown

end ImportFamily

/-! ### The rules of a project -/

namespace Failure

/-- Whether a failure does not come from a mistake in the rules: that several of them make a target, or that
    one of them makes a target that is not an artifact. -/
structure RulesApart (cause : Failure) : Prop where
  /-- No target is made by several rules. -/
  ambiguous : ∀ t rules, cause.root ≠ .ambiguousRule t rules
  /-- No target is made that is not an artifact. -/
  artifact : ∀ t, cause.root ≠ .notAnArtifact t

theorem RulesApart.of_root {cause cause' : Failure} (h : cause.RulesApart) (hroot : cause'.root = cause.root) :
    cause'.RulesApart :=
  ⟨fun t rules => hroot ▸ h.ambiguous t rules, fun t => hroot ▸ h.artifact t⟩

theorem ofImports_rulesApart : OfImports RulesApart where
  source _ _ := ⟨by simp [root], by simp [root]⟩
  artifact _ _ := ⟨by simp [root], by simp [root]⟩
  outside _ _ := ⟨by simp [root], by simp [root]⟩
  unlisted _ := ⟨by simp [root], by simp [root]⟩
  needed h := h.of_root rfl

end Failure

namespace Project

variable {project : Project} {book : Rulebook} {family : Family} {rule : Rule} {cause : Failure}

section

variable (hroot : project.root.IsPlace) (hbook : project.rules = .ok book.rules)

include hroot hbook

/-- Every target is made by the rule of its kind in the family of its source, or by none. -/
theorem find_cases (t : Path) :
    (∃ kind F family scanner, ArtifactKind.classify? project.outputRoot t = some (kind, F) ∧
      Family.of? project.settings F = some family ∧ project.scanner family = .ok scanner ∧
      book.find t =
        .ok ((project.importFamily family scanner).rule project.outputRoot project.root kind)) ∨
    ((∀ kind F family, ArtifactKind.classify? project.outputRoot t = some (kind, F) →
      Family.of? project.settings F ≠ some family) ∧ book.find t = .error (.noRule t)) := by
  obtain ⟨scanners, hscanners, hrules⟩ := exists_rules_eq hbook
  rw [Rulebook.find, rulesFor_eq hroot scanners hrules]
  rcases hfound : ArtifactKind.classify? project.outputRoot t with _ | ⟨kind, F⟩
  · exact .inr ⟨by simp, rfl⟩
  · cases hfamily : Family.of? project.settings F with
    | none =>
      refine .inr ⟨?_, by simp [hfamily]⟩
      rintro _ _ family ⟨⟩
      simp [hfamily]
    | some family =>
      exact .inl ⟨kind, F, family, scanners family, rfl, hfamily, hscanners family, by simp [hfamily]⟩

/-- The rule that is found fails for the source of the target, for an import, or for a request. -/
theorem failsAs_of_find (hown : Failure.OfImports own) (hrefuses : ∀ u cause, refuses u cause → own cause)
    (h : book.find t = .ok rule) : (rule.recipe t).run.FailsAs refuses own := by
  rcases find_cases hroot hbook t with ⟨kind, F, family, scanner, hfound, -, -, hfind⟩ | ⟨-, hfind⟩
  · obtain rfl := Except.ok.inj (hfind.symm.trans h)
    rw [ImportFamily.recipe_eq ((ArtifactKind.classify?_eq_some_iff (isPlace_outputRoot hroot.1)).1 hfound)]
    exact ImportFamily.failsAs_content hown hrefuses fun _ => failsAs_directImports hown
  · cases hfind.symm.trans h

/-- No request is refused for a mistake in the rules, and none for lack of a rule but that of its target. -/
theorem refusals : Refusals book (fun t cause => cause.RulesApart ∧
      ∀ u, cause = .noRule u → u = t ∧ book.find t = .error (.noRule t))
    Failure.RulesApart where
  before t := ⟨⟨by simp [Failure.root], by simp [Failure.root]⟩, by simp⟩
  cycle t chain := ⟨⟨by simp [Failure.root], by simp [Failure.root]⟩, by simp⟩
  unruled {t cause} hnone := by
    rcases find_cases hroot hbook t with ⟨_, _, _, _, -, -, -, hfind⟩ | ⟨-, hfind⟩
    · cases hfind.symm.trans hnone
    · obtain rfl := Except.error.inj (hfind.symm.trans hnone)
      refine ⟨⟨by simp [Failure.root], by simp [Failure.root]⟩, fun u hu => ?_⟩
      exact ⟨(Failure.noRule.inj hu).symm, hfind⟩
  failed t cause h := ⟨h.of_root rfl, by simp⟩
  unwritten t fault := ⟨⟨by simp [Failure.root], by simp [Failure.root]⟩, by simp⟩
  rules h := failsAs_of_find hroot hbook Failure.ofImports_rulesApart (fun _ _ => And.left) h

/-- The rules of a project part the targets among them, however the extensions of the families overlap:

    * for each target one rule is found, or there is none;
    * one is found exactly for the artifacts of sources that have a family;
    * it is named after the family and the kind, and makes what there is to make of that source;
    * no build reports a failure that comes from several rules for a target, or from a rule for a target that
      is not an artifact. -/
theorem rules_part :
    (∀ t, (∃ rule, book.find t = .ok rule) ∨ book.find t = .error (.noRule t)) ∧
    (∀ t, (∃ rule, book.find t = .ok rule) ↔ ∃ kind F family,
      ArtifactKind.classify? project.outputRoot t = some (kind, F) ∧
        Family.of? project.settings F = some family) ∧
    (∀ t rule kind F family, book.find t = .ok rule →
      ArtifactKind.classify? project.outputRoot t = some (kind, F) →
        Family.of? project.settings F = some family →
          rule.name = family.name ++ "-" ++ kind.name ∧ ∃ scanner, project.scanner family = .ok scanner ∧
            rule.recipe t = (project.importFamily family scanner).content project.outputRoot project.root
              kind F) ∧
    ∀ (engine : Engine) depth ts disk built, engine.book = book →
      engine.build depth ts disk = some built → ∀ e ∈ built.report.failed, e.2.RulesApart := by
  refine ⟨fun t => ?_, fun t => ?_, fun t rule kind F family hrule hfound hfamily => ?_, ?_⟩
  · rcases find_cases hroot hbook t with ⟨_, _, _, _, -, -, -, hfind⟩ | ⟨-, hfind⟩
    · exact .inl ⟨_, hfind⟩
    · exact .inr hfind
  · rcases find_cases hroot hbook t with
      ⟨kind, F, family, _, hfound, hfamily, -, hfind⟩ | ⟨hnone, hfind⟩
    · exact iff_of_true ⟨_, hfind⟩ ⟨kind, F, family, hfound, hfamily⟩
    · refine iff_of_false ?_ ?_
      · rintro ⟨rule, hrule⟩
        cases hfind.symm.trans hrule
      · rintro ⟨kind, F, family, hfound, hfamily⟩
        exact hnone kind F family hfound hfamily
  · rcases find_cases hroot hbook t with
      ⟨_, _, _, scanner, hfound', hfamily', hscanner, hfind⟩ | ⟨-, hfind⟩
    · -- A target is of one kind only and has one source, so the rule is that of these.
      obtain ⟨rfl, rfl⟩ := Prod.mk.inj (Option.some.inj (hfound.symm.trans hfound'))
      obtain rfl := Option.some.inj (hfamily.symm.trans hfamily')
      obtain rfl := Except.ok.inj (hfind.symm.trans hrule)
      have hs := (ArtifactKind.classify?_eq_some_iff (isPlace_outputRoot hroot.1)).1 hfound
      exact ⟨ImportFamily.name_rule, scanner, hscanner, ImportFamily.recipe_eq hs⟩
    · cases hfind.symm.trans hrule
  · rintro engine depth ts disk built rfl run e he
    exact ((refusals hroot hbook).build run e he).2.1

end

/-! ### Families that overlap -/

/-- A project whose artifacts are side by side with the sources. The extension of dotted references is one of
    those of quoted references too, another one comes twice, and one is empty. -/
def mingled : Project :=
  ⟨.ofText "/w",
    { outputDir := .ofText ".", moduleExtension := "c", nativeExtensions := ["h", "c", "h", ""] }⟩

/-- The rules of the project. -/
def mingledBook : Rulebook where
  rules := mingled.rules.toOption.getD []
  digest := Content.spelled

theorem rules_mingled : mingled.rules = .ok mingledBook.rules := by
  simp only [mingledBook]
  exact rules_eq_getD (by decide)

/-- The artifact of a source of both families, that of a source with the empty extension in a directory that is
    named as an artifact is, and a source that is no artifact. -/
theorem rules_part_mingled :
    mingled.root.IsPlace ∧ mingled.rules = .ok mingledBook.rules ∧
    (∃ rule, mingledBook.find (.ofText "/w/a.c.directImports") = .ok rule ∧ rule.name = "module-direct") ∧
    (∃ rule, mingledBook.find (.ofText "/w/./d.directImports//b..transitiveImports") = .ok rule ∧
      rule.name = "native-transitive") ∧
    mingledBook.find (.ofText "/w/a.c") = .error (.noRule (.ofText "/w/a.c")) := by
  have hroot : mingled.root.IsPlace := by decide
  obtain ⟨hone, hfound, hnamed, -⟩ := rules_part hroot rules_mingled
  have hrule : ∀ {t kind F family}, ArtifactKind.classify? mingled.outputRoot t = some (kind, F) →
      Family.of? mingled.settings F = some family →
        ∃ rule, mingledBook.find t = .ok rule ∧ rule.name = family.name ++ "-" ++ kind.name := by
    intro t kind F family hclass hfamily
    obtain ⟨rule, hrule⟩ := (hfound t).2 ⟨kind, F, family, hclass, hfamily⟩
    exact ⟨rule, hrule, (hnamed t rule kind F family hrule hclass hfamily).1⟩
  refine ⟨hroot, rules_mingled, ?_, ?_, (hone _).resolve_left ?_⟩
  · have hclass : ArtifactKind.classify? mingled.outputRoot (.ofText "/w/a.c.directImports") =
        some (.direct, .ofText "a.c") := by decide
    have hfamily : Family.of? mingled.settings (.ofText "a.c") = some .dotted := by decide
    exact hrule hclass hfamily
  · have hclass : ArtifactKind.classify? mingled.outputRoot
        (.ofText "/w/./d.directImports//b..transitiveImports") =
          some (.transitive, .ofText "d.directImports//b.") := by decide
    have hfamily : Family.of? mingled.settings (.ofText "d.directImports//b.") = some .quoted := by decide
    exact hrule hclass hfamily
  · rw [hfound]
    rintro ⟨kind, F, -, hclass, -⟩
    have hnone : ArtifactKind.classify? mingled.outputRoot (.ofText "/w/a.c") = none := by decide
    cases hnone.symm.trans hclass

end Project

end ImportIndex
