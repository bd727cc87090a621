import ImportIndex.Proofs.Build.Upkeep
import ImportIndex.Proofs.Import.Bounds

/-!
# Sessions that keep artifacts as they should be

Artifacts have places of their own on every disk (`Project.separates`). What the answers to the rules
of artifacts come to, whatever the session: the rule of direct imports asks for no target and lists what
is imported on the disk (`answers_direct`).
-/

namespace ImportIndex.Project

open Session

variable {project : Project} {book : Rulebook} {disk : Disk} {s s' : Session} {ends : Ending}
  {F G : Path}

/-- Artifacts have places of their own on every disk. -/
theorem separates (hroot : project.root.IsPlace) : disk.Separates project.IsArtifact where
  same ht hu hs := (ht.isPlace hroot).eq_of_same (hu.isPlace hroot) hs
  apart _ ht hu hne hread := read_writeIfChanged hroot ht (hu.isPlace hroot) hne hread

/-- The rule of direct imports does nothing else in a session than to list what is imported. -/
theorem answers_direct (hroot : project.root.IsPlace) (hbook : project.rules = .ok book.rules)
    (hF : F.IsBelow) {rule : Rule}
    (hfind : book.find (ArtifactKind.direct.artifact project.outputRoot F) = .ok rule)
    {a : Except Failure Content × List Dependency}
    (h : Answers book ends s (rule.recipe (ArtifactKind.direct.artifact project.outputRoot F)).run []
      a s') :
    Aside s s' ∧ (∀ c, a.1 = .ok c →
      ∃ ps, project.imports? s.disk F = some ps ∧ ImportFamily.listing ps = .ok c) ∧
      ∀ u digest, .artifact u digest ∉ a.2 := by
  let w : World := {
    content := fun p => (s.disk.read p).toOption
    makes := fun _ _ => False
    refuses := fun _ _ => False }
  have hw : project.Fits s.disk (fun _ _ => True) w :=
    fits_of_makes hroot (fun _ => rfl) fun _ _ h => h.elim
  obtain ⟨ha, hpost, hdeps⟩ := h.meets_files (hw.direct_meets hroot hbook hF hfind)
    (by simp) fun _ => rfl
  refine ⟨ha, fun c hc => ?_, fun u digest hu => by simpa using hdeps u digest hu⟩
  rw [hc] at hpost
  obtain ⟨ps, hps, hlisting⟩ := Option.bind_eq_some_iff.1 hpost.symm
  exact ⟨ps, hps, Disk.toOption_eq_some_iff.1 hlisting⟩

end ImportIndex.Project
