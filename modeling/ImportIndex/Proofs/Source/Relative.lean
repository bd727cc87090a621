import ImportIndex.Proofs.Artifact.Naming
import ImportIndex.Proofs.Path.Joined
import ImportIndex.Source.Discovery

/-!
# The sources that users name

A path that a user gives denotes a location in the project: where it leads from the root of the project
(`Project.location`). Below the root that is a source, and `Project.relativeSource` tells its path from there,
the same one for all paths that denote the location (`Project.relativeSource_exact`).

This does not hold of relative paths that climb: they are refused, even if they come back below the root, as
`../project/a.c` does (`Project.exists_refused_beside_accepted`).
-/

namespace ImportIndex.Project

open Path

variable {project : Project} {p p' q : Path} {r : List Bytes}

/-- The location that a path denotes in the project. -/
def location (project : Project) (p : Path) : Location := p.resolve (project.root.resolve [])

theorem same_join_ofNames {l m : List Bytes} (hl : ∀ n ∈ l, IsName n) (hm : ∀ n ∈ m, IsName n) :
    ((ofLocation l).join (ofNames m)).Same (ofLocation (l ++ m)) := by
  have hlm : ∀ n ∈ l ++ m, IsName n := fun n hn => (List.mem_append.1 hn).elim (hl n) (hm n)
  have hpieces : (splitAt separator (ofNames m).bytes).filterMap pieceComponent? = m.map .name := by
    rw [ofNames, splitAt_joinWith_eq hm]
    split
    · next h => subst h; rfl
    · exact filterMap_pieceComponent? hm
  rw [Same, components_join hl (not_isAbsolute_ofNames hm), hpieces, components_ofLocation hlm]
  simp

theorem location_eq (hr : ∀ n ∈ r, IsName n) (hroot : project.root = ofLocation r) :
    project.location p = p.resolve r := by
  rw [location, hroot, resolve_ofLocation hr]

/-- A path denotes the same location when it is written from the root directory. -/
theorem location_join (hroot : project.root.IsPlace) :
    project.location (project.root.join p) = project.location p := by
  obtain ⟨r, hr, hroot⟩ := hroot.exists_eq
  rw [location_eq hr hroot, location_eq hr hroot, hroot, resolve_join, resolve_ofLocation hr]

/-- What becomes of a path that does not climb depends on the location alone. -/
theorem relativeSource_eq (hr : ∀ n ∈ r, IsName n) (hroot : project.root = ofLocation r)
    (hclimbs : ¬ p.Climbs) : project.relativeSource p =
      if r <+: project.location p then .ok (ofNames ((project.location p).drop r.length))
      else .error (.outsideRoot p project.root) := by
  rw [location_eq hr hroot, relativeSource]
  cases habs : p.isAbsolute with
  | true =>
    have hl : ∀ n ∈ p.resolve r, IsName n := isName_of_mem_resolve hr
    rw [if_pos rfl, relativeTo, normalize_of_isAbsolute habs r, hroot]
    by_cases hstart : r <+: p.resolve r
    · obtain ⟨m, hm⟩ := hstart
      rw [← hm] at hl ⊢
      rw [stripStart?_ofLocation hr fun n hn => hl n (List.mem_append_right _ hn)]
      simp
    · rw [stripStart?, if_neg fun h => hstart ((startsWith_ofLocation_iff hl hr).1 h), if_neg hstart]
  | false =>
    obtain ⟨m, -, hnormal, hresolve⟩ := exists_normalize_of_not_climbs habs hclimbs
    have hup : ¬ p.normalize.StartsWith (.ofText "..") := mt (startsWith_up_iff habs).1 hclimbs
    rw [hresolve, if_neg Bool.false_ne_true, if_neg hup, hnormal, if_pos (List.prefix_append r m)]
    simp

/-- A path that climbs is refused. -/
theorem relativeSource_of_climbs (hclimbs : p.Climbs) :
    project.relativeSource p = .error (.outsideRoot p project.root) := by
  rw [relativeSource, hclimbs.1, if_neg Bool.false_ne_true, if_pos ((startsWith_up_iff hclimbs.1).2 hclimbs)]

/-- Paths that do not climb and denote the same location become the same. -/
theorem relativeSource_congr (hroot : project.root.IsPlace) (hp : ¬ p.Climbs) (hp' : ¬ p'.Climbs)
    (h : project.location p' = project.location p) :
    project.relativeSource p = .ok q ↔ project.relativeSource p' = .ok q := by
  obtain ⟨r, hr, hroot⟩ := hroot.exists_eq
  rw [relativeSource_eq hr hroot hp, relativeSource_eq hr hroot hp', h]
  split <;> simp

/-- What a path that is accepted becomes: the names from the root to the location. -/
theorem exists_of_relativeSource (hr : ∀ n ∈ r, IsName n) (hroot : project.root = ofLocation r)
    (hclimbs : ¬ p.Climbs) (h : project.relativeSource p = .ok q) :
    ∃ m, (∀ n ∈ m, IsName n) ∧ project.location p = r ++ m ∧ q = ofNames m := by
  rw [relativeSource_eq hr hroot hclimbs] at h
  split at h
  · next hstart =>
    obtain ⟨m, hm⟩ := hstart
    refine ⟨m, fun n hn => ?_, hm.symm, ?_⟩
    · have hn : n ∈ p.resolve r := location_eq hr hroot ▸ hm ▸ List.mem_append_right r hn
      exact isName_of_mem_resolve hr n hn
    · rw [← Except.ok.inj h, ← hm, List.drop_left]
  · cases h

/-- A path that a user gives becomes, if it is accepted, the path from the root of the project, made of names,
    to the location that it denotes, and so does the path that is written from the root directory. A path that
    does not climb is accepted exactly if that location is below the root, and all that denote the location
    become the same. A path that climbs is refused. -/
theorem relativeSource_exact (hroot : project.root.IsPlace) (p : Path) :
    (∀ q, project.relativeSource p = .ok q → q.IsBelow ∧
      (project.root.join q).Same (ofLocation (project.location p)) ∧
      project.relativeSource (project.root.join p) = .ok q) ∧
    (¬ p.Climbs →
      ((∃ q, project.relativeSource p = .ok q) ↔
        (ofLocation (project.location p)).StartsWith project.root) ∧
      (∀ q, project.relativeSource p = .ok q ↔
        project.relativeSource (project.root.join p) = .ok q) ∧
      ∀ p', ¬ p'.Climbs → project.location p' = project.location p →
        ∀ q, project.relativeSource p = .ok q ↔ project.relativeSource p' = .ok q) ∧
    (p.Climbs → project.relativeSource p = .error (.outsideRoot p project.root)) ∧
    ∀ failure, project.relativeSource p = .error failure → failure = .outsideRoot p project.root := by
  obtain ⟨r, hr, heq⟩ := hroot.exists_eq
  have hlocation : ∀ n ∈ project.location p, IsName n :=
    location_eq hr heq ▸ isName_of_mem_resolve hr
  have hjoined : ¬ (project.root.join p).Climbs := not_climbs_of_isAbsolute (isAbsolute_join hroot.1 p)
  by_cases hclimbs : p.Climbs
  · have hrefused : project.relativeSource p = .error (.outsideRoot p project.root) :=
      relativeSource_of_climbs hclimbs
    refine ⟨fun q h => ?_, absurd hclimbs, fun _ => hrefused, fun failure h => ?_⟩
    · rw [hrefused] at h
      cases h
    · exact Except.error.inj (h.symm.trans hrefused)
  · have hspelled := fun q => relativeSource_congr (q := q) hroot hclimbs hjoined (location_join hroot)
    refine ⟨fun q h => ?_, fun _ => ⟨?_, hspelled, fun p' hp' h q => ?_⟩, (absurd · hclimbs),
      fun failure h => ?_⟩
    · obtain ⟨m, hm, hl, rfl⟩ := exists_of_relativeSource hr heq hclimbs h
      refine ⟨isBelow_ofNames hm, ?_, (hspelled _).1 h⟩
      rw [hl, heq]
      exact same_join_ofNames hr hm
    · rw [heq, startsWith_ofLocation_iff hlocation hr, relativeSource_eq hr heq hclimbs]
      split <;> simp [*]
    · exact relativeSource_congr hroot hclimbs hp' h
    · rw [relativeSource_eq hr heq hclimbs] at h
      split at h
      · cases h
      · exact (Except.error.inj h).symm

/-- A project in `/w/proj`. -/
def lodge : Project where
  root := .ofText "/w/proj"
  settings := {}

/-- Two spellings of a source, one of which climbs inside of the project only. -/
theorem relativeSource_exact_lodge : lodge.root.IsPlace ∧
    ¬ (ofText "./src//../a.c").Climbs ∧ ¬ (ofText "/w/x/../../../w/proj/a.c").Climbs ∧
    lodge.location (ofText "/w/x/../../../w/proj/a.c") = lodge.location (ofText "./src//../a.c") ∧
    lodge.relativeSource (ofText "./src//../a.c") = .ok (ofText "a.c") ∧
    lodge.relativeSource (ofText "/w/x/../../../w/proj/a.c") = .ok (ofText "a.c") := by
  have hroot : lodge.root.IsPlace := by decide
  have hp : ¬ (ofText "./src//../a.c").Climbs := by decide
  have hp' : ¬ (ofText "/w/x/../../../w/proj/a.c").Climbs := by decide
  have hl : lodge.location (ofText "/w/x/../../../w/proj/a.c") =
      lodge.location (ofText "./src//../a.c") := by decide
  have hq : lodge.relativeSource (ofText "./src//../a.c") = .ok (ofText "a.c") := by
    decide
  have hexact := (relativeSource_exact hroot (ofText "./src//../a.c")).2.1 hp
  exact ⟨hroot, hp, hp', hl, hq, (hexact.2.2 _ hp' hl _).1 hq⟩

/-- A path that climbs and comes back is refused, while the same path written from the root directory is
    accepted: the two forms of a path do not agree. -/
theorem exists_refused_beside_accepted : ¬ ∀ (project : Project) (p : Path), project.root.IsPlace →
    p.isAbsolute = false → ∀ q, project.relativeSource p = .ok q ↔
      project.relativeSource (project.root.join p) = .ok q := by
  intro h
  have hrefused : lodge.relativeSource (ofText "../proj/a.c") =
      .error (.outsideRoot (ofText "../proj/a.c") lodge.root) := by decide
  have haccepted : lodge.relativeSource (lodge.root.join (ofText "../proj/a.c")) = .ok (ofText "a.c") := by
    decide
  have hagree := (h lodge (ofText "../proj/a.c") (by decide) (by decide +kernel) _).2 haccepted
  rw [hrefused] at hagree
  cases hagree

end ImportIndex.Project
