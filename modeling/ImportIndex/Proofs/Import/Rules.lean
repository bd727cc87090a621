import ImportIndex.Proofs.Artifact.Spelling
import ImportIndex.Proofs.Import.Transitive

/-!
# Which rule makes an artifact

The rules of a project part the artifacts among them: a target is made by the rule of its kind in the
family of its source, and by none if its source has no family (`rulesFor_eq`). There is a rule for the
artifact of a source that has a family and whose path is a text (`exists_find_of_text`).
-/

namespace ImportIndex

/-- The rule of a family for artifacts of a kind. -/
def ImportFamily.rule (family : ImportFamily) (out root : Path) : ArtifactKind → Rule
  | .direct => family.directRule out root
  | .transitive => family.transitiveRule out

theorem ImportFamily.makes_rule {family : ImportFamily} {out root t : Path} {kind : ArtifactKind} :
    (family.rule out root kind).makes t = (kind.source? out t).any family.owns := by
  cases kind <;> rfl

theorem Family.ne_nil_of_some {settings : Settings} {family : Family} {F : Path}
    (h : Family.of? settings F = some family) : F.bytes ≠ [] := by
  intro hnil
  have hempty : F = ⟨[]⟩ := congrArg Path.mk hnil
  have hnone : Path.extension? ⟨[]⟩ = none := by decide
  simp [Family.of?, hempty, hnone] at h

theorem eq_ok_getD {ε α : Type} {x : Except ε α} {a : α} (h : x.toOption.isSome = true) :
    x = .ok (x.toOption.getD a) := by
  cases x with
  | ok b => rfl
  | error e => cases h

namespace Project

variable {project : Project} {book : Rulebook} {disk : Disk} {kind : ArtifactKind} {t F : Path}
  {family : Family} {rule : Rule}

/-- A family has rules if its references can be looked for. -/
theorem exists_of_familyRules {family : Family} {rules : List Rule}
    (h : project.familyRules family = .ok rules) : ∃ scanner, project.scanner family = .ok scanner ∧
      rules = ArtifactKind.all.map ((project.importFamily family scanner).rule project.outputRoot
        project.root) := by
  rw [familyRules] at h
  cases hscanner : project.scanner family with
  | error cause =>
    rw [hscanner] at h
    cases h
  | ok scanner =>
    rw [hscanner] at h
    exact ⟨scanner, rfl, (Except.ok.inj h).symm⟩

/-- The rules of a project are those of both families, for both kinds. -/
theorem exists_rules_eq (hbook : project.rules = .ok book.rules) :
    ∃ scanners : Family → Scanner, (∀ family, project.scanner family = .ok (scanners family)) ∧
      book.rules = [Family.dotted, Family.quoted].flatMap fun family =>
        ArtifactKind.all.map ((project.importFamily family (scanners family)).rule
          project.outputRoot project.root) := by
  rw [rules] at hbook
  cases hdotted : project.familyRules .dotted with
  | error cause =>
    rw [hdotted] at hbook
    cases hbook
  | ok ofDotted =>
    cases hquoted : project.familyRules .quoted with
    | error cause =>
      rw [hdotted, hquoted] at hbook
      cases hbook
    | ok ofQuoted =>
      obtain ⟨dotted, hscanner, rfl⟩ := exists_of_familyRules hdotted
      obtain ⟨quoted, hscanner', rfl⟩ := exists_of_familyRules hquoted
      refine ⟨fun family => if family = .dotted then dotted else quoted, fun family => ?_, ?_⟩
      · cases family with
        | dotted => exact hscanner
        | quoted => exact hscanner'
      · rw [hdotted, hquoted] at hbook
        rw [← Except.ok.inj hbook]
        rfl

/-- The rules of a project are what is found when they are looked for, if there are any. -/
theorem rules_eq_getD (h : project.rules.toOption.isSome = true) :
    project.rules = .ok (project.rules.toOption.getD []) :=
  eq_ok_getD h

/-- A target is made by the rule of its kind in the family of its source, and by no other. -/
theorem rulesFor_eq (hroot : project.root.IsPlace) (scanners : Family → Scanner)
    (hrules : book.rules = [Family.dotted, Family.quoted].flatMap fun family =>
      ArtifactKind.all.map ((project.importFamily family (scanners family)).rule
        project.outputRoot project.root)) :
    book.rulesFor t = ((ArtifactKind.classify? project.outputRoot t).bind fun found =>
      (Family.of? project.settings found.2).map fun family =>
        (project.importFamily family (scanners family)).rule project.outputRoot project.root
          found.1).toList := by
  have hout : project.outputRoot.IsPlace := isPlace_outputRoot hroot.1
  have hmakes : ∀ (family : Family) (kind : ArtifactKind),
      ((project.importFamily family (scanners family)).rule project.outputRoot project.root
        kind).makes t = ((ArtifactKind.classify? project.outputRoot t).any fun found =>
          decide (found.1 = kind) && Family.of? project.settings found.2 == some family) := by
    intro family kind
    rw [ImportFamily.makes_rule]
    cases hfound : ArtifactKind.classify? project.outputRoot t with
    | none =>
      cases hs : kind.source? project.outputRoot t with
      | none => rfl
      | some F => simp [(ArtifactKind.classify?_eq_some_iff hout).2 hs] at hfound
    | some found =>
      have hs := (ArtifactKind.classify?_eq_some_iff hout).1 hfound
      by_cases hkind : found.1 = kind
      · simp [← hkind, hs, importFamily]
      · cases hs' : kind.source? project.outputRoot t with
        | none => simp [hkind]
        | some F => exact absurd (ArtifactKind.eq_of_source? hout hs hs') hkind
  rw [Rulebook.rulesFor, hrules]
  simp only [List.flatMap_cons, List.flatMap_nil, List.append_nil, ArtifactKind.all, List.map_cons,
    List.map_nil, List.cons_append, List.nil_append, List.filter_cons, hmakes, List.filter_nil]
  rcases ArtifactKind.classify? project.outputRoot t with _ | ⟨kind, F⟩
  · rfl
  · cases hfamily : Family.of? project.settings F with
    | none => simp [hfamily]
    | some family => cases kind <;> cases family <;> simp [hfamily]

/-- There is a rule for each artifact of a source that has a family. -/
theorem find_of_source? (hroot : project.root.IsPlace) (hbook : project.rules = .ok book.rules)
    (hs : kind.source? project.outputRoot t = some F)
    (hfamily : Family.of? project.settings F = some family) :
    ∃ scanner, project.scanner family = .ok scanner ∧ book.find t =
      .ok ((project.importFamily family scanner).rule project.outputRoot project.root kind) := by
  obtain ⟨scanners, hscanners, hrules⟩ := exists_rules_eq hbook
  have hfound := (ArtifactKind.classify?_eq_some_iff (isPlace_outputRoot hroot.1)).2 hs
  refine ⟨scanners family, hscanners family, ?_⟩
  rw [Rulebook.find, rulesFor_eq hroot scanners hrules, hfound]
  simp [hfamily]

section

variable (hroot : project.root.IsPlace) (hbook : project.rules = .ok book.rules) (hF : F.IsBelow)

include hroot hbook hF

/-- An artifact is made by the rule of its kind in the family of its source. -/
theorem find_artifact (h : book.find (kind.artifact project.outputRoot F) = .ok rule) :
    ∃ family scanner, Family.of? project.settings F = some family ∧
      project.scanner family = .ok scanner ∧
      kind.source? project.outputRoot (kind.artifact project.outputRoot F) = some F ∧
      rule = (project.importFamily family scanner).rule project.outputRoot project.root kind := by
  obtain ⟨scanners, hscanners, hrules⟩ := exists_rules_eq hbook
  have hout : project.outputRoot.IsPlace := isPlace_outputRoot hroot.1
  rw [Rulebook.find, rulesFor_eq hroot scanners hrules] at h
  cases hfound : ArtifactKind.classify? project.outputRoot (kind.artifact project.outputRoot F) with
  | none => simp [hfound] at h
  | some found =>
    have hs := (ArtifactKind.classify?_eq_some_iff hout).1 hfound
    obtain ⟨hkind, hsource⟩ := ArtifactKind.source?_artifact hout hF hs
    rw [hkind, hsource] at hs
    cases hfamily : Family.of? project.settings F with
    | none => simp [hfound, hsource, hfamily] at h
    | some family =>
      simp only [hfound, hkind, hsource, hfamily, Option.bind_some, Option.map_some, Option.toList_some,
        Except.ok.injEq] at h
      exact ⟨family, scanners family, rfl, hscanners family, hs, h.symm⟩

/-- There is a rule for an artifact whose source has a family and a path that is a text. -/
theorem exists_find_of_text (hfamily : Family.of? project.settings F = some family) {text : String}
    (htext : F.toText? = some text) (kind : ArtifactKind) :
    ∃ rule, book.find (kind.artifact project.outputRoot F) = .ok rule := by
  have hs := @ArtifactKind.source?_artifact_eq kind _ _ (isPlace_outputRoot hroot.1) hF
    (Family.ne_nil_of_some hfamily) _ htext
  obtain ⟨scanner, -, hfind⟩ := find_of_source? hroot hbook hs hfamily
  exact ⟨_, hfind⟩

/-- If there is a rule for one artifact of a source, there is one for the other. -/
theorem exists_find_artifact (h : book.find (kind.artifact project.outputRoot F) = .ok rule)
    (other : ArtifactKind) : ∃ rule, book.find (other.artifact project.outputRoot F) = .ok rule := by
  obtain ⟨family, -, hfamily, -, hsource, -⟩ := find_artifact hroot hbook hF h
  obtain ⟨-, text, htext⟩ :=
    ArtifactKind.exists_text_of_source? (isPlace_outputRoot hroot.1) hF hsource
  exact exists_find_of_text hroot hbook hF hfamily htext other

end

end Project

end ImportIndex
