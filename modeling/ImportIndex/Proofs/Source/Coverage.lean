import ImportIndex.Proofs.Import.Ruled
import ImportIndex.Proofs.Source.Discovery

/-!
# What is discovered can be built

What is discovered is told by the extension of its name, and what can be built by the whole path. These agree
where the path is a text: both artifacts of such a source have a rule, and no other (`Project.sources_ruled`).
A build of all that was discovered fails for lack of a rule at most for a source whose path is no text.

There is none for an artifact of a source that has a family and is named, or is in a directory that is named,
by what is no text (`Project.exists_source_unruled`).
-/

namespace ImportIndex

theorem Rulebook.find_eq_ok_iff {book : Rulebook} {t : Path} {rule : Rule} :
    book.find t = .ok rule ↔ book.rulesFor t = [rule] := by
  rw [find]
  rcases book.rulesFor t with _ | ⟨rule', _ | ⟨rule'', rules⟩⟩ <;> simp

namespace Project

variable {project : Project} {book : Rulebook} {disk : Disk} {t F : Path} {kind : ArtifactKind}

theorem mem_targets {sources : List Path} : t ∈ project.targets sources ↔
    ∃ (kind : ArtifactKind) (F : Path), F ∈ sources ∧ t = kind.artifact project.outputRoot F := by
  simp only [targets, ArtifactKind.artifacts, ArtifactKind.all, List.mem_flatMap, List.mem_map]
  constructor
  · rintro ⟨F, hF, kind, -, rfl⟩
    exact ⟨kind, F, hF, rfl⟩
  · rintro ⟨kind, F, hF, rfl⟩
    exact ⟨F, hF, kind, by cases kind <;> simp, rfl⟩

section

variable (hroot : project.root.IsPlace) (hbook : project.rules = .ok book.rules)

include hroot hbook

/-- There is a rule for an artifact of a source only if the path of the source is a text. -/
theorem find_artifact_of_no_text (hF : F.IsBelow) (hnone : F.toText? = none) :
    book.find (kind.artifact project.outputRoot F) =
      .error (.noRule (kind.artifact project.outputRoot F)) := by
  rcases find_cases hroot hbook (kind.artifact project.outputRoot F) with
    ⟨_, _, _, _, -, -, -, hfind⟩ | ⟨-, hfind⟩
  · obtain ⟨_, _, -, -, hs, -⟩ := find_artifact hroot hbook hF hfind
    obtain ⟨-, text, htext⟩ :=
      ArtifactKind.exists_text_of_source? (isPlace_outputRoot hroot.1) hF hs
    simp [hnone] at htext
  · exact hfind

variable (hproper : disk.top.Proper)

include hproper

/-- Both artifacts of a source that was discovered are made by one rule each, if the path is a text. -/
theorem rulesFor_of_mem_sources (hF : F ∈ project.sources disk) (htext : F.toText?.isSome = true) :
    ∃ family rule, Family.of? project.settings F = some family ∧
      rule.name = family.name ++ "-" ++ kind.name ∧
      book.rulesFor (kind.artifact project.outputRoot F) = [rule] := by
  have hbelow := isBelow_of_mem_sources hproper hF
  obtain ⟨family, hfamily⟩ := Option.isSome_iff_exists.1 (mem_sources.1 hF).2
  obtain ⟨text, htext⟩ := Option.isSome_iff_exists.1 htext
  obtain ⟨rule, hfind⟩ := exists_find_of_text hroot hbook hbelow hfamily htext kind
  obtain ⟨family', scanner, hfamily', -, -, rfl⟩ := find_artifact hroot hbook hbelow hfind
  obtain rfl := Option.some.inj (hfamily.symm.trans hfamily')
  exact ⟨family, _, hfamily, ImportFamily.name_rule, Rulebook.find_eq_ok_iff.1 hfind⟩

/-- The sources that are discovered can be built as far as their paths are texts:

    * each of both artifacts is made by one rule, that of its kind in the family of the source, and no other;
    * there is no rule if the path is no text;
    * a build of all of them reports no target for several rules, and none for lack of a rule but artifacts of
      sources whose paths are no texts;
    * if it goes on from traces that builds leave, no other failure comes from the lack of a rule either. -/
theorem sources_ruled :
    (∀ F ∈ project.sources disk, ∀ kind : ArtifactKind,
      (F.toText?.isSome = true → ∃ family rule, Family.of? project.settings F = some family ∧
        rule.name = family.name ++ "-" ++ kind.name ∧
        book.rulesFor (kind.artifact project.outputRoot F) = [rule] ∧
        book.find (kind.artifact project.outputRoot F) = .ok rule) ∧
      (F.toText? = none → book.find (kind.artifact project.outputRoot F) =
        .error (.noRule (kind.artifact project.outputRoot F)))) ∧
    ∀ (engine : Engine) depth disk' built, engine.book = book →
      engine.build depth (project.targets (project.sources disk)) disk' = some built →
      ∀ e ∈ built.report.failed, e.2.RulesApart ∧
        (∀ t, e.2 = .noRule t → t = e.1 ∧ ∃ (kind : ArtifactKind) (F : Path),
          F ∈ project.sources disk ∧ F.toText? = none ∧ t = kind.artifact project.outputRoot F) ∧
        (Function.Injective engine.book.digest → project.Recorded engine.book engine.traces →
          ∀ t, e.2.root = .noRule t → e.2 = .noRule t) := by
  refine ⟨fun F hF kind => ⟨fun htext => ?_, fun hnone => ?_⟩, ?_⟩
  · obtain ⟨family, rule, hfamily, hname, hrules⟩ :=
      rulesFor_of_mem_sources hroot hbook hproper hF htext
    exact ⟨family, rule, hfamily, hname, hrules, Rulebook.find_eq_ok_iff.2 hrules⟩
  · exact find_artifact_of_no_text hroot hbook (isBelow_of_mem_sources hproper hF) hnone
  rintro engine depth disk' built rfl run e he
  obtain ⟨hmem, hapart, hunruled⟩ := (refusals hroot hbook).build run e he
  refine ⟨hapart, fun t ht => ?_, fun hinj hrecorded t ht => ?_⟩
  · -- The target itself has no rule, which it would have if the path of its source were a text.
    obtain ⟨rfl, hnone⟩ := hunruled t ht
    obtain ⟨kind, F, hF, heq⟩ := mem_targets.1 hmem
    refine ⟨rfl, kind, F, hF, ?_, heq⟩
    by_contra htext
    obtain ⟨_, rule, -, -, hrules⟩ := rulesFor_of_mem_sources hroot hbook hproper hF
      (Option.isSome_iff_ne_none.2 htext)
    cases hnone.symm.trans (heq ▸ Rulebook.find_eq_ok_iff.2 hrules)
  · -- All that rules ask for has a rule, so that the root cause is the failure of the target.
    have hts : ∀ t ∈ project.targets (project.sources disk), ∀ rule, engine.book.find t = .ok rule →
        project.IsArtifact t := by
      intro t ht _ _
      obtain ⟨kind, F, hF, rfl⟩ := mem_targets.1 ht
      exact ⟨kind, F, isBelow_of_mem_sources hproper hF, rfl⟩
    rcases hrecorded.ruled hroot hbook hinj hts run e he with hruled | hnone
    · exact absurd ht (hruled t)
    · rcases find_cases hroot hbook e.1 with ⟨_, _, _, _, -, -, -, hfind⟩ | ⟨-, hfind⟩
      · cases hfind.symm.trans hnone
      · rw [← Except.error.inj (hfind.symm.trans hnone)] at ht ⊢
        exact ht

end

/-! ### Names that are no texts -/

/-- The files of a project: one in a directory that is named as an artifact is, one whose name is no text, and
    one in a hidden directory. -/
def medley : Disk where
  top := .dir (.ofText "w")
    (.dir (.ofText "d.directImports") (.file (.ofText "b.") (.ofText "") .empty)
      (.file [0xFF, 0x2E, 0x68] (.ofText "")
        (.dir (.ofText ".d") (.file (.ofText "c.c") (.ofText "") .empty) .empty))) .empty

/-- Where artifacts are side by side with the sources, and one source has a family for its empty extension, the
    other one for its name, which is no text. -/
theorem sources_ruled_medley :
    let plain := Path.ofText "d.directImports/b."
    let strange := Path.ofNames [[0xFF, 0x2E, 0x68]]
    let artifact := fun F => ArtifactKind.transitive.artifact mingled.outputRoot F
    mingled.root.IsPlace ∧ mingled.rules = .ok mingledBook.rules ∧ medley.top.Proper ∧
    (∀ F, F ∈ mingled.sources medley ↔ F ∈ [plain, strange]) ∧
    (∃ rule, mingledBook.rulesFor (artifact plain) = [rule] ∧ rule.name = "native-transitive") ∧
    mingledBook.find (artifact strange) = .error (.noRule (artifact strange)) := by
  intro plain strange artifact
  have hroot : mingled.root.IsPlace := by decide
  have hproper : medley.top.Proper := by decide
  have hfound : (medley.filesBelow mingled.isSearched mingled.root).filter (fun F =>
      (Family.of? mingled.settings F).isSome) = [plain, strange] := by
    decide +kernel
  have hsources : ∀ F, F ∈ mingled.sources medley ↔ F ∈ [plain, strange] := by
    intro F
    rw [← hfound, mem_sources, List.mem_filter]
  obtain ⟨hruled, -⟩ := sources_ruled hroot rules_mingled hproper
  have hplain := (hruled plain ((hsources plain).2 (by simp)) .transitive).1 (by decide)
  obtain ⟨family, rule, hfamily, hname, hrules, -⟩ := hplain
  have hquoted : Family.of? mingled.settings plain = some .quoted := by decide
  obtain rfl := Option.some.inj (hfamily.symm.trans hquoted)
  refine ⟨hroot, rules_mingled, hproper, hsources, ⟨rule, hrules, hname⟩, ?_⟩
  exact (hruled strange ((hsources strange).2 (by simp)) .transitive).2 (by decide)

/-- A source whose name is no text. -/
def blot : Disk where
  top := .dir (.ofText "w") (.file [0xFF, 0x2E, 0x63] (.ofText "") .empty) .empty

/-- What was discovered has no rule if it is named by what is no text, and a build of it fails for that. -/
theorem exists_source_unruled : ∃ F built, blot.top.Proper ∧ usual.sources blot = [F] ∧
    (∀ kind : ArtifactKind, usualBook.find (kind.artifact usual.outputRoot F) =
      .error (.noRule (kind.artifact usual.outputRoot F))) ∧
    (Engine.inMemory usualBook).build 1 (usual.targets (usual.sources blot)) blot = some built ∧
    built.report.failed = (usual.targets [F]).map fun t => (t, .noRule t) := by
  have hsources : usual.sources blot = [.ofNames [[0xFF, 0x2E, 0x63]]] := by decide +kernel
  have hproper : blot.top.Proper := by decide
  have hbelow := isBelow_of_mem_sources hproper (hsources ▸ List.mem_singleton_self _)
  have hrun : ((Engine.inMemory usualBook).build 1 (usual.targets (usual.sources blot)) blot).any
      (fun built => decide (built.report.failed =
        (usual.targets [.ofNames [[0xFF, 0x2E, 0x63]]]).map fun t => (t, .noRule t))) = true := by
    decide +kernel
  obtain ⟨built, run, h⟩ := (Option.any_eq_true _ _).1 hrun
  exact ⟨_, built, hproper, hsources,
    fun kind => find_artifact_of_no_text (by decide) rules_usual hbelow (by decide), run,
    of_decide_eq_true h⟩

end Project

end ImportIndex
