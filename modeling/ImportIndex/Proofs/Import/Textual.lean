import ImportIndex.Proofs.Build.Textual
import ImportIndex.Proofs.Import.Bounds
import ImportIndex.Proofs.Import.Confined
import ImportIndex.Proofs.Import.Partition
import ImportIndex.Proofs.Path.Textual

/-!
# Traces of artifacts are texts

Files may have any bytes as their names, but no rule makes an artifact of a source whose path is no text
(`ArtifactKind.isText_of_source?`), and rules learn of other paths only from texts: the references in a source
and the lines of an artifact. So as long as the root and the directories of a project are texts, its rules
work with texts only (`Project.textual_rules`), and builds leave traces that can be stored
(`Project.build_storable`). Settings that are read from a file name such directories
(`Project.textual_load`).
-/

namespace ImportIndex

/-! ### Sources and artifacts -/

namespace ArtifactKind

variable {kind : ArtifactKind} {out t F : Path}

theorem isText_artifact (hout : out.IsText) (hF : F.IsText) : (kind.artifact out F).IsText :=
  Path.isText_iff.2 ((Path.isText_iff.1 (hout.join hF)).append ⟨kind.suffix, rfl⟩)

/-- The source that an artifact tells is a text. -/
theorem isText_of_source? (hout : out.IsPlace) (h : kind.source? out t = some F) : F.IsText := by
  obtain ⟨rel, hrel, hbytes, -⟩ := exists_of_source? hout h
  rw [source?, hrel, Option.bind_eq_bind, Option.bind_some] at h
  obtain ⟨text, htext, -⟩ := Option.bind_eq_some_iff.1 h
  have hdot : kind.ending = 0x2E :: kind.ending.tail := by cases kind <;> decide
  rw [Path.toText?, Bytes.toText?_eq_some_iff, hbytes, hdot] at htext
  exact Path.isText_iff.2 (Bytes.exists_text_of_append (by decide) htext)

/-- So is the artifact, in whatever spelling. -/
theorem isText_target_of_source? (hout : out.IsPlace) (htext : out.IsText)
    (h : kind.source? out t = some F) : t.IsText :=
  (Path.isText_congr (same_artifact_of_source? hout h)).2 (isText_artifact htext (isText_of_source? hout h))

end ArtifactKind

/-! ### Paths that rules learn of -/

theorem Scanner.isText_candidate {scanner : Scanner} (r : String) : (scanner.candidate r).IsText := by
  cases scanner <;> exact Path.isText_ofText _

theorem Listing.isText_of_mem_parse {text : String} {p : Path} (h : p ∈ Listing.parse text) : p.IsText := by
  obtain ⟨line, -, rfl⟩ := List.mem_map.1 h
  exact Path.isText_ofText line

/-! ### Settings -/

/-- Whether the directories that settings name are texts. -/
structure Settings.Textual (settings : Settings) : Prop where
  /-- The directory of the artifacts is a text. -/
  output : settings.outputDir.IsText
  /-- The search roots of dotted references are texts. -/
  modules : ∀ p ∈ settings.moduleRoots, p.IsText
  /-- The search roots of quoted references are texts. -/
  includes : ∀ p ∈ settings.includeRoots, p.IsText

theorem Settings.textual_usual : Settings.Textual {} := by
  constructor <;> decide

open Json.Reader in
theorem Settings.yields_reader : Yields reader Settings.Textual := by
  have hpath : Yields Settings.path Path.IsText := .after fun _ => .pure (Path.isText_ofText _)
  refine .record ?_ textual_usual
  simp only [List.forall_mem_cons]
  refine ⟨fun s h => ?_, fun s h => ?_, fun s h => ?_, fun s h => ?_, fun s h => ?_, fun s h => ?_,
    fun s h => ?_, List.forall_mem_nil _⟩
  · exact hpath.bind fun p hp => .pure { h with output := hp }
  · exact (Yields.list hpath).bind fun ps hps => .pure { h with modules := hps }
  · exact (Yields.list hpath).bind fun ps hps => .pure { h with includes := hps }
  all_goals exact .after fun _ => .pure ⟨h.output, h.modules, h.includes⟩

theorem Settings.textual_load {disk : Disk} {path : Path} {settings : Settings}
    (h : load disk path = .ok settings) : settings.Textual := by
  rw [load] at h
  split at h
  · cases h
  · next text _ =>
    cases hread : ofText text with
    | ok read =>
      rw [hread] at h
      exact Except.ok.inj h ▸ yields_reader.run hread
    | error fault =>
      rw [hread] at h
      cases h

namespace Project

variable {project : Project} {book : Rulebook} {disk : Disk} {root : Path} {outputDir : Option String}

/-- A project that is opened has settings that name texts, wherever they are from. -/
theorem textual_load (h : Project.load disk root outputDir = .ok project) : project.settings.Textual := by
  rw [load] at h
  obtain ⟨opened, -, h⟩ := exists_of_bind_eq_ok h
  cases outputDir with
  | none =>
    dsimp only at h
    split at h
    · obtain ⟨settings, hsettings, h⟩ := exists_of_bind_eq_ok h
      exact Except.ok.inj h ▸ Settings.textual_load hsettings
    · exact Except.ok.inj h ▸ Settings.textual_usual
  | some dir =>
    have hchosen : ∀ settings : Settings, settings.Textual →
        (if dir.isEmpty then pure { opened with settings }
          else pure { opened with settings := { settings with outputDir := .ofText dir } } :
          Except ProjectFault Project) = .ok project → project.settings.Textual := by
      intro settings hsettings h
      split at h
      · exact Except.ok.inj h ▸ hsettings
      · exact Except.ok.inj h ▸ { hsettings with output := Path.isText_ofText dir }
    dsimp only at h
    split at h
    · obtain ⟨settings, hsettings, h⟩ := exists_of_bind_eq_ok h
      exact hchosen settings (Settings.textual_load hsettings) h
    · exact hchosen {} Settings.textual_usual h

/-! ### The rules of a project -/

theorem isText_dir (hroot : project.root.IsText) {p : Path} (hp : p.IsText) : (project.dir p).IsText :=
  (hroot.join hp).normalize

theorem isText_searchRoots (hroot : project.root.IsText) (hsettings : project.settings.Textual)
    (family : Family) : ∀ base ∈ project.searchRoots family, base.IsText := by
  intro base hbase
  cases family with
  | dotted =>
    obtain ⟨p, hp, rfl⟩ := List.mem_map.1 hbase
    exact isText_dir hroot (hsettings.modules p hp)
  | quoted =>
    obtain ⟨p, hp, rfl⟩ := List.mem_map.1 hbase
    exact isText_dir hroot (hsettings.includes p hp)

/-- Making an artifact of a source whose path is a text asks about texts only. -/
theorem asksOnly_content {kind : ArtifactKind} {family : Family} {scanner : Scanner} {F : Path}
    (hroot : project.root.IsText) (hsettings : project.settings.Textual) (hF : F.IsText) :
    ((project.importFamily family scanner).content project.outputRoot project.root kind F).run.AsksOnly
      Question.IsText := by
  have hout : project.outputRoot.IsText := isText_dir hroot hsettings.output
  cases kind with
  | direct =>
    have hprobe : ∀ text, ∀ r ∈ scanner.references text, ∀ base ∈ project.searchRoots family,
        (base.join (scanner.candidate r)).IsText := fun text r _ base hbase =>
      (isText_searchRoots hroot hsettings family base hbase).join (Scanner.isText_candidate r)
    have himports : (directImports scanner (project.searchRoots family) (project.root.join F)).run.AsksOnly
        Question.IsText :=
      (confined_directImports (hroot.join hF) hprobe fun text r hr base hbase =>
        (hprobe text r hr base hbase).normalize).asksOnly
    exact Recipe.asksOnly_run_bind himports fun _ => trivial
  | transitive =>
    have himports : (transitiveImports project.outputRoot (project.importFamily family scanner).owns
        F).run.AsksOnly Question.IsText :=
      (confined_transitiveImports (ArtifactKind.isText_artifact hout hF) fun text p hp kind =>
        ArtifactKind.isText_artifact hout (Listing.isText_of_mem_parse hp)).asksOnly
    exact Recipe.asksOnly_run_bind himports fun _ => trivial

/-- The rules of a project whose root and directories are texts work with texts only. -/
theorem textual_rules (hplace : project.root.IsPlace) (hroot : project.root.IsText)
    (hsettings : project.settings.Textual) (hbook : project.rules = .ok book.rules) : book.Textual := by
  intro t rule hfind
  have hout : project.outputRoot.IsPlace := isPlace_outputRoot hplace.1
  rcases find_cases hplace hbook t with ⟨kind, F, family, scanner, hclass, -, -, hrule⟩ | ⟨-, hnone⟩
  · obtain rfl := Except.ok.inj (hrule.symm.trans hfind)
    have hF := (ArtifactKind.classify?_eq_some_iff hout).1 hclass
    rw [ImportFamily.recipe_eq hF]
    exact ⟨ArtifactKind.isText_target_of_source? hout (isText_dir hroot hsettings.output) hF,
      asksOnly_content hroot hsettings (ArtifactKind.isText_of_source? hout hF)⟩
  · cases hnone.symm.trans hfind

/-- Builds with the rules of a project whose root and directories are texts never record a path that is no
    text, whatever names and contents the files on the disk have, and whatever targets are required. So what
    they record, after what was recorded before or read from any trace file, can always be written as a text;
    if it is not stored, this is because that text could not be written to the trace file. -/
theorem build_storable (hplace : project.root.IsPlace) (hroot : project.root.IsText)
    (hsettings : project.settings.Textual) :
    (∀ disk path, (TraceTable.load disk path).Textual) ∧
    ∀ (engine : Engine) depth ts disk built, project.rules = .ok engine.book.rules →
      engine.traces.Textual → engine.build depth ts disk = some built →
        (∀ e ∈ built.engine.traces.entries, e.1.IsText ∧ ∀ d ∈ e.2.deps, d.path.IsText) ∧
        ∃ text, built.engine.traces.text? = some text ∧ ∀ cause, built.saved = .error cause →
          ∃ failed s path fault,
            Session.requireAll engine.book depth ts (engine.session disk) = some (failed, s) ∧
            engine.store = some path ∧ (Disk.writeIfChanged path (.ofText text) s.disk).1 = .error fault ∧
            cause = .saveTraces path fault.message := by
  refine ⟨TraceTable.textual_load, fun engine depth ts disk built hbook htraces run => ?_⟩
  have htextual : built.engine.traces.Textual :=
    Engine.textual_of_build (textual_rules hplace hroot hsettings hbook) htraces run
  obtain ⟨text, htext⟩ := Option.isSome_iff_exists.1 (TraceTable.isSome_text?_iff.2 htextual)
  exact ⟨htextual, text, htext, fun cause => Engine.saveTraces_of_build htext run⟩

/-- A source that imports a header, and one with a name that is no text. -/
def unspelledDisk : Disk where
  top := .dir (.ofText "w") (.file (.ofText "a.c") (.ofText "#include \"a.h\"")
    (.file (.ofText "a.h") ⟨Bytes.packed [0xFF]⟩ (.file [0xFF, 0x2E, 0x63] (.ofText "") .empty))) .empty

/-- A build that is required to make artifacts of both, and to store its traces where a directory is. -/
theorem build_storable_unspelled :
    let unspelled : Path := ⟨Bytes.ofText "/w/_build/deps/" ++ 0xFF :: Bytes.ofText ".c.directImports"⟩
    let engine := Engine.storing usualBook (.ofText "/w") (TraceTable.load unspelledDisk (.ofText "/w/a.h"))
    usual.root.IsPlace ∧ usual.root.IsText ∧ usual.settings.Textual ∧
    usual.rules = .ok engine.book.rules ∧ engine.traces.Textual ∧ ¬ unspelled.IsText ∧
    ∃ built, engine.build 2 [usualArtifact .direct "a.c", unspelled] unspelledDisk = some built ∧
      built.report.failed = [(unspelled, .noRule unspelled)] ∧
      built.engine.traces.keys = [usualArtifact .direct "a.c"] ∧
      (∀ e ∈ built.engine.traces.entries, e.1.IsText ∧ ∀ d ∈ e.2.deps, d.path.IsText) ∧
      ∃ fault : IoFault, built.saved = .error (.saveTraces (.ofText "/w") fault.message) := by
  intro unspelled engine
  have hplace : usual.root.IsPlace := by decide
  have hroot : usual.root.IsText := by decide
  obtain ⟨hload, hbuild⟩ := build_storable hplace hroot Settings.textual_usual
  have hrun : (engine.build 2 [usualArtifact .direct "a.c", unspelled] unspelledDisk).any (fun built =>
      decide (built.report.failed = [(unspelled, .noRule unspelled)] ∧
        built.engine.traces.keys = [usualArtifact .direct "a.c"] ∧ ¬ built.saved = .ok ())) = true := by
    decide +kernel
  obtain ⟨built, run, hbuilt⟩ := (Option.any_eq_true _ _).1 hrun
  obtain ⟨hfailed, hkeys, hsaved⟩ := of_decide_eq_true hbuilt
  obtain ⟨htexts, text, -, hcause⟩ := hbuild engine _ _ _ built rules_usual (hload _ _) run
  refine ⟨hplace, hroot, Settings.textual_usual, rules_usual, hload _ _, by decide, built, run, hfailed,
    hkeys, htexts, ?_⟩
  cases hsave : built.saved with
  | ok => exact absurd hsave hsaved
  | error cause =>
    obtain ⟨_, _, path, fault, -, hstore, -, rfl⟩ := hcause cause hsave
    obtain rfl : Path.ofText "/w" = path := Option.some.inj hstore
    exact ⟨fault, rfl⟩

end Project

end ImportIndex
