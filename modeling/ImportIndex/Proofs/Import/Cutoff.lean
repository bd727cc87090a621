import ImportIndex.Proofs.Import.Reconfigured
import ImportIndex.Proofs.Import.Recorded

/-!
# Edits that leave the direct imports as they are

A source may be edited without importing anything else, as when a comment is added. Its direct artifact
is made anew then, as the trace tells the digest of the source, and comes out as it was. So the traces of
the transitive artifacts, which tell of direct and transitive artifacts only, hold as before, however
the sources import one another and however the lists came to be cut off: a change stops at the direct
artifacts (`cutsOff_of_build`). What is done after a build is backed by traces that go round in no
circle, so the depth of that backing bounds how deep the next build has to look.

This needs the trace file to stay, too. Where it is removed, all is made anew
(`exists_made_transitive`). And the next build may look for files at places whose paths are no texts,
where no reference led before, and then it cannot store its traces (`exists_unsaved`).
-/

namespace ImportIndex

namespace Project

open Session

variable {project : Project} {book : Rulebook} {disk disk' : Disk} {traces : TraceTable}
  {s : Session} {t : Path} {digest : String}

/-- A transitive artifact has not changed, whatever was edited. -/
theorem Vouched.not_changed {F : Path} (hF : F.IsBelow) {trace : Trace}
    (hget : traces.get? (ArtifactKind.transitive.artifact project.outputRoot F) = some trace)
    (h : project.Remembers book disk (ArtifactKind.transitive.artifact project.outputRoot F) trace) :
    book.changed disk' traces (ArtifactKind.transitive.artifact project.outputRoot F) = false := by
  rw [Rulebook.changed, hget, Option.any_some, List.any_eq_false]
  intro d hd
  obtain ⟨u, digest, rfl⟩ := h.origin.deps hF rfl d hd
  simp [Dependency.differs]

/-- What is backed is firm on a disk on which the artifacts of targets that are done are what they were
    and the rules of direct ones still make what they hold. -/
theorem firm_of_backed (hroot : project.root.IsPlace) (hbook : project.rules = .ok book.rules)
    (h : Backed book project.IsArtifact disk s t digest)
    (hremembers : ∀ {t trace}, project.IsArtifact t → s.traces.get? t = some trace →
      project.Remembers book disk t trace)
    (hread : ∀ {t c}, project.IsArtifact t → s.Done t → s.disk.read t = .ok c →
      disk'.read t = .ok c ∧ disk'.refuses t .compare = none)
    (hmade : ∀ {F c}, F.IsBelow → s.Done (ArtifactKind.direct.artifact project.outputRoot F) →
      disk'.read (ArtifactKind.direct.artifact project.outputRoot F) = .ok c →
        book.evaluate disk' 1 (ArtifactKind.direct.artifact project.outputRoot F) = some c) :
    ∃ n, book.Firm (fun t => project.IsArtifact t ∧ s.Done t) disk' s.traces n t digest := by
  induction h with
  | @intro t digest rule trace target find kept name output read done seen below ih =>
    have hremembered := hremembers target kept
    obtain ⟨c, hc, hdigest⟩ := read
    obtain ⟨hc', hcompare⟩ := hread target ⟨_, done⟩ hc
    obtain ⟨kind, F, hF, rfl⟩ := target
    cases kind with
    | direct =>
      -- What the trace tells of files may be different now, but it comes to the same.
      have halone : (rule.recipe (ArtifactKind.direct.artifact project.outputRoot F)).run.Alone := by
        obtain ⟨family, scanner, -, -, -, rfl⟩ := find_artifact hroot hbook hF find
        exact ImportFamily.alone_directRule fun _ => alone_directImports
      exact ⟨1, ⟨⟨.direct, F, hF, rfl⟩, ⟨_, done⟩⟩, rule, trace, c, find, kept, name, output, hc',
        hdigest, .inr ⟨hremembered.not_artifact hF, halone, hcompare, hmade hF ⟨_, done⟩ hc'⟩⟩
    | transitive =>
      -- The trace tells of nothing but artifacts that are firm.
      have hdeps := hremembered.origin.deps hF rfl
      obtain ⟨n, hn⟩ : ∃ n, ∀ d ∈ trace.deps, d.Holds book disk'
          (book.Firm (fun t => project.IsArtifact t ∧ s.Done t) disk' s.traces n) := by
        refine exists_depth (fun hnm h => h.mono (Rulebook.Firm.mono hnm)) fun d hd => ?_
        obtain ⟨u, digest, rfl⟩ := hdeps d hd
        exact ih u digest hd
      exact ⟨n + 1, ⟨⟨.transitive, F, hF, rfl⟩, ⟨_, done⟩⟩, rule, trace, c, find, kept, name, output,
        hc', hdigest, .inl hn⟩

/-- Storing the traces succeeds if they can be written as text and the trace file is there. -/
theorem save_of_read {engine : Engine} (hroot : project.root.IsPlace)
    (hstore : ∀ path ∈ engine.store, path = project.traceFile) {text : String}
    (htext : engine.traces.text? = some text)
    (hread : ∀ path ∈ engine.store, ∃ c, disk.read path = .ok c)
    (hrefuses : ∀ step, disk.refuses project.traceFile step = none) :
    (engine.save disk).1 = .ok () := by
  rw [Engine.save]
  cases hs : engine.store with
  | none => rfl
  | some path =>
    obtain ⟨c, hc⟩ := hread path hs
    obtain rfl := hstore path hs
    obtain ⟨l, hl, -, htrace⟩ := exists_traceFile_place hroot
    rw [htrace] at hc hrefuses
    obtain ⟨written, hwrite⟩ := Disk.exists_write_of_read (d := .ofText text) hl hc hrefuses
    simp only [TraceTable.save, htext, htrace]
    rcases hrun : Disk.writeIfChanged (Path.ofLocation l) (.ofText text) disk with ⟨r, disk''⟩
    rw [hrun] at hwrite
    cases hwrite
    rfl

section

variable {engine : Engine} {stored : Disk} (hsave : engine.save disk = (.ok (), stored))
  (hsame : (disk'.read project.traceFile).toOption = (stored.read project.traceFile).toOption)
  (hstore : ∀ path ∈ engine.store, path = project.traceFile)

include hsave hsame hstore

/-- The stored traces are there as long as the trace file stays. -/
theorem read_of_stored : ∀ path ∈ engine.store, ∃ c, disk'.read path = .ok c := by
  intro path hpath
  rcases Engine.save_eq_ok hsave with ⟨hnone, -⟩ | ⟨path', text, hpath', -, -, hwritten, -⟩
  · cases (Option.mem_def.1 hpath).symm.trans hnone
  · obtain rfl := Option.some.inj ((Option.mem_def.1 hpath).symm.trans hpath')
    obtain rfl := hstore path hpath
    refine ⟨.ofText text, Disk.toOption_eq_some_iff.1 (hsame.trans ?_)⟩
    exact Disk.toOption_eq_some_iff.2 (Disk.read_of_writeIfChanged hwritten)

/-- An engine that resumes has the stored traces as long as the trace file stays. -/
theorem load_of_stored : ∀ path ∈ engine.store, TraceTable.load disk' path = engine.traces := by
  intro path hpath
  rcases Engine.save_eq_ok hsave with ⟨hnone, -⟩ | ⟨path', -, hpath', -, -, -, hload⟩
  · cases (Option.mem_def.1 hpath).symm.trans hnone
  · obtain rfl := Option.some.inj ((Option.mem_def.1 hpath).symm.trans hpath')
    obtain rfl := hstore path hpath
    exact (TraceTable.load_congr hsame).trans hload

end

/-- Whether edits after a build spare what it made: the artifacts and the stored traces are what they
    were, and what the rules of direct imports make of the sources is what their artifacts hold. -/
structure Spares (project : Project) (book : Rulebook) (built : Built) (disk : Disk) : Prop where
  /-- The artifacts that were looked at. -/
  artifacts : ∀ {t}, project.IsArtifact t → built.report.graph.added.contains t = true →
    (disk.read t).toOption = (built.disk.read t).toOption ∧ disk.refuses t .compare = none
  /-- The stored traces. -/
  traceFile : (disk.read project.traceFile).toOption = (built.disk.read project.traceFile).toOption
  /-- What the rules of direct imports make. -/
  direct : ∀ {F : Path} {c}, F.IsBelow →
    built.report.graph.added.contains (ArtifactKind.direct.artifact project.outputRoot F) = true →
      disk.read (ArtifactKind.direct.artifact project.outputRoot F) = .ok c →
        book.evaluate disk 1 (ArtifactKind.direct.artifact project.outputRoot F) = some c

/-- Edits spare what was made if they do so task by task. -/
theorem Spares.of_tasks (hroot : project.root.IsPlace) {built : Built}
    (htasks : ∀ u ∈ built.report.graph.tasks, u.IsPlace ∧
      (disk.read u).toOption = (built.disk.read u).toOption ∧ disk.refuses u .compare = none ∧
      ((ArtifactKind.transitive.source? project.outputRoot u).isSome = true ∨
        book.evaluate disk 1 u = (disk.read u).toOption))
    (htrace : (disk.read project.traceFile).toOption = (built.disk.read project.traceFile).toOption) :
    project.Spares book built disk := by
  have hmem : ∀ {t}, project.IsArtifact t → built.report.graph.added.contains t = true →
      t ∈ built.report.graph.tasks := by
    intro t ht hadded
    obtain ⟨u, hu, hsame⟩ := FirstSeen.contains_iff.1 hadded
    rwa [← (htasks u hu).1.eq_of_same (ht.isPlace hroot) hsame]
  refine ⟨fun ht hadded => ?_, htrace, fun {F} c hF hadded hread => ?_⟩
  · obtain ⟨-, hsame, hcompare, -⟩ := htasks _ (hmem ht hadded)
    exact ⟨hsame, hcompare⟩
  · obtain ⟨-, -, -, htransitive | hmakes⟩ := htasks _ (hmem ⟨.direct, F, hF, rfl⟩ hadded)
    · obtain ⟨G, hG⟩ := Option.isSome_iff_exists.1 htransitive
      cases (ArtifactKind.source?_artifact (isPlace_outputRoot hroot.1) hF hG).1
    · rw [hmakes, hread]
      rfl

/-- What is backed when a session ends is firm after its traces were stored and edits that spare what was
    made. -/
theorem firm_of_spares {engine : Engine} {built : Built} (hroot : project.root.IsPlace)
    (hbook : project.rules = .ok engine.book.rules) (hstore : ∀ path ∈ engine.store, path = project.traceFile)
    (hbuilt : built.disk = (Engine.save { engine with traces := s.traces } s.disk).2)
    (hspares : project.Spares engine.book built disk')
    (hvisited : ∀ {t}, s.Done t → built.report.graph.added.contains t = true)
    (hremembers : ∀ {t trace}, project.IsArtifact t → s.traces.get? t = some trace →
      project.Remembers engine.book disk t trace)
    (h : Backed engine.book project.IsArtifact disk s t digest) :
    ∃ n, engine.book.Firm (fun t => project.IsArtifact t ∧ s.Done t) disk' s.traces n t digest := by
  refine firm_of_backed hroot hbook h hremembers (fun {t c} ht hd hc => ?_)
    fun hF hd => hspares.direct hF (hvisited hd)
  have hne : t ≠ project.traceFile := by
    obtain ⟨kind, F, -, rfl⟩ := ht
    exact (traceFile_ne_artifact (isPlace_outputRoot hroot.1)).symm
  have hstays := @read_save project s.disk hroot { engine with traces := s.traces } hstore t
    (ht.isPlace hroot) hne
  obtain ⟨hsame, hcompare⟩ := hspares.artifacts ht (hvisited hd)
  refine ⟨Disk.toOption_eq_some_iff.1 ?_, hcompare⟩
  rw [hsame, hbuilt, hstays, hc]
  rfl

/-- After a build of artifacts that succeeds, and edits that spare what it made, the next build makes
    those direct artifacts anew of which a recorded answer is another one now, and nothing else. They
    come out as they were, so that it writes nothing but the traces. -/
theorem cutsOff_of_build {engine : Engine} (hroot : project.root.IsPlace)
    (hbook : project.rules = .ok engine.book.rules) (hinj : Function.Injective engine.book.digest)
    (hstore : ∀ path ∈ engine.store, path = project.traceFile)
    (h : project.Recorded engine.book engine.traces) {ts : List Path}
    (hts : ∀ t ∈ ts, project.IsArtifact t) {depth : Nat} {built : Built}
    (run : engine.build depth ts disk = some built) (hfailed : built.report.failed = [])
    (hsaved : built.saved = .ok ()) (hspares : project.Spares engine.book built disk')
    (hkept : traces = built.engine.traces ∨
      ∃ path, engine.store = some path ∧ traces = TraceTable.load disk' path) :
    ∃ n, ∀ m, n ≤ m → ∃ again : Built,
      Engine.build { engine with traces } m ts disk' = some again ∧
      again.CutsOff engine.book disk' traces ∧
      (∀ t ∈ again.report.graph.tasks, engine.book.changed disk' traces t = true →
        ∃ F : Path, F.IsBelow ∧ t = ArtifactKind.direct.artifact project.outputRoot F) ∧
      (again.saved, again.disk) = Engine.save { engine with traces := again.engine.traces } disk' ∧
      (∀ text, again.engine.traces.text? = some text →
        (∀ step, disk'.refuses project.traceFile step = none) → again.saved = .ok ()) := by
  obtain ⟨failed, s, hrun, hengine, hreport, hsave⟩ := Engine.exists_of_build_eq_some run
  obtain rfl : failed = [] := hreport.symm.trans hfailed
  rw [hsaved] at hsave
  obtain rfl := Option.some.inj ((Engine.build_of_requireAll hrun).symm.trans run)
  obtain ⟨hserved, hdone⟩ := requireAll_served.1 _ _ hrun
  have hvisited : ∀ {t}, s.Done t → s.graph.added.contains t = true := by
    rintro t ⟨digest, hd⟩
    exact hserved.onward.tasks (by simp [Engine.session]) (by simp [hd])
  obtain ⟨hsound, hremembers⟩ := h.sound hroot hbook hinj (hserved.mono hts)
  have htraces : traces = s.traces := by
    rcases hkept with rfl | ⟨path, hpath, rfl⟩
    · rfl
    · exact load_of_stored hsave.symm hspares.traceFile hstore path hpath
  subst htraces
  obtain ⟨n, hn⟩ : ∃ n, ∀ t ∈ ts, ∃ digest,
      engine.book.Firm (fun t => project.IsArtifact t ∧ s.Done t) disk' s.traces n t digest := by
    refine exists_depth (fun hnm h => h.imp fun _ h => h.mono hnm) fun t ht => ?_
    obtain ⟨digest, hprogress⟩ := (hdone t ht).resolve_left (by simp)
    have hbacked := hsound.done (hts t ht) hprogress
    obtain ⟨n, hn⟩ := firm_of_spares hroot hbook hstore rfl hspares hvisited hremembers hbacked
    exact ⟨n, digest, hn⟩
  -- Artifacts that are spelled otherwise are other artifacts, so each task is made once.
  refine ⟨n, fun m hnm => ?_⟩
  obtain ⟨again, hagain, hcuts, htasks, hsave'⟩ := @Engine.build_of_firm
    { engine with traces := s.traces } _ n m ts disk'
    (fun ht hu => (@separates project disk hroot).same ht.1 hu.1) hnm hn
  refine ⟨again, hagain, hcuts, fun t ht hchanged => ?_, hsave', fun text htext hrefuses => ?_⟩
  · obtain ⟨⟨kind, F, hF, rfl⟩, -⟩ := htasks t ht
    cases kind with
    | direct => exact ⟨F, hF, rfl⟩
    | transitive =>
      obtain ⟨trace, hget, -⟩ := Option.any_eq_true _ _ |>.1 hchanged
      rw [(hremembers ⟨.transitive, F, hF, rfl⟩ hget).not_changed hF hget] at hchanged
      cases hchanged
  · have hstored := read_of_stored hsave.symm hspares.traceFile hstore
    exact (congrArg Prod.fst hsave').trans (save_of_read hroot hstore htext hstored hrefuses)

/-- A comment is added to a source of the cycle. -/
def commented (disk : Disk) : Disk :=
  (Disk.writeIfChanged (.ofText "/w/b.c")
    (.ofText "// the middle\n#include \"c.c\"\n#include \"x.h\"") disk).2

/-- After a comment was added to a source of the cycle, the build makes its direct artifact anew and no
    other. -/
theorem cutsOff_of_build_ring : ∃ before again : Built, ∃ m,
    (Engine.storing usualBook usual.traceFile ∅).build 6 [usualArtifact .transitive "a.c"] ring =
      some before ∧
    Engine.build { Engine.storing usualBook usual.traceFile ∅ with traces := before.engine.traces } m
      [usualArtifact .transitive "a.c"] (commented before.disk) = some again ∧
    again.CutsOff usualBook (commented before.disk) before.engine.traces ∧
    before.report.graph.tasks.filter
        (usualBook.changed (commented before.disk) before.engine.traces) =
      [usualArtifact .direct "b.c"] := by
  have hrun : ((Engine.storing usualBook usual.traceFile ∅).build 6
      [usualArtifact .transitive "a.c"] ring).any (fun before => decide (
        before.report.failed = [] ∧ before.saved.toOption = some () ∧
        (∀ u ∈ before.report.graph.tasks, u.IsPlace ∧
          ((commented before.disk).read u).toOption = (before.disk.read u).toOption ∧
          (commented before.disk).refuses u .compare = none ∧
          ((ArtifactKind.transitive.source? usual.outputRoot u).isSome = true ∨
            usualBook.evaluate (commented before.disk) 1 u =
              ((commented before.disk).read u).toOption)) ∧
        before.report.graph.tasks.filter
            (usualBook.changed (commented before.disk) before.engine.traces) =
          [usualArtifact .direct "b.c"])) = true := by
    decide +kernel
  obtain ⟨before, run, h⟩ := (Option.any_eq_true _ _).1 hrun
  obtain ⟨hfailed, hsaved, htasks, hchanged⟩ := of_decide_eq_true h
  have hspares : usual.Spares usualBook before (commented before.disk) :=
    .of_tasks (by decide +kernel) htasks read_traceFile_write
  obtain ⟨m, hm⟩ := @cutsOff_of_build usual ring (commented before.disk) before.engine.traces
    (Engine.storing usualBook usual.traceFile ∅) (by decide +kernel) rules_usual
    Content.spelled_injective (fun _ h => (Option.some.inj h).symm) .start _
    (isArtifact_usual .transitive ["a.c"] (by decide +kernel)) _ before run hfailed
    (Disk.toOption_eq_some_iff.1 hsaved) hspares (.inl rfl)
  obtain ⟨again, hagain, hcuts, -⟩ := hm m le_rfl
  exact ⟨before, again, m, run, hagain, hcuts, hchanged⟩

/-- The trace file is removed. -/
def forgotten (disk : Disk) : Disk := (Disk.removeFile usual.traceFile disk).2

/-- Where the trace file is removed after a build that succeeds, the next one makes all anew, the
    transitive artifacts too, though no artifact was touched, no rule of direct imports comes to anything
    else, and no recorded answer is another one. -/
theorem exists_made_transitive : Function.Injective usualBook.digest ∧
    (∀ F ∈ ["a.c", "b.c", "c.c", "x.h"].map Path.ofText, ∀ p ∈ usual.probes ring F,
      ¬ p.normalize.StartsWith usual.outputRoot) ∧
    ∃ before again : Built,
      (Engine.resume usualBook usual.traceFile ring).build 6 [usualArtifact .transitive "a.c"] ring =
        some before ∧
      before.report.failed = [] ∧ before.saved = .ok () ∧
      (∀ u ∈ before.report.graph.tasks,
        ((forgotten before.disk).read u).toOption = (before.disk.read u).toOption ∧
        ((ArtifactKind.transitive.source? usual.outputRoot u).isSome = true ∨
          usualBook.evaluate (forgotten before.disk) 1 u =
            ((forgotten before.disk).read u).toOption) ∧
        usualBook.changed (forgotten before.disk) before.engine.traces u = false) ∧
      (Engine.resume usualBook usual.traceFile (forgotten before.disk)).build 6
          [usualArtifact .transitive "a.c"] (forgotten before.disk) = some again ∧
      again.report.stats.rebuilt = before.report.graph.tasks.length ∧ again.report.stats.clean = 0 ∧
      ∃ rule, .making (usualArtifact .transitive "a.c") rule ∈ again.events := by
  have hrun : ((Engine.resume usualBook usual.traceFile ring).build 6
      [usualArtifact .transitive "a.c"] ring).any (fun before =>
        ((Engine.resume usualBook usual.traceFile (forgotten before.disk)).build 6
          [usualArtifact .transitive "a.c"] (forgotten before.disk)).any fun again => decide (
            before.report.failed = [] ∧ before.saved.toOption = some () ∧
            (∀ u ∈ before.report.graph.tasks,
              ((forgotten before.disk).read u).toOption = (before.disk.read u).toOption ∧
              ((ArtifactKind.transitive.source? usual.outputRoot u).isSome = true ∨
                usualBook.evaluate (forgotten before.disk) 1 u =
                  ((forgotten before.disk).read u).toOption) ∧
              usualBook.changed (forgotten before.disk) before.engine.traces u = false) ∧
            again.report.stats.rebuilt = before.report.graph.tasks.length ∧
            again.report.stats.clean = 0 ∧
            ∃ e ∈ again.events, e.work? = some (usualArtifact .transitive "a.c", true))) = true := by
    decide +kernel
  obtain ⟨before, run, h⟩ := (Option.any_eq_true _ _).1 hrun
  obtain ⟨again, run', h⟩ := (Option.any_eq_true _ _).1 h
  obtain ⟨hfailed, hsaved, htasks, hrebuilt, hclean, hmaking⟩ := of_decide_eq_true h
  exact ⟨Content.spelled_injective, by decide +kernel, before, again, run, hfailed,
    Disk.toOption_eq_some_iff.1 hsaved, htasks, run', hrebuilt, hclean,
    Event.exists_making_iff.2 hmaking⟩

/-- Settings by which references are looked up in a directory whose name is no text. -/
def nameless : Settings where
  includeRoots := [⟨[0xFF]⟩]

/-- A reference that stands for no file is added to a source without any. -/
def misled (disk : Disk) : Disk :=
  (Disk.writeIfChanged (.ofText "/w/a.c") (.ofText "#include \"b.h\"") disk).2

/-- Where a search root is no text, a source that imports the same as before may have been looked for
    imports at places that are none, so that the traces of the next build cannot be stored. -/
theorem exists_unsaved : ∃ before again : Built,
    (Engine.storing (bookWith nameless) usual.traceFile ∅).build 3 [usualArtifact .transitive "a.c"]
      (usualDisk [("a.c", "")]) = some before ∧
    before.report.failed = [] ∧ before.saved = .ok () ∧
    (∀ u ∈ before.report.graph.tasks,
      ((misled before.disk).read u).toOption = (before.disk.read u).toOption ∧
      ((ArtifactKind.transitive.source? usual.outputRoot u).isSome = true ∨
        (bookWith nameless).evaluate (misled before.disk) 1 u =
          ((misled before.disk).read u).toOption)) ∧
    Engine.build { Engine.storing (bookWith nameless) usual.traceFile ∅ with
      traces := before.engine.traces } 3 [usualArtifact .transitive "a.c"] (misled before.disk) =
      some again ∧
    again.report.failed = [] ∧ again.saved.toOption = none := by
  have hrun : ((Engine.storing (bookWith nameless) usual.traceFile ∅).build 3
      [usualArtifact .transitive "a.c"] (usualDisk [("a.c", "")])).any (fun before =>
        (Engine.build { Engine.storing (bookWith nameless) usual.traceFile ∅ with
          traces := before.engine.traces } 3 [usualArtifact .transitive "a.c"]
            (misled before.disk)).any fun again => decide (
              before.report.failed = [] ∧ before.saved.toOption = some () ∧
              (∀ u ∈ before.report.graph.tasks,
                ((misled before.disk).read u).toOption = (before.disk.read u).toOption ∧
                ((ArtifactKind.transitive.source? usual.outputRoot u).isSome = true ∨
                  (bookWith nameless).evaluate (misled before.disk) 1 u =
                    ((misled before.disk).read u).toOption)) ∧
              again.report.failed = [] ∧ again.saved.toOption = none)) = true := by
    decide +kernel
  obtain ⟨before, run, h⟩ := (Option.any_eq_true _ _).1 hrun
  obtain ⟨again, run', h⟩ := (Option.any_eq_true _ _).1 h
  obtain ⟨hfailed, hsaved, htasks, hfailed', hsaved'⟩ := of_decide_eq_true h
  exact ⟨before, again, run, hfailed, Disk.toOption_eq_some_iff.1 hsaved, htasks, run', hfailed',
    hsaved'⟩

end Project

end ImportIndex
