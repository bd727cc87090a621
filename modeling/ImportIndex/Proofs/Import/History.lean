import ImportIndex.Proofs.Build.History
import ImportIndex.Proofs.Import.Bounds

/-!
# A project in the course of time

Between builds, files are edited; what remains of a build are its artifacts and the trace file, from
which the next build goes on (`Project.History`). Whatever happened, the traces in the trace file
tell how a rule came to an artifact in some world (`History.genuine`). So after every build the
transitive artifacts that are done list what their sources and those that these take over import
now, and nothing that they do not reach (`History.bounds`).

That no place where a reference is looked up is among the artifacts is not enough for this: it may be
spelled through the directory that they are in (`exists_out_of_bounds`).
-/

namespace ImportIndex.Project

open Relation

/-- The disks that there may be in the course of time: any disk without a trace file at first, and
    then edits of anything but the trace file, and builds of artifacts that go on with the traces in
    the trace file and store their own in it. -/
inductive History (project : Project) (book : Rulebook) : Disk → Prop
  | start {disk} (new : (disk.read project.traceFile).toOption = none) : History project book disk
  | edit {disk disk'} (h : History project book disk)
      (kept : (disk'.read project.traceFile).toOption = (disk.read project.traceFile).toOption) :
      History project book disk'
  | build {disk depth ts built} (h : History project book disk)
      (requested : ∀ t ∈ ts, project.IsArtifact t)
      (undisturbed : ∀ F, project.Within disk ts F → project.Undisturbed disk F)
      (run : (Engine.resume book project.traceFile disk).build depth ts disk = some built) :
      History project book built.disk

variable {project : Project} {book : Rulebook} {disk disk' : Disk} {ts : List Path} {depth : Nat}
  {failed : List (Path × Failure)} {s : Session}

/-! ### The trace file -/

/-- An engine that resumes from the same trace file is the same. -/
theorem resume_congr {p : Path} (h : (disk'.read p).toOption = (disk.read p).toOption) :
    Engine.resume book p disk' = Engine.resume book p disk := by
  rw [Engine.resume, Engine.resume, TraceTable.load_congr h]

/-- The trace file is left as it was, or it holds the traces that were stored. -/
theorem load_save (hroot : project.root.IsPlace) {engine : Engine}
    (hstore : engine.store = some project.traceFile) :
    TraceTable.load (engine.save disk).2 project.traceFile =
        TraceTable.load disk project.traceFile ∨
      TraceTable.load (engine.save disk).2 project.traceFile = engine.traces := by
  rw [Engine.save, hstore]
  cases htext : engine.traces.text? with
  | none => exact .inl (by simp only [TraceTable.save, htext])
  | some text =>
    obtain ⟨l, hl, hne, htrace⟩ := exists_traceFile_place hroot
    simp only [save_eq htext, htrace]
    rcases @Disk.read_write_same disk (.ofText text) l hl hne with hread | hread
    · exact .inl (TraceTable.load_congr hread)
    · refine .inr (TraceTable.load_of_stored htext ?_)
      simp [Disk.readText, hread, Content.toText?_ofText]

/-- The traces of artifacts in the trace file tell how they came about, whatever happened. -/
theorem History.genuine (hroot : project.root.IsPlace) (hbook : project.rules = .ok book.rules)
    (hinj : Function.Injective book.digest) (h : project.History book disk) {t : Path}
    {trace : Trace} (ht : project.IsArtifact t)
    (hget : (TraceTable.load disk project.traceFile).get? t = some trace) :
    ∃ c, trace.Genuine book (fun _ _ => True) t c := by
  induction h generalizing t trace with
  | start new =>
    rw [TraceTable.load_eq_empty new, PathTable.get?_empty] at hget
    cases hget
  | edit _ kept ih => exact ih ht (TraceTable.load_congr kept ▸ hget)
  | @build disk depth ts built _ requested undisturbed run ih =>
    obtain ⟨failed, s, hrun, -, -, hsaved⟩ := Engine.exists_of_build_eq_some run
    rw [(Prod.mk.inj hsaved).2] at hget
    have hreaches := (inv_bounds hroot hbook hinj ih undisturbed requested hrun).reaches
    have hkept : TraceTable.load s.disk project.traceFile = TraceTable.load disk project.traceFile := by
      have hout : project.outputRoot.IsPlace := isPlace_outputRoot hroot.1
      refine TraceTable.load_congr (read_of_rewritten hroot (isPlace_traceFile hout) ?_ (hreaches.mono ?_))
      · rintro ⟨kind, F, -, heq⟩
        exact traceFile_ne_artifact hout heq
      · rintro _ ⟨kind, F, hF, rfl⟩
        exact ⟨kind, F, (sources_within hroot undisturbed).below hF, rfl⟩
    have hload := @load_save project s.disk hroot
      { Engine.resume book project.traceFile disk with traces := s.traces } rfl
    rcases hload with hload | hload
    · exact ih ht (hkept ▸ hload ▸ hget)
    · have hget : s.traces.get? t = some trace :=
        (congrArg (fun traces : TraceTable => traces.get? t) hload).symm.trans hget
      exact genuine_of_requireAll hroot hbook hinj ih undisturbed requested hrun ht hget

/-! ### Bounds -/

section

variable (hroot : project.root.IsPlace) (hbook : project.rules = .ok book.rules)
  (hinj : Function.Injective book.digest) (h : project.History book disk)
  (hts : ∀ t ∈ ts, project.IsArtifact t)
  (hundisturbed : ∀ F, project.Within disk ts F → project.Undisturbed disk F)
  (run : Session.requireAll book depth ts
    ((Engine.resume book project.traceFile disk).session disk) = some (failed, s))
  {F : Path} (hF : F.IsBelow)
  (hdone : s.Done (ArtifactKind.transitive.artifact project.outputRoot F))

include hroot hbook hinj h hts hundisturbed run hF hdone

/-- A session does not change the imports of the sources that its artifacts are about. -/
theorem History.imports?_eq {G : Path} (hG : ReflTransGen (project.Follows disk) F G) :
    project.imports? s.disk G = project.imports? disk G := by
  have hgenuine := fun {t trace} => @History.genuine project book disk hroot hbook hinj h t trace
  have hs := sources_within hroot hundisturbed
  have hi := inv_bounds hroot hbook hinj hgenuine hundisturbed hts run
  obtain ⟨digest, hdigest⟩ := hdone
  obtain ⟨hsource, -⟩ := exists_of_done hroot hs rfl hi hF hdigest
  have hG : project.Within disk ts G := by
    induction hG with
    | refl => exact hsource
    | tail _ hfollows ih => exact hs.closed ih hfollows
  refine (hs.undisturbed hG _ (hi.reaches.mono ?_)).imports?
  rintro _ ⟨kind, H, hH, rfl⟩
  exact ⟨kind, H, hs.below hH, rfl⟩

/-- A transitive artifact that is done lists what its source and those that it takes over import, and
    nothing that its source does not reach, before and after the build, whatever happened before. -/
theorem History.bounds : ∃ built L,
    (Engine.resume book project.traceFile disk).build depth ts disk = some built ∧
      built.disk.importsOf .transitive project.outputRoot F = .ok L ∧
      project.Bounds disk F L ∧ project.Bounds s.disk F L := by
  have hgenuine := fun {t trace} => @History.genuine project book disk hroot hbook hinj h t trace
  have hcongr := fun G => @History.imports?_eq project book disk ts depth failed s hroot hbook hinj h
    hts hundisturbed run F hF hdone G
  obtain ⟨digest, hdigest⟩ := hdone
  obtain ⟨L, hL, hbounds⟩ :=
    bounds_of_requireAll hroot hbook hinj hgenuine hundisturbed hts run hF hdigest
  refine ⟨_, L, Engine.build_of_requireAll run, ?_, hbounds, hbounds.congr hcongr⟩
  refine importsOf_save hroot ?_ hF hL
  rintro path hpath
  exact (Option.some.inj hpath).symm

end

/-! ### Small histories -/

/-- Writing a source of the cycle leaves the trace file as it is. -/
theorem read_traceFile_write {c : Content} :
    ((Disk.writeIfChanged (.ofText "/w/b.c") c disk).2.read usual.traceFile).toOption =
      (disk.read usual.traceFile).toOption := by
  have hb : Path.ofText "/w/b.c" = Path.ofLocation [.ofText "w", .ofText "b.c"] := by
    decide
  have htrace : usual.traceFile = Path.ofLocation
      [.ofText "w", .ofText "_build", .ofText "deps", .ofText ".depcache-traces.json"] := by
    decide
  rw [hb, htrace]
  exact Disk.read_write_ofLocation (by decide) (by simp) (by decide)
    (by decide)

/-- The edit that breaks the cycle of the three sources. -/
def opened (disk : Disk) : Disk :=
  (Disk.writeIfChanged (.ofText "/w/b.c") (.ofText "#include \"x.h\"") disk).2

/-- Where the cycle is broken after a build, the next one goes on with the traces of that build. -/
theorem history_opened {before : Built} (run : (Engine.resume usualBook usual.traceFile ring).build
      depth [usualArtifact .transitive "a.c"] ring = some before)
    (hsaved : before.saved.toOption = some ()) :
    usual.History usualBook (opened before.disk) ∧
      Engine.resume usualBook usual.traceFile (opened before.disk) =
        .storing usualBook usual.traceFile before.engine.traces := by
  have hkept : ((opened before.disk).read usual.traceFile).toOption =
      (before.disk.read usual.traceFile).toOption := read_traceFile_write
  refine ⟨.edit (.build (.start (by decide)) ?_ ?_ run) hkept, ?_⟩
  · exact isArtifact_usual .transitive ["a.c"] (by decide)
  · exact undisturbed_usual ring .transitive ["a.c"] (["a.c", "b.c", "c.c", "x.h"].map .ofText)
      (by decide) (by decide) (by decide)
  · rw [resume_congr hkept]
    exact Engine.resume_of_saved rfl run (Disk.toOption_eq_some_iff.1 hsaved)

/-- The bounds hold of what is taken for clean after the cycle was broken, though it lacks a header
    that its source reaches. -/
theorem bounds_opened : ∃ before built,
    (Engine.resume usualBook usual.traceFile ring).build 6 [usualArtifact .transitive "a.c"] ring =
      some before ∧
    (Engine.resume usualBook usual.traceFile (opened before.disk)).build 6
      [usualArtifact .transitive "c.c"] (opened before.disk) = some built ∧
    built.disk.importsOf .transitive usual.outputRoot (.ofText "c.c") =
      .ok (["a.c", "b.c"].map .ofText) ∧
    usual.Bounds (opened before.disk) (.ofText "c.c") (["a.c", "b.c"].map .ofText) ∧
    usual.imports? (opened before.disk) (.ofText "b.c") = some [.ofText "x.h"] := by
  have hrun : ((Engine.resume usualBook usual.traceFile ring).build 6
      [usualArtifact .transitive "a.c"] ring).any (fun before =>
        (Session.requireAll usualBook 6 [usualArtifact .transitive "c.c"]
          ((Engine.storing usualBook usual.traceFile before.engine.traces).session
            (opened before.disk))).any fun r => decide (before.saved.toOption = some () ∧
              r.2.progress.get? (usualArtifact .transitive "c.c") = some (.done "a.c\nb.c\n") ∧
              (∀ G ∈ ["a.c", "b.c", "c.c", "x.h"].map Path.ofText,
                (∀ H ∈ (usual.imports? (opened before.disk) G).getD [],
                  H ∈ ["a.c", "b.c", "c.c", "x.h"].map Path.ofText) ∧
                ∀ p ∈ usual.root.join G :: usual.probes (opened before.disk) G,
                  p.IsPlace ∧ p.bytes.getLast? ≠ some 0x73) ∧
              r.2.disk.importsOf .transitive usual.outputRoot (.ofText "c.c") =
                .ok (["a.c", "b.c"].map .ofText) ∧
              usual.imports? (opened before.disk) (.ofText "b.c") = some [.ofText "x.h"])) = true := by
    decide +kernel
  obtain ⟨before, run, h⟩ := (Option.any_eq_true _ _).1 hrun
  obtain ⟨⟨failed, s⟩, run', h⟩ := (Option.any_eq_true _ _).1 h
  obtain ⟨hsaved, hdone, hsources, himports, hb⟩ := of_decide_eq_true h
  obtain ⟨hhistory, hresume⟩ := history_opened run hsaved
  rw [← hresume] at run'
  obtain ⟨built, L, hbuilt, hL, hbounds, -⟩ := hhistory.bounds (by decide +kernel) rules_usual
    Content.spelled_injective (isArtifact_usual .transitive ["c.c"] (by decide +kernel))
    (undisturbed_usual _ .transitive ["c.c"] (["a.c", "b.c", "c.c", "x.h"].map .ofText)
      (by decide +kernel) (fun G hG => (hsources G hG).1) fun G hG => (hsources G hG).2)
    run' (F := .ofText "c.c") (by decide +kernel) ⟨_, hdone⟩
  obtain rfl := Option.some.inj (hbuilt.symm.trans (Engine.build_of_requireAll run'))
  have hstore : ∀ path ∈ ({ Engine.resume usualBook usual.traceFile (opened before.disk) with
      traces := s.traces } : Engine).store, path = usual.traceFile :=
    fun _ h => (Option.some.inj h).symm
  have hlisted := importsOf_save (by decide +kernel) hstore (by decide +kernel) himports
  obtain rfl := Except.ok.inj (hL.symm.trans hlisted)
  exact ⟨before, _, run, hbuilt, hlisted, hbounds, hb⟩

/-- References that lead through the directory of the artifacts put lists out of bounds: what a source
    imports after the build is missing from one, and what a source imports only then is in the other. -/
theorem exists_out_of_bounds : usual.History usualBook detour ∧
    (∀ F ∈ ["a.c", "b.c"].map Path.ofText, ∀ p ∈ usual.probes detour F,
      ¬ p.normalize.StartsWith usual.outputRoot) ∧
    ∃ built L M, (Engine.resume usualBook usual.traceFile detour).build 3
        (["a.c", "b.c"].map (usualArtifact .transitive)) detour = some built ∧
      built.report.failed = [] ∧
      built.disk.importsOf .transitive usual.outputRoot (.ofText "a.c") = .ok L ∧
      built.disk.importsOf .transitive usual.outputRoot (.ofText "b.c") = .ok M ∧
      ¬ usual.Bounds built.disk (.ofText "a.c") L ∧ ¬ usual.Bounds detour (.ofText "b.c") M := by
  have hrun : ((Engine.resume usualBook usual.traceFile detour).build 3
      (["a.c", "b.c"].map (usualArtifact .transitive)) detour).any (fun built => decide
        (built.report.failed = [] ∧
          built.disk.importsOf .transitive usual.outputRoot (.ofText "a.c") = .ok [] ∧
          built.disk.importsOf .transitive usual.outputRoot (.ofText "b.c") = .ok [.ofText "x.h"] ∧
          usual.imports? built.disk (.ofText "a.c") = some [.ofText "x.h"])) = true := by
    decide +kernel
  obtain ⟨built, run, h⟩ := (Option.any_eq_true _ _).1 hrun
  obtain ⟨hfailed, ha, hb, himports⟩ := of_decide_eq_true h
  refine ⟨.start (by decide +kernel), by decide +kernel, built, _, _, run, hfailed, ha, hb,
    fun hbounds => ?_, fun hbounds => ?_⟩
  · have hmem := hbounds.direct ⟨_, himports, List.mem_singleton_self _⟩ (by decide +kernel)
    cases hmem
  · -- Before the build, the source imports nothing, so it reaches nothing.
    have hclosure : usual.closure? detour 1 (.ofText "b.c") = some [] := by decide +kernel
    have hreach := hbounds.reachable (List.mem_singleton_self _)
    cases (mem_closure hclosure).2 ⟨by decide +kernel, hreach⟩

end ImportIndex.Project
