import ImportIndex.Proofs.Import.History
import ImportIndex.Proofs.Import.Region

/-!
# What is left of cycles

Where sources import one another in a cycle, a transitive artifact is put together from direct
artifacts of those that are cut off. Its trace then tells of these direct artifacts only, and not of
what lies behind them. So after an edit that breaks the cycle it may be taken for clean, although what
lies behind has changed (`exists_stale_closure`).

* `History.closure_of_whole`: if no trace that a source leads to was cut off so, its transitive
  artifact holds its closure, whatever happened before;
* `History.build_agrees`: it is then what a build from scratch makes.
-/

namespace ImportIndex.Project

open Relation

variable {project : Project} {book : Rulebook} {disk disk' : Disk} {ts : List Path} {depth : Nat}
  {failed : List (Path × Failure)} {s : Session} {F : Path} {c : Content}

/-- Whether no transitive artifact that a source leads to was put together from the direct artifact of
    a source that it takes over. -/
def Whole (project : Project) (disk : Disk) (traces : TraceTable) (F : Path) : Prop :=
  ∀ G H trace, ReflTransGen (project.Follows disk) F G → project.Follows disk G H →
    traces.get? (ArtifactKind.transitive.artifact project.outputRoot G) = some trace →
      ∀ d ∈ trace.deps, d.question ≠ .artifact (ArtifactKind.direct.artifact project.outputRoot H)

theorem Whole.uncut {traces : TraceTable} {refuses : Path → Failure → Prop}
    (h : project.Whole disk traces F) : project.Uncut disk traces refuses F :=
  fun G H trace hG hH hget _ _ hd => h G H trace hG hH hget _ hd rfl

/-- Sources that import nothing but one another are to be looked at only. -/
theorem whole_of_mem {traces : TraceTable} {sources : List Path}
    (hclosed : ∀ F ∈ sources, ∀ G ∈ (project.imports? disk F).getD [], G ∈ sources)
    (h : ∀ G ∈ sources, ∀ trace ∈
      traces.get? (ArtifactKind.transitive.artifact project.outputRoot G), ∀ d ∈ trace.deps,
        ∀ H ∈ sources, H ≠ G →
          d.question ≠ .artifact (ArtifactKind.direct.artifact project.outputRoot H))
    (hF : F ∈ sources) : project.Whole disk traces F := by
  intro G H trace hG hfollows hget d hd
  have hH := mem_of_reflTransGen hclosed hF (hG.tail hfollows)
  exact h G (mem_of_reflTransGen hclosed hF hG) trace hget d hd H hH hfollows.ne

/-- Disks that agree on all that a source leads to agree on what it makes. -/
theorem alikeOn_of_agreeOn {sources : Path → Prop}
    (h : ∀ G, sources G → project.AgreeOn disk disk' G) :
    project.AlikeOn project disk disk' sources :=
  ⟨fun hG => (h _ hG).imports?, fun _ _ => rfl⟩

section

variable (hroot : project.root.IsPlace) (hbook : project.rules = .ok book.rules)
  (hinj : Function.Injective book.digest) (h : project.History book disk)
  (hts : ∀ t ∈ ts, project.IsArtifact t)
  (hundisturbed : ∀ F, project.Within disk ts F → project.Undisturbed disk F)
  (run : Session.requireAll book depth ts
    ((Engine.resume book project.traceFile disk).session disk) = some (failed, s))
  (hF : F.IsBelow) (hdone : s.Done (ArtifactKind.transitive.artifact project.outputRoot F))
  (hwhole : project.Whole disk s.traces F)

include hroot hbook hinj h hts hundisturbed run hF hdone hwhole

/-- A transitive artifact that is done holds the closure of its source, if nothing that this leads to
    was cut off. -/
theorem History.closure_of_whole : ∃ n L c, project.closure? disk n F = some L ∧
    ImportFamily.listing L = .ok c ∧
    s.disk.read (ArtifactKind.transitive.artifact project.outputRoot F) = .ok c := by
  have hgenuine := fun {t trace} => @History.genuine project book disk hroot hbook hinj h t trace
  have hl := lawful_bounds hroot hbook hinj hgenuine hundisturbed
  have hi := inv_bounds hroot hbook hinj hgenuine hundisturbed hts run
  obtain ⟨digest, hdigest⟩ := hdone
  obtain ⟨-, c, hc⟩ := exists_of_done hroot (sources_within hroot hundisturbed) rfl hi hF hdigest
  obtain ⟨n, L, hL, hlisting⟩ :=
    exists_closure_of_settled hroot hbook rfl hl hF hwhole.uncut hc
  exact ⟨n, L, c, hL, hlisting, hc.read⟩

/-- A transitive artifact that is done is what a build from scratch makes, if nothing that its source
    leads to was cut off. -/
theorem History.build_agrees : ∃ built c,
    (Engine.resume book project.traceFile disk).build depth ts disk = some built ∧
    built.disk.read (ArtifactKind.transitive.artifact project.outputRoot F) = .ok c ∧
    project.Makes disk (project.IsClosure disk)
      (ArtifactKind.transitive.artifact project.outputRoot F) c ∧
    ∀ disk₀ ts₀ depth₀ alone, (disk₀.read project.traceFile).toOption = none →
      (∀ G, ReflTransGen (project.Follows disk) F G →
        project.AgreeOn disk disk₀ G ∧ project.Unaffected disk₀ G) →
      (∀ t ∈ ts₀, project.IsArtifact t) →
      ArtifactKind.transitive.artifact project.outputRoot F ∈ ts₀ →
      (Engine.resume book project.traceFile disk₀).build depth₀ ts₀ disk₀ = some alone →
      alone.report.failureOf? (ArtifactKind.transitive.artifact project.outputRoot F) = none →
        alone.disk.read (ArtifactKind.transitive.artifact project.outputRoot F) = .ok c := by
  obtain ⟨n, L, c, hL, hlisting, hread⟩ :=
    h.closure_of_whole hroot hbook hinj hts hundisturbed run hF hdone hwhole
  have hmakes : project.Makes disk (project.IsClosure disk)
      (ArtifactKind.transitive.artifact project.outputRoot F) c := by
    refine ⟨.transitive, F, L, hF, rfl, hlisting, fun p hp => ?_, n, hL⟩
    obtain ⟨G, hG, himports⟩ := ((mem_closure hL).1 hp).2
    exact himports.isBelow hroot
  refine ⟨_, c, Engine.build_of_requireAll run, Disk.toOption_eq_some_iff.1 ?_, hmakes, ?_⟩
  · have hkept := @read_save project s.disk hroot
      { Engine.resume book project.traceFile disk with traces := s.traces }
      (fun _ h => (Option.some.inj h).symm) (ArtifactKind.transitive.artifact project.outputRoot F)
      (ArtifactKind.isPlace_artifact (isPlace_outputRoot hroot.1) hF)
      (traceFile_ne_artifact (isPlace_outputRoot hroot.1)).symm
    rw [hkept, hread]
    rfl
  · intro disk₀ ts₀ depth₀ alone hnew hagree hts₀ hmem run₀ hfailed
    have halike : project.AlikeOn project disk disk₀ (ReflTransGen (project.Follows disk) F) :=
      alikeOn_of_agreeOn fun G hG => (hagree G hG).1
    have hclosed : ∀ {G H}, ReflTransGen (project.Follows disk) F G → project.Follows disk G H →
        ReflTransGen (project.Follows disk) F H := fun hG hH => hG.tail hH
    -- The closure is one of the other disk as well, so its sources are a region there.
    have himports := fun G hG => (hagree G hG).1.imports?
    have hacyclic : project.Acyclic disk₀ F := acyclic_of_closure ((closure?_congr himports).trans hL)
    have hregion := Region.of_acyclic hroot hF hacyclic fun G hG =>
      (hagree G ((reflTransGen_congr himports).1 hG)).2
    obtain ⟨d, hd, hmakes₀⟩ := makes_of_new hroot hbook (fun _ h => (Option.some.inj h).symm)
      (TraceTable.load_eq_empty hnew) hregion hts₀ run₀ hF .refl hmem hfailed
    rw [hd, hmakes.unique hroot hF (halike.makes hclosed hroot rfl hF .refl hmakes₀)]

end

/-! ### After a cycle was broken -/

/-- The sources of the cycle after the edit that breaks it, and nothing else. -/
def openRing : Disk :=
  usualDisk [("a.c", "#include \"b.c\""), ("b.c", "#include \"x.h\""),
    ("c.c", "#include \"a.c\""), ("x.h", "")]

/-- The source that the cycle was broken at is made anew. -/
theorem build_agrees_opened : ∃ before built c,
    (Engine.resume usualBook usual.traceFile ring).build 6 [usualArtifact .transitive "a.c"] ring =
      some before ∧
    (Engine.resume usualBook usual.traceFile (opened before.disk)).build 6
      [usualArtifact .transitive "b.c"] (opened before.disk) = some built ∧
    built.disk.read (usualArtifact .transitive "b.c") = .ok c ∧
    ∀ alone, (Engine.resume usualBook usual.traceFile openRing).build 6
        [usualArtifact .transitive "b.c"] openRing = some alone →
      alone.report.failureOf? (usualArtifact .transitive "b.c") = none →
        alone.disk.read (usualArtifact .transitive "b.c") = .ok c := by
  have hrun : ((Engine.resume usualBook usual.traceFile ring).build 6
      [usualArtifact .transitive "a.c"] ring).any (fun before =>
        (Session.requireAll usualBook 6 [usualArtifact .transitive "b.c"]
          ((Engine.storing usualBook usual.traceFile before.engine.traces).session
            (opened before.disk))).any fun r => decide (before.saved.toOption = some () ∧ r.1 = [] ∧
              (∀ G ∈ ["b.c", "x.h"].map Path.ofText,
                (∀ H ∈ (usual.imports? (opened before.disk) G).getD [],
                  H ∈ ["b.c", "x.h"].map Path.ofText) ∧
                ∀ p ∈ usual.root.join G :: usual.probes (opened before.disk) G,
                  (p.IsPlace ∧ p.bytes.getLast? ≠ some 0x73) ∧
                    (openRing.read p).toOption = ((opened before.disk).read p).toOption) ∧
              ∀ G ∈ ["b.c", "x.h"].map Path.ofText, ∀ trace ∈
                r.2.traces.get? (ArtifactKind.transitive.artifact usual.outputRoot G),
                  ∀ d ∈ trace.deps, ∀ H ∈ ["b.c", "x.h"].map Path.ofText, H ≠ G → d.question ≠
                    .artifact (ArtifactKind.direct.artifact usual.outputRoot H))) = true := by
    decide +kernel
  obtain ⟨before, run, h⟩ := (Option.any_eq_true _ _).1 hrun
  obtain ⟨⟨failed, s⟩, run', h⟩ := (Option.any_eq_true _ _).1 h
  obtain ⟨hsaved, rfl, hsources, htraces⟩ := of_decide_eq_true h
  have hclosed := fun G hG => (hsources G hG).1
  obtain ⟨hhistory, hresume⟩ := history_opened run hsaved
  rw [← hresume] at run'
  have hmem : usualArtifact .transitive "b.c" ∈ [usualArtifact .transitive "b.c"] :=
    List.mem_singleton_self _
  have hdone : s.Done (usualArtifact .transitive "b.c") :=
    ((Session.requireAll_served.1 _ _ run').2 _ hmem).resolve_left (by simp)
  obtain ⟨built, c, hbuilt, hc, -, halone⟩ := hhistory.build_agrees (by decide +kernel) rules_usual
    Content.spelled_injective (isArtifact_usual .transitive ["b.c"] (by decide +kernel))
    (undisturbed_usual _ .transitive ["b.c"] (["b.c", "x.h"].map .ofText) (by decide +kernel) hclosed
      fun G hG p hp => ((hsources G hG).2 p hp).1) run' (F := .ofText "b.c") (by decide +kernel)
    hdone (whole_of_mem hclosed htraces (by decide +kernel))
  refine ⟨before, built, c, run, hbuilt, hc, fun alone run₀ hfailed => ?_⟩
  have hclear : ∀ G ∈ ["b.c", "x.h"].map Path.ofText,
      ∀ p ∈ usual.root.join G :: usual.probes openRing G,
        p.IsPlace ∧ p.bytes.getLast? ≠ some 0x73 ∧ p.bytes.getLast? ≠ some 0x6E := by
    decide +kernel
  refine halone openRing _ 6 alone (by decide +kernel) (fun G hG => ?_)
    (isArtifact_usual .transitive ["b.c"] (by decide +kernel)) hmem run₀ hfailed
  have hG := mem_of_reflTransGen hclosed (by decide +kernel) hG
  exact ⟨.of_read fun p hp => ((hsources G hG).2 p hp).2,
    unaffected_of_getLast? (by decide +kernel) (hclear G hG)⟩

/-- After a cycle was broken, an artifact that was cut off is taken for clean: it lacks a header that
    its source reaches now without any cycle. -/
theorem exists_stale_closure : ∃ before after alone,
    (Engine.resume usualBook usual.traceFile ring).build 6 [usualArtifact .transitive "a.c"] ring =
      some before ∧
    usual.History usualBook (opened before.disk) ∧
    usual.Acyclic (opened before.disk) (.ofText "c.c") ∧
    (∀ F ∈ ["a.c", "b.c", "c.c", "x.h"].map Path.ofText,
      usual.AgreeOn (opened before.disk) openRing F ∧
      ∀ p ∈ usual.probes ring F ++ usual.probes openRing F,
        ¬ p.normalize.StartsWith usual.outputRoot) ∧
    (Engine.resume usualBook usual.traceFile (opened before.disk)).build 6
      [usualArtifact .transitive "c.c"] (opened before.disk) = some after ∧
    (Engine.resume usualBook usual.traceFile openRing).build 6
      [usualArtifact .transitive "c.c"] openRing = some alone ∧
    after.report.failed = [] ∧ alone.report.failed = [] ∧
    after.disk.importsOf .transitive usual.outputRoot (.ofText "c.c") =
      .ok (["a.c", "b.c"].map .ofText) ∧
    alone.disk.importsOf .transitive usual.outputRoot (.ofText "c.c") =
      .ok (["a.c", "b.c", "x.h"].map .ofText) := by
  have hrun : ((Engine.resume usualBook usual.traceFile ring).build 6
      [usualArtifact .transitive "a.c"] ring).any (fun before =>
        (Session.requireAll usualBook 6 [usualArtifact .transitive "c.c"]
          ((Engine.storing usualBook usual.traceFile before.engine.traces).session
            (opened before.disk))).any fun r => decide (before.saved.toOption = some () ∧ r.1 = [] ∧
              (∀ F ∈ ["a.c", "b.c", "c.c", "x.h"].map Path.ofText,
                ∀ p ∈ usual.root.join F :: usual.probes (opened before.disk) F,
                  (openRing.read p).toOption = ((opened before.disk).read p).toOption) ∧
              r.2.disk.importsOf .transitive usual.outputRoot (.ofText "c.c") =
                .ok (["a.c", "b.c"].map .ofText) ∧
              usual.closure? (opened before.disk) 4 (.ofText "c.c") =
                some (["a.c", "b.c", "x.h"].map .ofText))) = true := by
    decide +kernel
  have hrun₀ : ((Engine.resume usualBook usual.traceFile openRing).build 6
      [usualArtifact .transitive "c.c"] openRing).any (fun alone =>
        decide (alone.report.failed = [] ∧
          alone.disk.importsOf .transitive usual.outputRoot (.ofText "c.c") =
            .ok (["a.c", "b.c", "x.h"].map .ofText))) = true := by
    decide +kernel
  have hprobes : ∀ F ∈ ["a.c", "b.c", "c.c", "x.h"].map Path.ofText,
      ∀ p ∈ usual.probes ring F ++ usual.probes openRing F,
        ¬ p.normalize.StartsWith usual.outputRoot := by
    decide +kernel
  obtain ⟨before, run, h⟩ := (Option.any_eq_true _ _).1 hrun
  obtain ⟨⟨failed, s⟩, run', h⟩ := (Option.any_eq_true _ _).1 h
  obtain ⟨alone, run₀, h₀⟩ := (Option.any_eq_true _ _).1 hrun₀
  obtain ⟨hsaved, rfl, hreads, himports, hclosure⟩ := of_decide_eq_true h
  obtain ⟨hfailed₀, himports₀⟩ := of_decide_eq_true h₀
  obtain ⟨hhistory, hresume⟩ := history_opened run hsaved
  have hafter := @Engine.build_of_requireAll (.storing usualBook usual.traceFile before.engine.traces)
    6 [usualArtifact .transitive "c.c"] (opened before.disk) [] s run'
  rw [← hresume] at hafter
  refine ⟨before, _, alone, run, hhistory, acyclic_of_closure hclosure, fun F hF =>
    ⟨.of_read (hreads F hF), hprobes F hF⟩, hafter, run₀, rfl, hfailed₀, ?_, himports₀⟩
  exact importsOf_save (by decide +kernel) (fun _ h => (Option.some.inj h).symm) (by decide +kernel)
    himports

end ImportIndex.Project
