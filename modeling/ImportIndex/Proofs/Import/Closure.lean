import ImportIndex.Proofs.Build.FromScratch
import ImportIndex.Proofs.Build.History
import ImportIndex.Proofs.Import.Bounds

/-!
# Transitive artifacts list closures

A transitive artifact is put together from those of the sources that its own source takes over, or
from their direct artifacts where they are cut off for a cycle. If nothing is cut off, it lists the
closure of its source (`exists_closure_of_settled`).

A session without traces cuts off nothing but what is part of a cycle. So a build from scratch makes
the closures of all sources that reach no cycle, in whatever order they are asked for
(`closure_of_build`). That artifacts disturb no source is needed for this: a reference may lead
through the directory that they are in (`exists_reference_through_artifacts`).
-/

namespace ImportIndex.Project

open Relation Tracked

variable {project : Project} {book : Rulebook} {disk disk' : Disk} {traces traces' : TraceTable}
  {sources : Path → Prop} {lists : Path → List Path → Prop} {refuses : Path → Failure → Prop}
  {within : Nat → Path → Prop} {scope : Scope} {done : Path → Prop} {F : Path} {c : Content}
  {ts : List Path}

/-- Whether no source that is reached from a source reaches itself. What a source imports from itself
    does not count. -/
def Acyclic (project : Project) (disk : Disk) (F : Path) : Prop :=
  ∀ G, ReflTransGen (project.Follows disk) F G → ¬ TransGen (project.Follows disk) G G

/-- Whether no trace of a source that is reached from a source is one of a transitive artifact in
    which an import was cut off, as it may have been refused for a cycle. -/
def Uncut (project : Project) (disk : Disk) (traces : TraceTable) (refuses : Path → Failure → Prop)
    (F : Path) : Prop :=
  ∀ G H trace, ReflTransGen (project.Follows disk) F G → project.Follows disk G H →
    traces.get? (ArtifactKind.transitive.artifact project.outputRoot G) = some trace →
    (∃ cause, refuses (ArtifactKind.transitive.artifact project.outputRoot H) cause ∧
      cause.isCycle = true) →
    ∀ d, .artifact (ArtifactKind.direct.artifact project.outputRoot H) d ∉ trace.deps

theorem Uncut.of_follows {G : Path} (h : project.Uncut disk traces refuses F)
    (hG : project.Follows disk F G) : project.Uncut disk traces refuses G :=
  fun H K trace hH => h H K trace (hH.head hG)

/-! ### Lists and closures -/

/-- One depth suffices for several closures. -/
theorem exists_closures {l : List Path} {parts : List (List Path)}
    (h : List.Forall₂ (fun G part => ∃ n, project.closure? disk n G = some part) l parts) :
    ∃ n, List.Forall₂ (fun G part => project.closure? disk n G = some part) l parts := by
  induction h with
  | nil => exact ⟨0, .nil⟩
  | cons hG _ ih =>
    obtain ⟨n, hn⟩ := hG
    obtain ⟨m, hm⟩ := ih
    refine ⟨max n m, .cons (closure?_mono (Nat.le_max_left n m) hn) (hm.imp fun _ _ h => ?_)⟩
    exact closure?_mono (Nat.le_max_right n m) h

theorem exists_closure_of_follows {n : Nat} {L : List Path} {G : Path}
    (h : project.closure? disk (n + 1) F = some L) (hG : project.Follows disk F G) :
    ∃ M, project.closure? disk n G = some M := by
  obtain ⟨ds, parts, hds, hparts, -⟩ := closure?_succ_eq_some.1 h
  obtain ⟨M, -, hM⟩ := exists_of_forall₂ hparts.flip ((mem_filter_takesOver hds).2 hG)
  exact ⟨M, hM⟩

/-- A source that has a closure reaches no cycle. -/
theorem acyclic_of_closure {n : Nat} {L : List Path} (h : project.closure? disk n F = some L) :
    project.Acyclic disk F := by
  -- On the way round a cycle each closure is less deep than the one before.
  have hturn : ∀ n G M, project.closure? disk n G = some M →
      ¬ TransGen (project.Follows disk) G G := by
    intro n
    induction n with
    | zero => exact fun _ _ h => by cases h
    | succ n ih =>
      intro G M hM hG
      obtain ⟨H, hH, hback⟩ := TransGen.head'_iff.1 hG
      obtain ⟨N, hN⟩ := exists_closure_of_follows hM hH
      exact ih H N hN (TransGen.tail' hback hH)
  intro G hG
  have hclosure : ∃ n L, project.closure? disk n G = some L := by
    induction hG with
    | refl => exact ⟨n, L, h⟩
    | tail _ hfollows ih =>
      obtain ⟨n, L, hL⟩ := ih
      obtain ⟨M, hM⟩ := exists_closure_of_follows (closure?_succ hL) hfollows
      exact ⟨n, M, hM⟩
  obtain ⟨m, M, hM⟩ := hclosure
  exact hturn m G M hM

theorem listing_inj {ps qs : List Path} (hp : ImportFamily.listing ps = .ok c)
    (hq : ImportFamily.listing qs = .ok c) : ps = qs := by
  obtain ⟨text, -, htext⟩ := exists_of_listing hp
  rw [← parse_listing hp htext, ← parse_listing hq htext]

section

variable (hroot : project.root.IsPlace) (hbook : project.rules = .ok book.rules)
  (hscope : scope = project.importScope book disk traces sources lists refuses within)

include hroot hbook hscope

/-- A transitive artifact is put together from those of the sources that its own source takes over,
    unless one of them was cut off. -/
theorem exists_of_recorded {made : Path → Content → Prop}
    (hmade : ∀ t c, made t c → project.Makes disk lists t c) {trace : Trace} {rule : Rule}
    (hF : F.IsBelow)
    (hfind : book.find (ArtifactKind.transitive.artifact project.outputRoot F) = .ok rule)
    (hsteps : Steps book (scope.recorded made trace) 0
      (rule.recipe (ArtifactKind.transitive.artifact project.outputRoot F)).run trace.deps
      (.done (.ok c)))
    (huncut : ∀ G, project.Follows disk F G →
      (∃ cause, refuses (ArtifactKind.transitive.artifact project.outputRoot G) cause ∧
        cause.isCycle = true) →
      ∀ d, .artifact (ArtifactKind.direct.artifact project.outputRoot G) d ∉ trace.deps) :
    ∃ ds parts, project.imports? disk F = some ds ∧
      List.Forall₂ (fun G part => ∃ c,
          made (ArtifactKind.transitive.artifact project.outputRoot G) c ∧
            ImportFamily.listing part = .ok c)
        (ds.filter (project.takesOver F)) parts ∧
      ImportFamily.listing ((ds ++ parts.flatten).filter (· ≠ F)).eraseDups = .ok c := by
  subst hscope
  have hw : project.Fits disk lists ((project.importScope book disk traces sources lists refuses
      within).recorded made trace) :=
    fits_of_makes hroot (fun _ => rfl) fun t c h => hmade t c h.1
  rcases (hw.transitive_meets hroot hbook hF hfind).steps hsteps with ⟨L, hL, hc⟩ | ⟨-, _, hc⟩
  · obtain ⟨ds, parts, hds, hparts, rfl⟩ := hL
    have himports := hw.gives_direct hF hds
    refine ⟨ds, parts, himports, forall₂_of_mem hparts fun G part hG hcontributes => ?_, hc.symm⟩
    have hfollows := (mem_filter_takesOver himports).1 hG
    rcases hcontributes with ⟨c', text, hc', htext, rfl⟩ | ⟨hrefused, c', _, hc', -⟩
    · obtain ⟨ps, hps, -, -⟩ := hw.transitive (hfollows.1.isBelow hroot) hc'
      exact ⟨c', hc'.1, by rwa [parse_listing hps htext]⟩
    · exact absurd hc'.2 (huncut G hfollows hrefused _)
  · cases hc

variable (hl : scope.Lawful) (hF : F.IsBelow)
  (huncut : project.Uncut disk traces' refuses F)
  (h : scope.Settled done traces' disk'
    (ArtifactKind.transitive.artifact project.outputRoot F) c)

include hl hF huncut h

/-- A transitive artifact that is settled is put together from others that are. -/
theorem exists_of_settled : ∃ ds parts, project.imports? disk F = some ds ∧
    List.Forall₂ (fun G part => ∃ c, scope.Settled done traces' disk'
        (ArtifactKind.transitive.artifact project.outputRoot G) c ∧
          ImportFamily.listing part = .ok c)
      (ds.filter (project.takesOver F)) parts ∧
    ImportFamily.listing ((ds ++ parts.flatten).filter (· ≠ F)).eraseDups = .ok c := by
  obtain ⟨rule, trace, hfind, hkept, hsteps⟩ := h.steps hl
  subst hscope
  refine exists_of_recorded hroot hbook rfl (fun t c h => h.makes hl) hF hfind hsteps ?_
  exact fun G hG hrefused => huncut F G trace .refl hG hkept hrefused

/-- A transitive artifact that is settled lists the closure of its source. -/
theorem exists_closure_of_settled : ∃ n L, project.closure? disk n F = some L ∧
    ImportFamily.listing L = .ok c := by
  have hclosure : ∀ G, G.IsBelow →
      ArtifactKind.transitive.artifact project.outputRoot F =
        ArtifactKind.transitive.artifact project.outputRoot G →
      project.Uncut disk traces' refuses G → ∃ n L, project.closure? disk n G = some L ∧
        ImportFamily.listing L = .ok c := by
    refine h.induct hl (motive := fun t c => ∀ G, G.IsBelow →
      t = ArtifactKind.transitive.artifact project.outputRoot G →
      project.Uncut disk traces' refuses G → ∃ n L, project.closure? disk n G = some L ∧
        ImportFamily.listing L = .ok c) ?_
    intro t c rule trace _ _ hfind hkept hsteps G hG ht hcut
    subst hscope ht
    obtain ⟨ds, parts, hds, hparts, hlisting⟩ := exists_of_recorded hroot hbook rfl
      (fun t c h => h.1.makes hl) hG hfind hsteps
      fun H hH hrefused => hcut G H trace .refl hH hkept hrefused
    -- The closures of the sources that it takes over are known.
    have hclosures : List.Forall₂ (fun H part => ∃ n, project.closure? disk n H = some part)
        (ds.filter (project.takesOver G)) parts := by
      refine forall₂_of_mem hparts fun H part hH ⟨c', ⟨_, hc'⟩, hpart⟩ => ?_
      have hfollows := (mem_filter_takesOver hds).1 hH
      obtain ⟨n, L, hn, hL⟩ := hc' H (hfollows.1.isBelow hroot) rfl (hcut.of_follows hfollows)
      exact ⟨n, listing_inj hL hpart ▸ hn⟩
    obtain ⟨n, hn⟩ := exists_closures hclosures
    exact ⟨n + 1, _, closure?_succ_eq_some.2 ⟨ds, parts, hds, hn, rfl⟩, hlisting⟩
  exact hclosure F hF rfl huncut

end

/-! ### Builds from scratch -/

/-- Whether a failure is that of a cycle only if the target is the transitive artifact of a source
    that takes over itself in turn. -/
def RefusesCycles (project : Project) (disk : Disk) (sources : Path → Prop) (t : Path)
    (cause : Failure) : Prop :=
  cause.isCycle = true → ∃ F, sources F ∧
    t = ArtifactKind.transitive.artifact project.outputRoot F ∧
      TransGen (project.Follows disk) F F

section

variable (hroot : project.root.IsPlace) (hbook : project.rules = .ok book.rules)

include hroot hbook

/-- A session without traces, which refuses nothing for a cycle that is not part of one. -/
theorem lawful_refusesCycles (hinj : Function.Injective book.digest)
    (hs : project.Sources disk sources) :
    (project.importScope book disk ∅ sources (fun _ _ => True)
      (project.RefusesCycles disk sources) fun _ _ => False).Lawful := by
  refine lawful_importScope hroot hbook hs hinj rfl ?_ ?_ ?_ ?_ ?_ ?_ ?_ ?_ ?_
  · intro t trace _ hget
    rw [PathTable.get?_empty] at hget
    cases hget
  · exact fun _ _ => trivial
  · exact fun {F} hF hcycle chain _ => ⟨F, hF, rfl, hcycle⟩
  · intro t cause _ hfind hcycle
    rw [Rulebook.isCycle_of_find hfind] at hcycle
    cases hcycle
  · exact fun _ _ _ hcycle => by cases hcycle
  · exact fun _ _ _ _ hcycle => by cases hcycle
  · exact fun _ _ hcycle => by cases hcycle
  · exact fun h => h
  · exact fun _ h _ => h

omit hbook in
theorem uncut_of_acyclic (hs : project.Sources disk sources)
    (hacyclic : project.Acyclic disk F) :
    project.Uncut disk traces' (project.RefusesCycles disk sources) F := by
  rintro G H trace hG hH - ⟨cause, hrefused, hcycle⟩
  obtain ⟨K, hK, heq, hturn⟩ := hrefused hcycle
  obtain ⟨-, rfl⟩ := ArtifactKind.artifact_inj (isPlace_outputRoot hroot.1)
    (hH.1.isBelow hroot) (hs.below hK) heq
  exact absurd hturn (hacyclic H (hG.tail hH))

end

section

variable {engine : Engine} (hroot : project.root.IsPlace)
  (hbook : project.rules = .ok engine.book.rules) (hempty : engine.traces = ∅)
  (hstore : ∀ path ∈ engine.store, path = project.traceFile) {depth : Nat}
  (hts : ∀ t ∈ ts, project.IsArtifact t)
  (hundisturbed : ∀ G, project.Within disk ts G → project.Undisturbed disk G) {built : Built}
  (run : engine.build depth ts disk = some built) (hF : F.IsBelow)
  (hmem : ArtifactKind.transitive.artifact project.outputRoot F ∈ ts)
  (hfailed : built.report.failureOf? (ArtifactKind.transitive.artifact project.outputRoot F) = none)

include hroot hbook hempty hstore hts hundisturbed run hF hmem hfailed

/-- A build without traces settles the targets that do not fail, and leaves the other artifacts as
    they are when it stores its traces. What the digest is makes no difference. -/
theorem exists_settled_of_build : ∃ (scope : Scope) (s : Session) (c : Content),
    scope = project.importScope { engine.book with digest := Content.spelled } disk ∅
      (project.Within disk ts) (fun _ _ => True)
      (project.RefusesCycles disk (project.Within disk ts)) (fun _ _ => False) ∧
    scope.Lawful ∧
    scope.Settled s.Done s.traces s.disk (ArtifactKind.transitive.artifact project.outputRoot F) c ∧
    ∀ (G : Path) c, G.IsBelow →
      s.disk.read (ArtifactKind.transitive.artifact project.outputRoot G) = .ok c →
        built.disk.read (ArtifactKind.transitive.artifact project.outputRoot G) = .ok c := by
  obtain ⟨failed, s, hrun, -, hreport, hsaved⟩ := Engine.exists_of_build_eq_some run
  rw [Engine.session, hempty] at hrun
  obtain ⟨s', hrun', hdisk, -⟩ := Session.exists_requireAll_of_digest hrun Content.spelled
  have hbook' : project.rules = .ok ({ engine.book with digest := Content.spelled } : Rulebook).rules :=
    hbook
  have hs := sources_within hroot hundisturbed
  have hl := lawful_refusesCycles hroot hbook' Content.spelled_injective hs
  obtain ⟨hi, -, hends, -⟩ := (Scope.requireAll_ends hl (Scope.inv_session hl) rfl
    fun t ht => exists_within_of_mem hts ht).1 _ _ hrun'
  have hdone : s'.Done (ArtifactKind.transitive.artifact project.outputRoot F) := by
    refine (hends _ hmem).resolve_left fun ⟨cause, hcause⟩ => ?_
    rw [Report.failureOf?, hreport, Option.map_eq_none_iff, List.find?_eq_none] at hfailed
    exact hfailed _ hcause (decide_eq_true rfl)
  obtain ⟨digest, hdigest⟩ := hdone
  obtain ⟨-, c, hc⟩ := exists_of_done hroot hs rfl hi hF hdigest
  refine ⟨_, s', c, rfl, hl, hc, fun G d hG hread => Disk.toOption_eq_some_iff.1 ?_⟩
  have hout : project.outputRoot.IsPlace := isPlace_outputRoot hroot.1
  have hstore' : ∀ path ∈ ({ engine with traces := s.traces } : Engine).store,
      path = project.traceFile := hstore
  have hkept : (built.disk.read (ArtifactKind.transitive.artifact project.outputRoot G)).toOption =
      (s.disk.read (ArtifactKind.transitive.artifact project.outputRoot G)).toOption := by
    rw [(Prod.mk.inj hsaved).2]
    exact read_save hroot hstore' (ArtifactKind.isPlace_artifact hout hG)
      (traceFile_ne_artifact hout).symm
  rw [hkept, ← hdisk, hread]
  rfl

/-- A build without traces makes the closures of all sources that reach no cycle: their direct
    imports, followed by what those that they take over list. -/
theorem closure_of_build (hacyclic : project.Acyclic disk F) :
    ∃ ds parts L, project.imports? disk F = some ds ∧
      List.Forall₂ (fun G part =>
          built.disk.importsOf .transitive project.outputRoot G = .ok part)
        (ds.filter (project.takesOver F)) parts ∧
      built.disk.importsOf .transitive project.outputRoot F = .ok L ∧
      L = ((ds ++ parts.flatten).filter (· ≠ F)).eraseDups ∧
      L.Nodup ∧ ∀ G, G ∈ L ↔ G ≠ F ∧ project.Reaches disk F G := by
  obtain ⟨scope, s, c, hscope, hl, hc, hread⟩ :=
    exists_settled_of_build hroot hbook hempty hstore hts hundisturbed run hF hmem hfailed
  have hbook' : project.rules = .ok ({ engine.book with digest := Content.spelled } : Rulebook).rules :=
    hbook
  have huncut : project.Uncut disk s.traces (project.RefusesCycles disk (project.Within disk ts)) F :=
    uncut_of_acyclic hroot (sources_within hroot hundisturbed) hacyclic
  obtain ⟨ds, parts, hds, hparts, hlisting⟩ :=
    exists_of_settled hroot hbook' hscope hl hF huncut hc
  obtain ⟨n, L, hn, hL⟩ := exists_closure_of_settled hroot hbook' hscope hl hF huncut hc
  obtain rfl := listing_inj hL hlisting
  refine ⟨ds, parts, _, hds, ?_, importsOf_eq (hread F c hF hc.read) hL, rfl, nodup_eraseDups _,
    fun G => mem_closure hn⟩
  refine forall₂_of_mem hparts fun G part hG ⟨c', hc', hpart⟩ => ?_
  have himports : project.Imports disk F G := ⟨ds, hds, List.mem_of_mem_filter hG⟩
  exact importsOf_eq (hread G c' (himports.isBelow hroot) hc'.read) hpart

end

/-! ### Small builds -/

/-- Sources that import one another without a cycle, apart from `a.c`, which imports itself. -/
def diamond : Disk :=
  usualDisk [("a.c", "#include \"b.c\"\n#include \"x.h\"\n#include \"a.c\""),
    ("b.c", "#include \"x.h\"\n#include \"y.h\""), ("x.h", "#include \"y.h\""), ("y.h", "")]

theorem closure_of_build_diamond : ∃ built,
    Engine.build { book := usualBook } 4 (["x.h", "a.c", "x.h"].map (usualArtifact .transitive))
      diamond = some built ∧
    ∃ L, built.disk.importsOf .transitive usual.outputRoot (.ofText "a.c") = .ok L ∧ L.Nodup ∧
      ∀ G, G ∈ L ↔ G ≠ .ofText "a.c" ∧ usual.Reaches diamond (.ofText "a.c") G := by
  have hrun : (Engine.build { book := usualBook } 4
      (["x.h", "a.c", "x.h"].map (usualArtifact .transitive)) diamond).map
        (·.report.failureOf? (usualArtifact .transitive "a.c")) = some none := by
    decide +kernel
  obtain ⟨built, run, hfailed⟩ := Option.map_eq_some_iff.1 hrun
  have hts := isArtifact_usual .transitive ["x.h", "a.c", "x.h"] (by decide +kernel)
  have hundisturbed := undisturbed_usual diamond .transitive ["x.h", "a.c", "x.h"]
    (["a.c", "b.c", "x.h", "y.h"].map .ofText) (by decide +kernel) (by decide +kernel)
    (by decide +kernel)
  have hmem : usualArtifact .transitive "a.c" ∈
      ["x.h", "a.c", "x.h"].map (usualArtifact .transitive) :=
    List.mem_map_of_mem (List.mem_cons_of_mem _ List.mem_cons_self)
  have hbook : usual.rules = .ok ({ book := usualBook } : Engine).book.rules := rules_usual
  obtain ⟨_, _, L, -, -, hL, -, hnodup, hmem⟩ := closure_of_build (by decide +kernel) hbook rfl
    (by simp) hts hundisturbed run (by decide +kernel) hmem hfailed
    (acyclic_of_closure (n := 4) (L := ["b.c", "x.h", "y.h"].map .ofText) (by decide +kernel))
  exact ⟨built, run, L, hL, hnodup, hmem⟩

/-- A reference that leads through the directory of the artifacts finds its file as soon as that is
    made. So two sources that say the same are listed with different imports by one build, although
    nothing is looked for among the artifacts. -/
theorem exists_reference_through_artifacts :
    (∀ F ∈ ["a.c", "b.c"].map Path.ofText, usual.Acyclic detour F ∧
      ∀ p ∈ usual.probes detour F, ¬ p.normalize.StartsWith usual.outputRoot) ∧
    ∃ built, Engine.build { book := usualBook } 3 (["a.c", "b.c"].map (usualArtifact .transitive))
        detour = some built ∧ built.report.failed = [] ∧
      built.disk.importsOf .transitive usual.outputRoot (.ofText "a.c") = .ok [] ∧
      built.disk.importsOf .transitive usual.outputRoot (.ofText "b.c") = .ok [.ofText "x.h"] ∧
      ∀ F ∈ ["a.c", "b.c"].map Path.ofText, usual.imports? detour F = some [] ∧
        usual.imports? built.disk F = some [.ofText "x.h"] := by
  refine ⟨fun F hF => ⟨?_, ?_⟩, ?_⟩
  · have hclosure : ∀ F ∈ ["a.c", "b.c"].map Path.ofText, usual.closure? detour 1 F = some [] := by
      decide +kernel
    exact acyclic_of_closure (hclosure F hF)
  · revert F
    decide +kernel
  · have hrun : (Engine.build { book := usualBook } 3
        (["a.c", "b.c"].map (usualArtifact .transitive)) detour).any (fun built => decide
          (built.report.failed = [] ∧
            built.disk.importsOf .transitive usual.outputRoot (.ofText "a.c") = .ok [] ∧
            built.disk.importsOf .transitive usual.outputRoot (.ofText "b.c") =
              .ok [.ofText "x.h"] ∧
            ∀ F ∈ ["a.c", "b.c"].map Path.ofText, usual.imports? detour F = some [] ∧
              usual.imports? built.disk F = some [.ofText "x.h"])) = true := by
      decide +kernel
    obtain ⟨built, run, hbuilt⟩ := (Option.any_eq_true _ _).1 hrun
    exact ⟨built, run, of_decide_eq_true hbuilt⟩

end ImportIndex.Project
