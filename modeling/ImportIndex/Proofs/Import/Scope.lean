import ImportIndex.Proofs.Build.Require
import ImportIndex.Proofs.Import.Graph

/-!
# Sessions that make artifacts

In a session that makes artifacts of some sources and of those that they take over, direct artifacts
hold the direct imports. What transitive artifacts may hold depends on what is known of the session
(`Project.importScope`). It has to be kept when imports are put together (`World.Collects`), as one
of the conditions under which the scope is lawful (`lawful_importScope`).
-/

namespace ImportIndex

open Tracked

namespace Project

/-- Whether sources can be worked on together: they lie below the root, are not disturbed, and take
    over nothing but one another. -/
structure Sources (project : Project) (disk : Disk) (sources : Path → Prop) : Prop where
  /-- They lie below the root. -/
  below : ∀ {F}, sources F → F.IsBelow
  /-- They take over one another. -/
  closed : ∀ {F G}, sources F → project.Follows disk F G → sources G
  /-- They are not disturbed. -/
  undisturbed : ∀ {F}, sources F → project.Undisturbed disk F

/-- The contents that artifacts may have: direct ones list the direct imports, and transitive ones
    what `lists` says. -/
def Makes (project : Project) (disk : Disk) (lists : Path → List Path → Prop) (t : Path)
    (c : Content) : Prop :=
  ∃ (kind : ArtifactKind) (F : Path) (ps : List Path),
    F.IsBelow ∧ t = kind.artifact project.outputRoot F ∧ ImportFamily.listing ps = .ok c ∧
      (∀ p ∈ ps, p.IsBelow) ∧
      match kind with
      | .direct => project.imports? disk F = some ps
      | .transitive => lists F ps

/-- A session that makes artifacts of sources. -/
def importScope (project : Project) (book : Rulebook) (disk : Disk) (traces : TraceTable)
    (sources : Path → Prop) (lists : Path → List Path → Prop) (refuses : Path → Failure → Prop)
    (within : Nat → Path → Prop) : Scope where
  book := book
  disk := disk
  traces := traces
  allowed t := ∃ (kind : ArtifactKind) (F : Path),
    sources F ∧ t = kind.artifact project.outputRoot F
  makes := project.Makes disk lists
  refuses := refuses
  within := within

end Project

/-- Whether these are the imports of a source, put together from its direct imports and from what
    those that it takes over contribute. -/
def World.Collects (w : World) (project : Project) (F : Path) (L : List Path) : Prop :=
  ∃ ds parts, w.Gives .direct project.outputRoot F ds ∧
    List.Forall₂ (w.Contributes project.outputRoot) (ds.filter (project.takesOver F)) parts ∧
      L = ((ds ++ parts.flatten).filter (· ≠ F)).eraseDups

namespace Project

variable {project : Project} {book : Rulebook} {disk : Disk} {traces : TraceTable}
  {sources : Path → Prop} {lists : Path → List Path → Prop} {refuses : Path → Failure → Prop}
  {within : Nat → Path → Prop} {w : World} {F G : Path} {ps : List Path} {rule : Rule}

/-- Whether a world has the files of a disk, and artifacts that a session may make. -/
structure Fits (project : Project) (disk : Disk) (lists : Path → List Path → Prop) (w : World) :
    Prop where
  /-- The files. -/
  content : ∀ p, w.content p = (disk.read p).toOption
  /-- The direct artifacts. -/
  direct : ∀ {F c}, F.IsBelow → w.makes (ArtifactKind.direct.artifact project.outputRoot F) c →
    ∃ ps, ImportFamily.listing ps = .ok c ∧ project.imports? disk F = some ps
  /-- The transitive artifacts. -/
  transitive : ∀ {F c}, F.IsBelow →
    w.makes (ArtifactKind.transitive.artifact project.outputRoot F) c →
      ∃ ps, ImportFamily.listing ps = .ok c ∧ (∀ p ∈ ps, p.IsBelow) ∧ lists F ps

theorem exists_of_listing {c : Content} (h : ImportFamily.listing ps = .ok c) :
    ∃ text, Listing.render ps = .ok text ∧ c.toText? = some text := by
  rw [ImportFamily.listing] at h
  obtain ⟨text, htext, rfl⟩ := Disk.map_eq_ok_iff.1 h
  exact ⟨text, htext, Content.toText?_ofText text⟩

/-- What an artifact lists is read back. -/
theorem parse_listing {c : Content} {text : String} (h : ImportFamily.listing ps = .ok c)
    (htext : c.toText? = some text) : Listing.parse text = ps := by
  obtain ⟨text', hrender, htext'⟩ := exists_of_listing h
  obtain rfl := Option.some.inj (htext.symm.trans htext')
  exact Listing.parse_render hrender

namespace Fits

variable (hw : project.Fits disk lists w)

include hw

theorem gives_direct (hF : F.IsBelow) (h : w.Gives .direct project.outputRoot F ps) :
    project.imports? disk F = some ps := by
  obtain ⟨c, text, hc, htext, rfl⟩ := h
  obtain ⟨ps, hps, himports⟩ := hw.direct hF hc
  rwa [parse_listing hps htext]

theorem gives_transitive (hF : F.IsBelow) (h : w.Gives .transitive project.outputRoot F ps) :
    (∀ p ∈ ps, p.IsBelow) ∧ lists F ps := by
  obtain ⟨c, text, hc, htext, rfl⟩ := h
  obtain ⟨ps, hps, hlists⟩ := hw.transitive hF hc
  rwa [parse_listing hps htext]

variable (hroot : project.root.IsPlace)

include hroot

/-- What is contributed is what may be listed, or the direct imports if it was refused for a
    cycle. -/
theorem contributes (hF : F.IsBelow) (h : w.Contributes project.outputRoot F ps) :
    (∀ p ∈ ps, p.IsBelow) ∧ (lists F ps ∨
      (∃ cause, w.refuses (ArtifactKind.transitive.artifact project.outputRoot F) cause ∧
        cause.isCycle = true) ∧ project.imports? disk F = some ps) := by
  rcases h with h | ⟨hrefused, h⟩
  · exact ⟨(hw.gives_transitive hF h).1, .inl (hw.gives_transitive hF h).2⟩
  · have hps := hw.gives_direct hF h
    exact ⟨fun p hp => isBelow_of_imports? hroot hps hp, .inr ⟨hrefused, hps⟩⟩

/-- All that is collected lies below the project root. -/
theorem isBelow_of_collects (hF : F.IsBelow) {L : List Path} (h : w.Collects project F L) :
    ∀ p ∈ L, p.IsBelow := by
  obtain ⟨ds, parts, hds, hparts, rfl⟩ := h
  have himports := hw.gives_direct hF hds
  have hbelow : ∀ p ∈ ds, p.IsBelow := fun p hp => isBelow_of_imports? hroot himports hp
  intro p hp
  rcases (mem_collected.1 hp).1 with hp | ⟨part, hpart, hp⟩
  · exact hbelow p hp
  · obtain ⟨G, hG, hcontributes⟩ := exists_of_forall₂ hparts hpart
    exact (hw.contributes hroot (hbelow G (List.mem_of_mem_filter hG)) hcontributes).1 p hp

theorem collects_of_assembles (hF : F.IsBelow) {family : Family} {scanner : Scanner}
    (hfamily : Family.of? project.settings F = some family) {L : List Path}
    (h : w.Assembles project.outputRoot (project.importFamily family scanner).owns F L) :
    w.Collects project F L := by
  obtain ⟨ds, parts, hds, hparts, rfl⟩ := h
  have himports := hw.gives_direct hF hds
  have hbelow : ∀ p ∈ ds, p.IsBelow := fun p hp => isBelow_of_imports? hroot himports hp
  have hfilter : ds.filter (expands (project.importFamily family scanner).owns F) =
      ds.filter (project.takesOver F) :=
    List.filter_congr fun p hp => expands_eq hF (hbelow p hp) hfamily
  rw [hfilter] at hparts
  refine ⟨ds, parts, hds, hparts, firstSeen_eq hF fun p hp => ?_⟩
  rcases List.mem_append.1 hp with hp | hp
  · exact hbelow p hp
  · obtain ⟨part, hpart, hp⟩ := List.mem_flatten.1 hp
    obtain ⟨G, hG, hcontributes⟩ := exists_of_forall₂ hparts hpart
    exact (hw.contributes hroot (hbelow G (List.mem_of_mem_filter hG)) hcontributes).1 p hp

variable (hbook : project.rules = .ok book.rules)

include hbook

/-- What the rule of a direct artifact asks for, and what it comes to. -/
theorem direct_meets (hF : F.IsBelow)
    (hfind : book.find (ArtifactKind.direct.artifact project.outputRoot F) = .ok rule) :
    (rule.recipe (ArtifactKind.direct.artifact project.outputRoot F)).run.Meets w
      (fun q => project.reading? F ≠ none ∧ q = .content (project.root.join F) ∨
        ∃ p ∈ project.probes disk F, q = .presence p)
      fun r => r.toOption =
        (project.imports? disk F).bind fun ds => (ImportFamily.listing ds).toOption := by
  obtain ⟨family, scanner, hfamily, hscanner, hs, rfl⟩ := find_artifact hroot hbook hF hfind
  have hreading := reading?_eq hfamily hscanner
  refine directRule_meets hfamily hscanner hs hw.content (.inl ⟨by simp [hreading], rfl⟩) ?_
  exact fun p hp => .inr ⟨p, hp, rfl⟩

/-- What the rule of a transitive artifact asks for, and what it comes to. -/
theorem transitive_meets (hF : F.IsBelow)
    (hfind : book.find (ArtifactKind.transitive.artifact project.outputRoot F) = .ok rule) :
    (rule.recipe (ArtifactKind.transitive.artifact project.outputRoot F)).run.Meets w
      (fun q => ∃ (kind : ArtifactKind) (G : Path), q = .artifact (kind.artifact project.outputRoot G)
        ∧ (kind = .direct ∧ G = F ∨ project.Follows disk F G))
      fun r => (∃ L, w.Collects project F L ∧ r = ImportFamily.listing L) ∨
        w.Lacks ∧ ∃ cause, r = .error cause := by
  obtain ⟨family, scanner, hfamily, -, hs, rfl⟩ := find_artifact hroot hbook hF hfind
  refine (transitiveRule_meets hs ⟨.direct, F, rfl, .inl ⟨rfl, rfl⟩⟩ ?_).mono (fun _ h => h) ?_
  · intro ds hds G hG hexpands kind
    have himports := hw.gives_direct hF hds
    rw [expands_eq hF (isBelow_of_imports? hroot himports hG) hfamily] at hexpands
    exact ⟨kind, G, rfl, .inr ⟨⟨ds, himports, hG⟩, hexpands⟩⟩
  · rintro r (⟨L, hL, rfl⟩ | h)
    · exact .inl ⟨L, hw.collects_of_assembles hroot hF hfamily hL, rfl⟩
    · exact .inr h

end Fits

section

variable (hroot : project.root.IsPlace)

include hroot

theorem Makes.direct {c : Content} (hF : F.IsBelow)
    (h : project.Makes disk lists (ArtifactKind.direct.artifact project.outputRoot F) c) :
    ∃ ps, ImportFamily.listing ps = .ok c ∧ project.imports? disk F = some ps := by
  obtain ⟨kind, G, ps, hG, heq, hps, -, hkind⟩ := h
  obtain ⟨rfl, rfl⟩ := ArtifactKind.artifact_inj (isPlace_outputRoot hroot.1) hF hG heq
  exact ⟨ps, hps, hkind⟩

theorem Makes.transitive {c : Content} (hF : F.IsBelow)
    (h : project.Makes disk lists (ArtifactKind.transitive.artifact project.outputRoot F) c) :
    ∃ ps, ImportFamily.listing ps = .ok c ∧ (∀ p ∈ ps, p.IsBelow) ∧ lists F ps := by
  obtain ⟨kind, G, ps, hG, heq, hps, hbelow, hkind⟩ := h
  obtain ⟨rfl, rfl⟩ := ArtifactKind.artifact_inj (isPlace_outputRoot hroot.1) hF hG heq
  exact ⟨ps, hps, hbelow, hkind⟩

/-- A world whose artifacts are those of a session fits. -/
theorem fits_of_makes (hcontent : ∀ p, w.content p = (disk.read p).toOption)
    (hmakes : ∀ t c, w.makes t c → project.Makes disk lists t c) :
    project.Fits disk lists w where
  content := hcontent
  direct hF hc := (hmakes _ _ hc).direct hroot hF
  transitive hF hc := (hmakes _ _ hc).transitive hroot hF

theorem fits_world : project.Fits disk lists
    (project.importScope book disk traces sources lists refuses within).world :=
  fits_of_makes hroot (fun _ => rfl) fun _ _ h => h

variable (hbook : project.rules = .ok book.rules)

include hbook

/-- The rule of a direct artifact asks for its source and for the files where that says to look. -/
theorem asks_direct (hF : F.IsBelow) {q : Question}
    (h : (project.importScope book disk traces sources lists refuses within).Asks
      (ArtifactKind.direct.artifact project.outputRoot F) q) :
    project.reading? F ≠ none ∧ q = .content (project.root.join F) ∨
      ∃ p ∈ project.probes disk F, q = .presence p := by
  obtain ⟨rule, ds, x, hfind, hsteps, hq⟩ := h
  exact (((fits_world hroot).direct_meets hroot hbook hF hfind).steps hsteps).asked hq

/-- The rule of a transitive artifact asks for artifacts of its source and of those that this takes
    over. -/
theorem asks_transitive (hF : F.IsBelow) {q : Question}
    (h : (project.importScope book disk traces sources lists refuses within).Asks
      (ArtifactKind.transitive.artifact project.outputRoot F) q) :
    ∃ (kind : ArtifactKind) (G : Path), q = .artifact (kind.artifact project.outputRoot G) ∧
      (kind = .direct ∧ G = F ∨ project.Follows disk F G) := by
  obtain ⟨rule, ds, x, hfind, hsteps, hq⟩ := h
  exact (((fits_world hroot).transitive_meets hroot hbook hF hfind).steps hsteps).asked hq

variable (hs : project.Sources disk sources)

include hs

/-- The rules of artifacts ask for sources, for the files where these say to look, and for artifacts of
    sources. -/
theorem asks_cases {t : Path} {q : Question}
    (ht : (project.importScope book disk traces sources lists refuses within).allowed t)
    (h : (project.importScope book disk traces sources lists refuses within).Asks t q) :
    ∃ F, sources F ∧ ((project.reading? F ≠ none ∧ q = .content (project.root.join F)) ∨
      (∃ p ∈ project.probes disk F, q = .presence p) ∨
        ∃ kind : ArtifactKind, q = .artifact (kind.artifact project.outputRoot F)) := by
  obtain ⟨kind, F, hF, rfl⟩ := ht
  cases kind with
  | direct => exact ⟨F, hF, (asks_direct hroot hbook (hs.below hF) h).imp_right .inl⟩
  | transitive =>
    obtain ⟨kind, G, rfl, hG⟩ := asks_transitive hroot hbook (hs.below hF) h
    refine ⟨G, ?_, .inr (.inr ⟨kind, rfl⟩)⟩
    rcases hG with ⟨-, rfl⟩ | hG
    · exact hF
    · exact hs.closed hF hG

/-- An artifact that needs a transitive one is that of a source that takes over the source of it. -/
theorem follows_of_need {t u : Path}
    (h : (project.importScope book disk traces sources lists refuses within).Needs t u) :
    ∃ F, sources F ∧ t = ArtifactKind.transitive.artifact project.outputRoot F ∧
      ∀ G, G.IsBelow → u = ArtifactKind.transitive.artifact project.outputRoot G →
        project.Follows disk F G := by
  obtain ⟨⟨kind, F, hF, rfl⟩, hasks⟩ := h
  cases kind with
  | direct =>
    rcases asks_direct hroot hbook (hs.below hF) hasks with ⟨-, hq⟩ | ⟨p, -, hq⟩ <;> cases hq
  | transitive =>
    refine ⟨F, hF, rfl, fun G hG hu => ?_⟩
    obtain ⟨kind, H, hq, hH⟩ := asks_transitive hroot hbook (hs.below hF) hasks
    rw [Question.artifact.injEq, hu] at hq
    have hbelow : H.IsBelow := by
      rcases hH with ⟨-, rfl⟩ | hH
      · exact hs.below hF
      · exact hs.below (hs.closed hF hH)
    obtain ⟨rfl, rfl⟩ := ArtifactKind.artifact_inj (isPlace_outputRoot hroot.1) hG hbelow hq
    exact hH.resolve_left fun h => by simp at h

/-- Artifacts that need one another in turn are the transitive ones of sources that take over one
    another in turn. -/
theorem follows_of_needs {t u : Path}
    (h : Relation.TransGen
      (project.importScope book disk traces sources lists refuses within).Needs t u) :
    ∃ F, sources F ∧ t = ArtifactKind.transitive.artifact project.outputRoot F ∧
      ∀ G, G.IsBelow → u = ArtifactKind.transitive.artifact project.outputRoot G →
        Relation.TransGen (project.Follows disk) F G := by
  induction h with
  | single h =>
    obtain ⟨F, hF, ht, hfollows⟩ := follows_of_need hroot hbook hs h
    exact ⟨F, hF, ht, fun G hG hu => .single (hfollows G hG hu)⟩
  | tail _ h ih =>
    obtain ⟨F, hF, ht, hfollows⟩ := ih
    obtain ⟨H, hH, hv, hlast⟩ := follows_of_need hroot hbook hs h
    exact ⟨F, hF, ht, fun G hG hu => (hfollows H (hs.below hH) hv).tail (hlast G hG hu)⟩

/-- The rules of artifacts make contents that artifacts may have, if what is collected may be
    listed. -/
theorem makes_of_steps
    (hlists : ∀ {F L}, sources F →
      (project.importScope book disk traces sources lists refuses within).world.Collects project F L →
        lists F L) {t : Path} {ds : List Dependency} {c : Content}
    (ht : (project.importScope book disk traces sources lists refuses within).allowed t)
    (hfind : book.find t = .ok rule)
    (hsteps : Tracked.Steps book
      (project.importScope book disk traces sources lists refuses within).world 0 (rule.recipe t).run
      ds (.done (.ok c))) : project.Makes disk lists t c := by
  obtain ⟨kind, F, hF, rfl⟩ := ht
  cases kind with
  | direct =>
    have hpost := ((fits_world hroot).direct_meets hroot hbook (hs.below hF) hfind).steps hsteps
    obtain ⟨ps, hps, hc⟩ := Option.bind_eq_some_iff.1 hpost.symm
    exact ⟨.direct, F, ps, hs.below hF, rfl, Disk.toOption_eq_some_iff.1 hc,
      fun p hp => isBelow_of_imports? hroot hps hp, hps⟩
  | transitive =>
    have hpost := ((fits_world hroot).transitive_meets hroot hbook (hs.below hF) hfind).steps hsteps
    rcases hpost with ⟨L, hL, hc⟩ | ⟨-, cause, hc⟩
    · exact ⟨.transitive, F, L, hs.below hF, rfl, hc.symm,
        (fits_world hroot).isBelow_of_collects hroot (hs.below hF) hL, hlists hF hL⟩
    · cases hc

/-- A session that makes artifacts is lawful if what transitive artifacts may hold is kept, and if it
    may refuse what it does. -/
theorem lawful_importScope (hinj : Function.Injective book.digest)
    {scope : Scope} (hscope : scope = project.importScope book disk traces sources lists refuses within)
    (hgenuine : ∀ {t trace}, scope.allowed t → traces.get? t = some trace →
      ∃ c, trace.Genuine book refuses t c)
    (hlists : ∀ {F L}, sources F → scope.world.Collects project F L → lists F L)
    (hcycle : ∀ {F}, sources F → Relation.TransGen (project.Follows disk) F F → ∀ chain,
      refuses (ArtifactKind.transitive.artifact project.outputRoot F) (.cycle chain))
    (hunruled : ∀ {t cause}, scope.allowed t → book.find t = .error cause → refuses t cause)
    (hfailed : ∀ {t rule ds cause}, scope.allowed t → book.find t = .ok rule →
      Tracked.Steps book scope.world 0 (rule.recipe t).run ds (.done (.error cause)) →
        refuses t (.ruleFailed t cause))
    (hunwritten : ∀ {disk' t c fault}, scope.Reaches disk' → scope.allowed t → scope.makes t c →
      (Disk.writeIfChanged t c disk').1 = .error fault → refuses t (.writeArtifact t fault))
    (hagain : ∀ {t cause}, refuses t cause → cause.isCycle = false → refuses t (.dependencyFailed t))
    (hshallow : ∀ {t}, ¬ within 0 t)
    (hdeeper : ∀ {n t u}, scope.allowed t → within (n + 1) t → scope.Asks t (.artifact u) →
      within n u) :
    scope.Lawful := by
  subst hscope
  have hartifact : ∀ {t},
      (project.importScope book disk traces sources lists refuses within).allowed t →
      project.IsArtifact t := by
    rintro t ⟨kind, F, hF, rfl⟩
    exact ⟨kind, F, hs.below hF, rfl⟩
  have hagree : ∀ {disk' F},
      (project.importScope book disk traces sources lists refuses within).Reaches disk' → sources F →
      project.AgreeOn disk disk' F := fun hreach hF =>
    hs.undisturbed hF _ (hreach.mono fun _ => hartifact)
  refine { injective := hinj, genuine := hgenuine, unruled := hunruled, failed := hfailed,
           unwritten := hunwritten, again := hagain, shallow := hshallow, deeper := hdeeper,
           heeds := ?heeds, same := ?same, closed := ?closed, content := ?content,
           presence := ?presence, apart := ?apart, made := makes_of_steps hroot hbook hs hlists,
           cycle := ?cycle }
  case heeds =>
    rintro t rule ⟨kind, F, hF, rfl⟩ hfind
    obtain ⟨family, scanner, -, -, -, rfl⟩ := find_artifact hroot hbook (hs.below hF) hfind
    cases kind with
    | direct => exact heedsFaults_directRule rfl
    | transitive => exact heedsFaults_transitiveRule
  case same =>
    intro t u ht hu hsame
    exact ((hartifact ht).isPlace hroot).eq_of_same ((hartifact hu).isPlace hroot) hsame
  case closed =>
    intro t u ht hasks
    obtain ⟨F, hF, ⟨-, hq⟩ | ⟨p, -, hq⟩ | ⟨kind, hq⟩⟩ := asks_cases hroot hbook hs ht hasks
    · cases hq
    · cases hq
    · exact ⟨kind, F, hF, Question.artifact.inj hq⟩
  case content =>
    intro disk' t p hreach ht hasks
    obtain ⟨F, hF, ⟨hreading, hq⟩ | ⟨p, -, hq⟩ | ⟨kind, hq⟩⟩ := asks_cases hroot hbook hs ht hasks
    · obtain rfl := Question.content.inj hq
      exact (hagree hreach hF).source hreading
    · cases hq
    · cases hq
  case presence =>
    intro disk' t p hreach ht hasks
    obtain ⟨F, hF, ⟨-, hq⟩ | ⟨p, hp, hq⟩ | ⟨kind, hq⟩⟩ := asks_cases hroot hbook hs ht hasks
    · cases hq
    · obtain rfl := Question.presence.inj hq
      have hprobe := (hagree hreach hF).probes _ hp
      rwa [Disk.isFile_eq_isSome_read, Disk.isFile_eq_isSome_read] at hprobe
    · cases hq
  case apart =>
    intro disk' t u c d hreach ht hu hne hread
    exact read_writeIfChanged hroot (hartifact ht) ((hartifact hu).isPlace hroot) hne hread
  case cycle =>
    intro t h chain
    obtain ⟨F, hF, rfl, hfollows⟩ := follows_of_needs hroot hbook hs h
    exact hcycle hF (hfollows F (hs.below hF) rfl) chain

omit hbook in
/-- An artifact that is done in a session is one of a source of the session, and settled. -/
theorem exists_of_done {scope : Scope}
    (hscope : scope = project.importScope book disk traces sources lists refuses within)
    {s : Session} (hi : scope.Inv s) {kind : ArtifactKind} (hF : F.IsBelow) {digest : String}
    (hdone : s.progress.get? (kind.artifact project.outputRoot F) = some (.done digest)) :
    sources F ∧ ∃ c, scope.Settled s.Done s.traces s.disk (kind.artifact project.outputRoot F) c := by
  have hout := isPlace_outputRoot hroot.1
  obtain ⟨u, hu, hsame⟩ := hi.visited hdone
  obtain ⟨other, G, hG, rfl⟩ : ∃ (other : ArtifactKind) (G : Path), sources G ∧
      u = other.artifact project.outputRoot G := by
    subst hscope
    exact hu
  obtain ⟨rfl, rfl⟩ := ArtifactKind.artifact_inj_of_same hout (hs.below hG) hF hsame
  obtain ⟨c, hc, -⟩ := hi.done hu hdone
  exact ⟨hG, c, hc⟩

end

/-- The imports that an artifact lists on the disk. -/
theorem importsOf_eq {kind : ArtifactKind} {c : Content}
    (hread : disk.read (kind.artifact project.outputRoot F) = .ok c)
    (hlisting : ImportFamily.listing ps = .ok c) :
    disk.importsOf kind project.outputRoot F = .ok ps := by
  obtain ⟨text, -, htext⟩ := exists_of_listing hlisting
  have hreadText : disk.readText (kind.artifact project.outputRoot F) = .ok text := by
    rw [Disk.readText, hread]
    simp [htext]
  rw [Disk.importsOf, hreadText]
  exact congrArg _ (parse_listing hlisting htext)

end Project

end ImportIndex
