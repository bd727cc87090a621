import ImportIndex.Proofs.Import.Closure
import ImportIndex.Proofs.Import.Upkeep

/-!
# Regions without cycles

Sources are a region if they take over nothing but one another, and not in a cycle
(`Project.Region`). Whatever else is made in a session, and in whatever order, what it makes of the
sources of a region lists their imports and their closures (`Project.Exact`). It may start from traces
of other rules, as long as it does not go by them in the region, and whatever the digests of contents
are.

* `Ready.asked`: nothing in a region is refused for a cycle;
* `upholds_of_require`: requiring an artifact keeps what is known of the others;
* `Resumes.build`: what a build leaves.
-/

namespace ImportIndex.Project

open Relation Session

variable {project other : Project} {book : Rulebook} {disk disk' : Disk} {sources : Path → Prop}
  {origin : Path → Trace → Prop} {s₀ s s' s₁ s₂ : Session} {F G : Path} {kind kind' : ArtifactKind}
  {ends : Ending} {c : Content}

/-- Whether a path is that of an artifact or of the trace file. -/
def IsOutput (project : Project) (t : Path) : Prop := project.IsArtifact t ∨ t = project.traceFile

/-- Whether no writing of artifacts and of the trace file changes the imports of a source. -/
def Unaffected (project : Project) (disk : Disk) (F : Path) : Prop :=
  ∀ disk', disk.Rewritten project.IsOutput disk' →
    project.imports? disk' F = project.imports? disk F

/-- Whether a list is the closure of a source. -/
def IsClosure (project : Project) (disk : Disk) (F : Path) (L : List Path) : Prop :=
  ∃ n, project.closure? disk n F = some L

/-- Whether sources take over nothing but one another, and not in a cycle. -/
structure Region (project : Project) (disk : Disk) (sources : Path → Prop) : Prop where
  /-- They lie below the root. -/
  below : ∀ {F}, sources F → F.IsBelow
  /-- They take over one another. -/
  closed : ∀ {F G}, sources F → project.Follows disk F G → sources G
  /-- None takes over itself in turn. -/
  acyclic : ∀ {F}, sources F → ¬ TransGen (project.Follows disk) F F
  /-- Their imports are not affected by what is built. -/
  unaffected : ∀ {F}, sources F → project.Unaffected disk F

/-- What an artifact may hold: a list of files below the root and, if it is that of a source of the
    region, its imports or its closure. -/
def Exact (project : Project) (disk : Disk) (sources : Path → Prop) (t : Path) (c : Content) : Prop :=
  ∀ {kind : ArtifactKind} {F : Path}, F.IsBelow → t = kind.artifact project.outputRoot F →
    (∃ ps, ImportFamily.listing ps = .ok c ∧ ∀ p ∈ ps, p.IsBelow) ∧
      (sources F → project.Makes disk (project.IsClosure disk) t c)

/-- Whether an artifact may be asked for when the transitive imports of a source are put together. -/
def Asked (project : Project) (disk : Disk) (sources : Path → Prop) (F : Path) (kind : ArtifactKind)
    (G : Path) : Prop :=
  G.IsBelow ∧ (sources F → kind = .direct ∧ G = F ∨ project.Follows disk F G)

/-- What is known of the trace of an artifact: where it comes from, and what its rule asked for. -/
structure Vouched (project : Project) (book : Rulebook) (disk : Disk) (sources : Path → Prop)
    (origin : Path → Trace → Prop) (t : Path) (trace : Trace) : Prop where
  /-- Where it comes from. -/
  origin : origin t trace
  /-- What its rule asked for. -/
  needs : ∀ {kind : ArtifactKind} {F : Path} {rule u digest}, F.IsBelow →
    t = kind.artifact project.outputRoot F → book.find t = .ok rule → trace.rule = rule.name →
    .artifact u digest ∈ trace.deps → kind = .transitive ∧ ∃ (kind : ArtifactKind) (G : Path),
      u = kind.artifact project.outputRoot G ∧ project.Asked disk sources F kind G

/-- Whether a session goes on from artifacts and traces that its rules may rely on. -/
structure Resumes (project : Project) (book : Rulebook) (disk : Disk) (sources : Path → Prop)
    (origin : Path → Trace → Prop) (s : Session) : Prop where
  /-- Nothing but outputs was written before. -/
  reaches : disk.Rewritten project.IsOutput s.disk
  /-- Nothing was required before. -/
  fresh : ∀ t, s.progress.get? t = none
  /-- What is known of the traces. -/
  traces : ∀ {t trace}, project.IsArtifact t → s.traces.get? t = some trace →
    project.Vouched book disk sources origin t trace
  /-- What artifacts hold that have traces of their rules, or what they hold if that is what the traces
      tell. -/
  holds : ∀ {t trace rule}, project.IsArtifact t → s.traces.get? t = some trace →
    book.find t = .ok rule → trace.rule = rule.name →
      (∃ c, s.disk.read t = .ok c ∧ project.Exact disk sources t c) ∨
        ∀ c, book.digest c = trace.output → project.Exact disk sources t c

/-- What a session keeps that goes on from another one. -/
structure Kept (project : Project) (book : Rulebook) (disk : Disk) (sources : Path → Prop)
    (origin : Path → Trace → Prop) (s₀ s : Session) : Prop where
  /-- What is done is exact. -/
  tended : Tended project.IsArtifact s₀.disk (project.Exact disk sources)
    (project.Vouched book disk sources origin) s
  /-- What was not required is as it was. -/
  intact : ∀ {t}, project.IsArtifact t → s.progress.get? t = none →
    s.traces.get? t = s₀.traces.get? t ∧ ∀ c, s₀.disk.read t = .ok c → s.disk.read t = .ok c

/-- Whether nothing of the region is being brought up to date that an artifact leads to. -/
def Ready (project : Project) (disk : Disk) (sources : Path → Prop) (s : Session)
    (kind : ArtifactKind) (F : Path) : Prop :=
  ∀ (other : ArtifactKind) (G : Path), sources G →
    (match kind with
      | .direct => other = .direct ∧ G = F
      | .transitive => sources F → ReflTransGen (project.Follows disk) F G) →
    s.progress.get? (other.artifact project.outputRoot G) ≠ some .started

/-- How requiring an artifact ends that is ready: what is known of the others is kept. -/
def Upholds (project : Project) (book : Rulebook) (disk : Disk) (sources : Path → Prop)
    (origin : Path → Trace → Prop) (s₀ : Session) : Ending := fun s t _ s' =>
  ∀ (kind : ArtifactKind) (F : Path), F.IsBelow → t = kind.artifact project.outputRoot F →
    project.Ready disk sources s kind F → project.Kept book disk sources origin s₀ s →
      project.Kept book disk sources origin s₀ s' ∧ Steady project.IsArtifact s s'

/-! ### Regions -/

theorem IsArtifact.isOutput {t : Path} (h : project.IsArtifact t) : project.IsOutput t := .inl h

section

variable (hroot : project.root.IsPlace)

include hroot

theorem IsOutput.exists_eq {t : Path} (h : project.IsOutput t) :
    ∃ l, (∀ n ∈ l, IsName n) ∧ l ≠ [] ∧ t = Path.ofLocation l := by
  rcases h with h | rfl
  · obtain ⟨l, hl, rfl⟩ := (isArtifact_iff hroot).1 h
    exact ⟨l, hl.isName, hl.ne_nil, rfl⟩
  · exact exists_traceFile_place hroot

/-- Writing outputs does not change what a file at a place of its own holds. -/
theorem read_of_outputs {p : Path} (hp : p.IsPlace) (hnot : ¬ project.IsOutput p)
    (h : disk.Rewritten project.IsOutput disk') :
    (disk'.read p).toOption = (disk.read p).toOption := by
  obtain ⟨l, hl, rfl⟩ := hp.exists_eq
  have hplaces : disk.Rewritten (Disk.At fun m => (∀ n ∈ m, IsName n) ∧ m ≠ [] ∧
      project.IsOutput (Path.ofLocation m)) disk' := by
    refine h.mono fun t ht => ?_
    obtain ⟨m, hm, hne, rfl⟩ := ht.exists_eq hroot
    exact ⟨m, ⟨hm, hne, ht⟩, rfl⟩
  exact hplaces.read_ofLocation (fun _ h => h.1) (fun _ h => h.2.1) hl fun h => hnot h.2.2

/-- A source is not affected if it and the files where it says to look are at places that end neither
    like those of artifacts nor like that of the trace file. -/
theorem unaffected_of_getLast? (h : ∀ p ∈ project.root.join F :: project.probes disk F,
    p.IsPlace ∧ p.bytes.getLast? ≠ some 0x73 ∧ p.bytes.getLast? ≠ some 0x6E) :
    project.Unaffected disk F := by
  refine fun disk' hd => AgreeOn.imports? (.of_read fun p hp => ?_)
  obtain ⟨hplace, hartifact, htrace⟩ := h p hp
  refine read_of_outputs hroot hplace (fun hnot => ?_) hd
  rcases hnot with hnot | rfl
  · exact hartifact hnot.getLast?
  · exact htrace (getLast?_traceFile (isPlace_outputRoot hroot.1))

end

theorem IsClosure.unique {L M : List Path} (h : project.IsClosure disk F L)
    (h' : project.IsClosure disk F M) : L = M := by
  obtain ⟨n, hn⟩ := h
  obtain ⟨m, hm⟩ := h'
  exact closure?_unique hn hm

theorem Makes.unique (hroot : project.root.IsPlace) (hF : F.IsBelow)
    (h : project.Makes disk (project.IsClosure disk) (kind.artifact project.outputRoot F) c) {d : Content}
    (h' : project.Makes disk (project.IsClosure disk) (kind.artifact project.outputRoot F) d) :
    c = d := by
  cases kind with
  | direct =>
    obtain ⟨ps, hps, himports⟩ := h.direct hroot hF
    obtain ⟨qs, hqs, himports'⟩ := h'.direct hroot hF
    obtain rfl := Option.some.inj (himports.symm.trans himports')
    exact Except.ok.inj (hps.symm.trans hqs)
  | transitive =>
    obtain ⟨ps, hps, -, hclosure⟩ := h.transitive hroot hF
    obtain ⟨qs, hqs, -, hclosure'⟩ := h'.transitive hroot hF
    obtain rfl := hclosure.unique hclosure'
    exact Except.ok.inj (hps.symm.trans hqs)

/-- What artifacts of sources may hold depends on their imports only. -/
theorem AlikeOn.makes (h : project.AlikeOn other disk disk' sources)
    (hclosed : ∀ {F G}, sources F → project.Follows disk F G → sources G)
    (hroot : other.root.IsPlace) (hout : other.outputRoot = project.outputRoot) (hF : F.IsBelow)
    (hsource : sources F)
    (hmakes : other.Makes disk' (other.IsClosure disk') (kind.artifact project.outputRoot F) c) :
    project.Makes disk (project.IsClosure disk) (kind.artifact project.outputRoot F) c := by
  obtain ⟨kind', G, ps, hG, heq, hps, hbelow, hlists⟩ := hmakes
  rw [← hout] at heq
  obtain ⟨rfl, rfl⟩ := ArtifactKind.artifact_inj (isPlace_outputRoot hroot.1) hF hG heq
  refine ⟨kind, F, ps, hF, rfl, hps, hbelow, ?_⟩
  cases kind with
  | direct => exact (h.imports hsource).symm.trans hlists
  | transitive =>
    obtain ⟨n, hn⟩ := hlists
    exact ⟨n, (h.closure?_eq hclosed hsource).symm.trans hn⟩

namespace Region

/-- All that a source reaches is a region if it contains no cycle. -/
theorem of_acyclic (hroot : project.root.IsPlace) (hF : F.IsBelow) (hacyclic : project.Acyclic disk F)
    (h : ∀ G, ReflTransGen (project.Follows disk) F G → project.Unaffected disk G) :
    project.Region disk (ReflTransGen (project.Follows disk) F) where
  below hG := isBelow_of_reflTransGen hroot hF hG
  closed hG hfollows := hG.tail hfollows
  acyclic := hacyclic _
  unaffected := h _

/-- A region is one of every project that has the same imports there. -/
theorem alike (h : project.Region disk sources) (halike : project.AlikeOn other disk disk' sources)
    (hun : ∀ F, sources F → other.Unaffected disk' F) : other.Region disk' sources where
  below := h.below
  closed hF hG := h.closed hF ((halike.follows_iff hF).1 hG)
  acyclic {F} hF hcycle := by
    have hpath : ∀ {G}, TransGen (other.Follows disk') F G →
        TransGen (project.Follows disk) F G ∧ sources G := by
      intro G hG
      induction hG with
      | single hG =>
        have hG := (halike.follows_iff hF).1 hG
        exact ⟨.single hG, h.closed hF hG⟩
      | tail _ hH ih =>
        have hH := (halike.follows_iff ih.2).1 hH
        exact ⟨ih.1.tail hH, h.closed ih.2 hH⟩
    exact h.acyclic hF (hpath hcycle).1
  unaffected := hun _

end Region

/-! ### What is known of a session -/

namespace Kept

variable {t : Path}

theorem start (h : project.Kept book disk sources origin s₀ s) :
    project.Kept book disk sources origin s₀ (start t s) where
  tended := h.tended.start
  intact hu hnone := h.intact hu (get?_eq_none_of_start hnone)

theorem steady (h : project.Kept book disk sources origin s₀ s)
    (ht : Tended project.IsArtifact s₀.disk (project.Exact disk sources)
      (project.Vouched book disk sources origin) s')
    (hs : Steady project.IsArtifact s s') : project.Kept book disk sources origin s₀ s' where
  tended := ht
  intact {t} ht hnone := by
    have hbefore : s.progress.get? t = none := by
      by_contra hne
      exact hs.onward.ne_none hne hnone
    obtain ⟨htraces, hread⟩ := h.intact ht hbefore
    refine ⟨?_, fun c hc => hs.read ht (.inr hnone) (hread c hc)⟩
    rw [← htraces]
    exact hs.onward.traces (.inr fun ⟨digest, hd⟩ => by simp [hnone] at hd)

theorem aside (h : project.Kept book disk sources origin s₀ s) (ha : Aside s s') :
    project.Kept book disk sources origin s₀ s' := h.steady (h.tended.aside ha) (.of_aside ha)

end Kept

theorem Resumes.kept (h : project.Resumes book disk sources origin s₀) :
    project.Kept book disk sources origin s₀ s₀ where
  tended := ⟨.start, h.traces, fun _ ⟨_, hd⟩ => by simp [h.fresh] at hd⟩
  intact _ _ := ⟨rfl, fun _ => id⟩

theorem Ready.onward (h : project.Ready disk sources s kind F) (ho : Onward s s') :
    project.Ready disk sources s' kind F := fun other G hG hreach hstarted =>
  h other G hG hreach (ho.started hstarted)

section

variable (hroot : project.root.IsPlace) (hregion : project.Region disk sources)

include hroot hregion

/-- What is asked for on behalf of an artifact is ready if that was. -/
theorem Ready.asked (hF : F.IsBelow) (h : project.Ready disk sources s .transitive F)
    (hG : project.Asked disk sources F kind G) :
    project.Ready disk sources (start (ArtifactKind.transitive.artifact project.outputRoot F) s)
      kind G := by
  obtain ⟨-, hasked⟩ := hG
  intro other H hH hreach
  have hout := isPlace_outputRoot hroot.1
  by_cases hsame : (ArtifactKind.transitive.artifact project.outputRoot F).Same
      (other.artifact project.outputRoot H)
  · -- The artifact itself is asked for, so its source takes over itself in turn.
    obtain ⟨rfl, rfl⟩ := ArtifactKind.artifact_inj_of_same hout hF (hregion.below hH) hsame
    exfalso
    cases kind with
    | direct => simp at hreach
    | transitive =>
      have hfollows := (hasked hH).resolve_left (by simp)
      exact hregion.acyclic hH (.head' hfollows (hreach (hregion.closed hH hfollows)))
  · rw [get?_start_of_not_same hsame]
    refine h other H hH fun hF => ?_
    cases kind with
    | direct =>
      obtain ⟨-, rfl⟩ := hreach
      rcases hasked hF with ⟨-, rfl⟩ | hfollows
      · exact .refl
      · exact .single hfollows
    | transitive =>
      have hfollows := (hasked hF).resolve_left (by simp)
      exact .head hfollows (hreach (hregion.closed hF hfollows))

omit hroot hregion in
/-- What is collected from closures is a closure, if nothing was cut off. -/
theorem isClosure_of_collects {w : World} {L : List Path} (hroot : project.root.IsPlace)
    (hw : project.Fits disk (project.IsClosure disk) w)
    (hrefuses : ∀ t cause, w.refuses t cause → cause.isCycle = false) (hF : F.IsBelow)
    (h : w.Collects project F L) : project.IsClosure disk F L := by
  obtain ⟨ds, parts, hds, hparts, rfl⟩ := h
  have himports := hw.gives_direct hF hds
  obtain ⟨n, hn⟩ := exists_closures (forall₂_of_mem hparts fun G part hG hcontributes => by
    have hbelow := isBelow_of_imports? hroot himports (List.mem_of_mem_filter hG)
    refine (hw.contributes hroot hbelow hcontributes).2.resolve_right ?_
    rintro ⟨⟨cause, hrefused, hcycle⟩, -⟩
    simp [hrefuses _ cause hrefused] at hcycle)
  exact ⟨n + 1, closure?_succ_eq_some.2 ⟨ds, parts, himports, hn, rfl⟩⟩

omit hregion in
/-- Transitive imports that are put together from lists of files below the root lie below it. -/
theorem exists_listing_of_answers {w : World} (hF : F.IsBelow) {rule : Rule}
    (hbook : project.rules = .ok book.rules)
    (hfind : book.find (ArtifactKind.transitive.artifact project.outputRoot F) = .ok rule)
    (hmakes : ∀ t c, w.makes t c → ∃ ps, ImportFamily.listing ps = .ok c ∧ ∀ p ∈ ps, p.IsBelow) :
    (rule.recipe (ArtifactKind.transitive.artifact project.outputRoot F)).run.Meets w
      (fun q => ∃ (kind : ArtifactKind) (G : Path),
        q = .artifact (kind.artifact project.outputRoot G) ∧ G.IsBelow)
      fun r => ∀ c, r = .ok c → ∃ ps, ImportFamily.listing ps = .ok c ∧ ∀ p ∈ ps, p.IsBelow := by
  obtain ⟨family, scanner, -, -, hs, rfl⟩ := find_artifact hroot hbook hF hfind
  have hgives : ∀ {kind G ps}, w.Gives kind project.outputRoot G ps → ∀ p ∈ ps, p.IsBelow := by
    rintro kind G _ ⟨c, text, hc, htext, rfl⟩
    obtain ⟨ps, hps, hbelow⟩ := hmakes _ c hc
    rwa [parse_listing hps htext]
  refine (transitiveRule_meets hs ⟨.direct, F, rfl, hF⟩ fun ds hds G hG _ kind =>
    ⟨kind, G, rfl, hgives hds G hG⟩).mono (fun _ h => h) ?_
  rintro r hr c rfl
  rcases hr with ⟨L, ⟨ds, parts, hds, hparts, rfl⟩, hc⟩ | ⟨-, cause, hc⟩
  · refine ⟨_, hc.symm, fun p hp => ?_⟩
    have hbelow : ∀ p ∈ ds ++ parts.flatten, p.IsBelow := by
      intro p hp
      rcases List.mem_append.1 hp with hp | hp
      · exact hgives hds p hp
      · obtain ⟨part, hpart, hp⟩ := List.mem_flatten.1 hp
        obtain ⟨G, -, hG⟩ := exists_of_forall₂ hparts hpart
        exact hG.elim (hgives · p hp) (hgives ·.2 p hp)
    exact hbelow p ((mem_firstSeen hF hbelow).1 hp).1
  · cases hc

end

/-! ### Requiring artifacts -/

section

variable (hroot : project.root.IsPlace) (hregion : project.Region disk sources)
  (hends : ∀ {s u r s'}, ends s u r s' → Ended s u r s' ∧
    project.Upholds book disk sources origin s₀ s u r s')

include hroot hregion hends

/-- What is asked for on behalf of an artifact that was ready is answered in every world in which
    artifacts are exact and nothing in the region is refused for a cycle. -/
theorem answering_of_ready (hF : F.IsBelow) (hready : project.Ready disk sources s .transitive F)
    {w : World} {asked : ArtifactKind → Path → Prop}
    (hasked : ∀ {kind G}, asked kind G → project.Asked disk sources F kind G)
    (hmakes : ∀ {kind G c}, asked kind G →
      project.Exact disk sources (kind.artifact project.outputRoot G) c →
        w.makes (kind.artifact project.outputRoot G) c)
    (hrefuses : ∀ {kind G cause}, asked kind G → (sources G → cause.isCycle = false) →
      w.refuses (kind.artifact project.outputRoot G) cause) :
    Answering book ends w
      (fun q => ∃ (kind : ArtifactKind) (G : Path),
        q = .artifact (kind.artifact project.outputRoot G) ∧ asked kind G)
      (fun s₁ => project.Kept book disk sources origin s₀ s₁ ∧
        Onward (start (ArtifactKind.transitive.artifact project.outputRoot F) s) s₁)
      (Steady project.IsArtifact) fun _ => w where
  only := by
    rintro _ ⟨kind, G, rfl, -⟩
    exact ⟨_, rfl⟩
  refl := .refl
  trans := .trans
  makes _ := id
  refuses _ := id
  aside h ha := ⟨⟨h.1.aside ha, h.2.trans ha.onward⟩, .of_aside ha⟩
  request {s₁ u r s₂} h hu hrequest := by
    obtain ⟨kind, G, hq, hG⟩ := hu
    obtain rfl := Question.artifact.inj hq
    have hbelow := (hasked hG).1
    have hready₁ := (hready.asked hroot hregion hF (hasked hG)).onward h.2
    obtain ⟨hended, hupholds⟩ := hends hrequest
    obtain ⟨hkept, hsteady⟩ := hupholds kind G hbelow rfl hready₁ h.1
    refine ⟨⟨hkept, h.2.trans hsteady.onward⟩, hsteady, ?_⟩
    cases r with
    | ok digest =>
      obtain ⟨c, hc, hread⟩ := hkept.tended.done ⟨kind, G, hbelow, rfl⟩ ⟨digest, hended.2⟩
      exact ⟨c, hread, hmakes hG hc, hmakes hG hc⟩
    | error cause =>
      -- What is refused for a cycle is being brought up to date, and nothing of the region is.
      have hcause : sources G → cause.isCycle = false := by
        intro hsource
        rcases hended.2 with ⟨-, hstarted, -⟩ | ⟨-, hcycle⟩
        · refine absurd hstarted (hready₁ kind G hsource ?_)
          cases kind with
          | direct => exact ⟨rfl, rfl⟩
          | transitive => exact fun _ => .refl
        · exact hcycle
      exact ⟨hrefuses hG hcause, hrefuses hG hcause⟩

variable (hbook : project.rules = .ok book.rules) (hF : F.IsBelow) {rule : Rule}
  (hfind : book.find (kind.artifact project.outputRoot F) = .ok rule)
  (hready : project.Ready disk sources s kind F)
  (hkept : project.Kept book disk sources origin s₀ s₁)
  (honward : Onward (start (kind.artifact project.outputRoot F) s) s₁)
  {a : Except Failure Content × List Dependency}
  (h : Answers book ends s₁ (rule.recipe (kind.artifact project.outputRoot F)).run [] a s₂)

include hbook hF hfind hready hkept honward h

/-- The rule of a transitive artifact of the region makes the closure of its source. -/
theorem answers_inside (hkind : kind = .transitive) (hsource : sources F) :
    project.Kept book disk sources origin s₀ s₂ ∧ Steady project.IsArtifact s₁ s₂ ∧
      (∀ c, a.1 = .ok c → project.Makes disk (project.IsClosure disk)
        (kind.artifact project.outputRoot F) c) ∧
      ∀ u digest, .artifact u digest ∈ a.2 → ∃ (kind : ArtifactKind) (G : Path),
        u = kind.artifact project.outputRoot G ∧ project.Asked disk sources F kind G := by
  subst hkind
  let w : World := {
    content := fun p => (disk.read p).toOption
    makes := project.Makes disk (project.IsClosure disk)
    refuses := fun _ cause => cause.isCycle = false }
  have hw : project.Fits disk (project.IsClosure disk) w :=
    fits_of_makes hroot (fun _ => rfl) fun _ _ h => h
  have hinside : ∀ {kind : ArtifactKind} {G : Path},
      kind = .direct ∧ G = F ∨ project.Follows disk F G → sources G := by
    rintro kind G (⟨-, rfl⟩ | hfollows)
    · exact hsource
    · exact hregion.closed hsource hfollows
  have hasked : ∀ {kind : ArtifactKind} {G : Path},
      kind = .direct ∧ G = F ∨ project.Follows disk F G → project.Asked disk sources F kind G :=
    fun h => ⟨hregion.below (hinside h), fun _ => h⟩
  have hmeets := hw.transitive_meets hroot hbook hF hfind
  have g := @answering_of_ready project book disk sources origin s₀ s F ends hroot hregion hends hF
    hready w _ hasked (fun hG hc => (hc (hasked hG).1 rfl).2 (hinside hG))
    fun hG hcause => hcause (hinside hG)
  obtain ⟨⟨hkept₂, -⟩, hsteady, hend, hdeps⟩ := h.meets_artifacts g hmeets ⟨hkept, honward⟩
  refine ⟨hkept₂, hsteady, fun c hc => ?_, fun u digest hu => ?_⟩
  · rcases hend hmeets with ⟨L, hL, hlisting⟩ | ⟨-, cause, he⟩
    · exact ⟨.transitive, F, L, hF, rfl, hlisting.symm.trans hc,
        hw.isBelow_of_collects hroot hF hL, isClosure_of_collects hroot hw (fun _ _ => id) hF hL⟩
    · cases hc.symm.trans he
  · obtain ⟨kind, G, hq, hG⟩ := (hdeps u digest hu).resolve_left (by simp)
    exact ⟨kind, G, Question.artifact.inj hq, hasked hG⟩

/-- Whatever any other source takes over, the rule of its transitive artifact makes a list of files
    below the root. -/
theorem answers_outside (hkind : kind = .transitive) (hsource : ¬ sources F) :
    project.Kept book disk sources origin s₀ s₂ ∧ Steady project.IsArtifact s₁ s₂ ∧
      (∀ c, a.1 = .ok c → ∃ ps, ImportFamily.listing ps = .ok c ∧ ∀ p ∈ ps, p.IsBelow) ∧
      ∀ u digest, .artifact u digest ∈ a.2 → ∃ (kind : ArtifactKind) (G : Path),
        u = kind.artifact project.outputRoot G ∧ project.Asked disk sources F kind G := by
  subst hkind
  let w : World := {
    content := fun p => (disk.read p).toOption
    makes := fun _ c => ∃ ps, ImportFamily.listing ps = .ok c ∧ ∀ p ∈ ps, p.IsBelow
    refuses := fun _ _ => True }
  have hasked : ∀ {kind : ArtifactKind} {G : Path}, G.IsBelow →
      project.Asked disk sources F kind G := fun hG => ⟨hG, fun h => absurd h hsource⟩
  have hmeets := @exists_listing_of_answers project book F hroot w hF rule hbook hfind fun _ _ => id
  have g := @answering_of_ready project book disk sources origin s₀ s F ends hroot hregion hends hF
    hready w (fun _ G => G.IsBelow) hasked (fun hG hc => (hc hG rfl).1) fun _ _ => trivial
  obtain ⟨⟨hkept₂, -⟩, hsteady, hend, hdeps⟩ := h.meets_artifacts g hmeets ⟨hkept, honward⟩
  refine ⟨hkept₂, hsteady, hend hmeets, fun u digest hu => ?_⟩
  obtain ⟨kind, G, hq, hG⟩ := (hdeps u digest hu).resolve_left (by simp)
  exact ⟨kind, G, Question.artifact.inj hq, hasked hG⟩

/-- The rule of a transitive artifact makes a list of files below the root, and one of the closure if
    its source is in the region. -/
theorem answers_transitive_exact (hkind : kind = .transitive) :
    project.Kept book disk sources origin s₀ s₂ ∧ Steady project.IsArtifact s₁ s₂ ∧
      (∀ c, a.1 = .ok c → (∃ ps, ImportFamily.listing ps = .ok c ∧ ∀ p ∈ ps, p.IsBelow) ∧
        (sources F → project.Makes disk (project.IsClosure disk)
          (kind.artifact project.outputRoot F) c)) ∧
      ∀ u digest, .artifact u digest ∈ a.2 → ∃ (kind : ArtifactKind) (G : Path),
        u = kind.artifact project.outputRoot G ∧ project.Asked disk sources F kind G := by
  by_cases hsource : sources F
  · obtain ⟨hkept₂, hsteady, hmakes, hdeps⟩ := answers_inside hroot hregion hends hbook hF hfind hready
      hkept honward h hkind hsource
    refine ⟨hkept₂, hsteady, fun c hc => ⟨?_, fun _ => hmakes c hc⟩, hdeps⟩
    obtain ⟨-, -, ps, -, -, hlisting, hbelow, -⟩ := hmakes c hc
    exact ⟨ps, hlisting, hbelow⟩
  · obtain ⟨hkept₂, hsteady, hlisting, hdeps⟩ := answers_outside hroot hregion hends hbook hF hfind
      hready hkept honward h hkind hsource
    exact ⟨hkept₂, hsteady, fun c hc => ⟨hlisting c hc, fun h => absurd h hsource⟩, hdeps⟩

/-- The rule of an artifact that was ready makes what it may hold, and asks for what may be asked
    for. -/
theorem answers_exact (h₀ : disk.Rewritten project.IsOutput s₀.disk) :
    project.Kept book disk sources origin s₀ s₂ ∧ Steady project.IsArtifact s₁ s₂ ∧
      (∀ c, a.1 = .ok c → project.Exact disk sources (kind.artifact project.outputRoot F) c) ∧
      ∀ u digest, .artifact u digest ∈ a.2 → kind = .transitive ∧
        ∃ (kind : ArtifactKind) (G : Path), u = kind.artifact project.outputRoot G ∧
          project.Asked disk sources F kind G := by
  have hexact : ∀ c, (∃ ps, ImportFamily.listing ps = .ok c ∧ ∀ p ∈ ps, p.IsBelow) ∧
      (sources F → project.Makes disk (project.IsClosure disk)
        (kind.artifact project.outputRoot F) c) →
      project.Exact disk sources (kind.artifact project.outputRoot F) c := by
    intro c hc other G hG heq
    obtain ⟨-, rfl⟩ := ArtifactKind.artifact_inj (isPlace_outputRoot hroot.1) hF hG heq
    exact hc
  cases kind with
  | direct =>
    obtain ⟨ha, hlisting, hnone⟩ := answers_direct hroot hbook hF hfind h
    refine ⟨hkept.aside ha, .of_aside ha, fun c hc => hexact c ?_, fun u digest hu => ?_⟩
    · obtain ⟨ps, hps, hlisting⟩ := hlisting c hc
      have hbelow : ∀ p ∈ ps, p.IsBelow := fun p => isBelow_of_imports? hroot hps
      refine ⟨⟨ps, hlisting, hbelow⟩, fun hsource => ?_⟩
      have hreach := h₀.trans (hkept.tended.reaches.mono fun _ => IsArtifact.isOutput)
      rw [hregion.unaffected hsource _ hreach] at hps
      exact ⟨.direct, F, ps, hF, rfl, hlisting, hbelow, hps⟩
    · exact absurd hu (hnone u digest)
  | transitive =>
    obtain ⟨hkept₂, hsteady, hlisting, hdeps⟩ := answers_transitive_exact hroot hregion hends hbook hF
      hfind hready hkept honward h rfl
    exact ⟨hkept₂, hsteady, fun c hc => hexact c (hlisting c hc), fun u digest hu =>
      ⟨rfl, hdeps u digest hu⟩⟩

end

section

variable (hroot : project.root.IsPlace) (hbook : project.rules = .ok book.rules)
  (hregion : project.Region disk sources) (h₀ : project.Resumes book disk sources origin s₀)
  (horigin : ∀ {t rule c deps} {ends : Ending} {s s' : Session}, project.IsArtifact t →
    book.find t = .ok rule → project.Exact disk sources t c →
      Answers book ends s (rule.recipe t).run [] (.ok c, deps) s' →
        origin t ⟨rule.name, book.digest c, deps⟩)

include hroot hbook hregion h₀ horigin

/-- Bringing an artifact up to date that was ready keeps what is known of the others. -/
theorem upholds_of_visits {t : Path} {r : Except Failure String}
    (hends : ∀ {s u r s'}, ends s u r s' → Ended s u r s' ∧
      project.Upholds book disk sources origin s₀ s u r s')
    (hnew : s.progress.get? t = none) (h : Visits book ends t (start t s) r s') :
    project.Upholds book disk sources origin s₀ s t r (finish t r s') := by
  rintro kind F hF rfl hready hkept
  have hartifact : project.IsArtifact (kind.artifact project.outputRoot F) := ⟨kind, F, hF, rfl⟩
  have hbegin : project.Kept book disk sources origin s₀
      (start (kind.artifact project.outputRoot F) s) := hkept.start
  suffices hkeeps : Tended project.IsArtifact s₀.disk (project.Exact disk sources)
      (project.Vouched book disk sources origin)
        (finish (kind.artifact project.outputRoot F) r s') ∧
      Steady project.IsArtifact s (finish (kind.artifact project.outputRoot F) r s') from
    ⟨hkept.steady hkeeps.1 hkeeps.2, hkeeps.2⟩
  refine Visits.tended (fun h => (hends h).1) (separates hroot) hartifact hnew hkept.tended h
    ?checking ?clean ?answering
  case checking =>
    intro rule trace found s₁ hfind htrace hname hchecks
    have hvouched := hkept.tended.traces hartifact htrace
    have hkeeps : project.Kept book disk sources origin s₀ s₁ ∧
        Steady project.IsArtifact (start (kind.artifact project.outputRoot F) s) s₁ := by
      refine hchecks.keeps (P := fun s₁ => project.Kept book disk sources origin s₀ s₁ ∧
        Steady project.IsArtifact (start (kind.artifact project.outputRoot F) s) s₁)
        ⟨hbegin, .refl⟩ (fun h ha => ⟨h.1.aside ha, h.2.trans (.of_aside ha)⟩) ?_
      rintro s₁ u digest r s₂ ⟨hkept₁, hsteady₁⟩ hu hrequest
      obtain ⟨rfl, kind, G, rfl, hasked⟩ := hvouched.needs hF rfl hfind hname hu
      have hready₁ := (hready.asked hroot hregion hF hasked).onward hsteady₁.onward
      obtain ⟨hkept₂, hsteady₂⟩ := (hends hrequest).2 kind G hasked.1 rfl hready₁ hkept₁
      exact ⟨hkept₂, hsteady₁.trans hsteady₂⟩
    exact ⟨hkeeps.1.tended, hkeeps.2⟩
  case clean =>
    intro rule trace c hfind htrace hname hread hdigest
    -- The artifact was not touched so far, so it holds what it held at the start.
    obtain ⟨htraces, hfiles⟩ := hkept.intact hartifact hnew
    rcases h₀.holds hartifact (htraces ▸ htrace) hfind hname with ⟨d, hd, hexact⟩ | hexact
    · obtain rfl := Except.ok.inj (hread.symm.trans (hfiles d hd))
      exact hexact
    · exact hexact c hdigest
  case answering =>
    rintro rule s₁ s₂ ⟨result, deps⟩ hfind htended hsteady hanswers
    obtain ⟨hkept₂, hsteady₂, hexact, hdeps⟩ := answers_exact hroot hregion hends hbook hF hfind
      hready (hbegin.steady htended hsteady) hsteady.onward hanswers h₀.reaches
    refine ⟨hkept₂.tended, hsteady₂, ?_⟩
    rintro c rfl
    refine ⟨hexact c rfl, horigin hartifact hfind (hexact c rfl) hanswers, ?_⟩
    intro kind G rule u digest hG heq _ _ hu
    obtain ⟨rfl, rfl⟩ := ArtifactKind.artifact_inj (isPlace_outputRoot hroot.1) hF hG heq
    exact hdeps u digest hu

/-- Requiring an artifact that is ready keeps what is known of the others. -/
theorem upholds_of_require (n : Nat) (s : Session) (t : Path) :
    (require book n t).Ends s False fun r s' =>
      Ended s t r s' ∧ project.Upholds book disk sources origin s₀ s t r s' := by
  have hstay : ∀ {s t r}, project.Upholds book disk sources origin s₀ s t r s :=
    fun _ _ _ _ _ hkept => ⟨hkept, .refl⟩
  exact ends_of_ended _ (fun _ => hstay) (fun _ => hstay) (fun _ => hstay)
    (fun hnew _ h => upholds_of_visits hroot hbook hregion h₀ horigin id hnew h) n s t

/-- Requiring artifacts one after another keeps what is known. -/
theorem kept_of_served (h : Served book project.IsArtifact s₀ s) :
    project.Kept book disk sources origin s₀ s := by
  induction h with
  | start => exact h₀.kept
  | require before ht run ih =>
    obtain ⟨kind, F, hF, rfl⟩ := ht
    obtain ⟨-, hupholds⟩ :=
      (upholds_of_require hroot hbook hregion h₀ horigin _ _ _).1 _ _ run
    refine (hupholds kind F hF rfl (fun other G _ _ hstarted => ?_) ih).1
    -- Nothing is being brought up to date between requests.
    have hstarted := before.onward.started hstarted
    simp [h₀.fresh] at hstarted
  | aside _ ha ih => exact ih.aside ha

end

/-! ### Builds -/

section

variable {engine : Engine} (hroot : project.root.IsPlace)
  (hbook : project.rules = .ok engine.book.rules)
  (hstore : ∀ path ∈ engine.store, path = project.traceFile)
  (hregion : project.Region disk sources) {start : Disk}
  (h₀ : project.Resumes engine.book disk sources origin (engine.session start))
  (horigin : ∀ {t rule c deps} {ends : Ending} {s s' : Session}, project.IsArtifact t →
    engine.book.find t = .ok rule → project.Exact disk sources t c →
      Answers engine.book ends s (rule.recipe t).run [] (.ok c, deps) s' →
        origin t ⟨rule.name, engine.book.digest c, deps⟩)
  {ts : List Path} (hts : ∀ t ∈ ts, project.IsArtifact t) {depth : Nat} {built : Built}
  (run : engine.build depth ts start = some built)

include hroot hbook hstore hregion h₀ horigin hts run

/-- After a build, all that is done is exact, and so are the targets that did not fail. -/
theorem Resumes.build : ∃ s, project.Kept engine.book disk sources origin (engine.session start) s ∧
    Onward (engine.session start) s ∧
    ({ engine with traces := s.traces } : Engine).save s.disk = (built.saved, built.disk) ∧
    (∀ {t c}, project.IsArtifact t → s.disk.read t = .ok c → built.disk.read t = .ok c) ∧
    ∀ t ∈ ts, built.report.failureOf? t = none → s.Done t := by
  obtain ⟨failed, s, hrun, -, hreport, hsaved⟩ := Engine.exists_of_build_eq_some run
  obtain ⟨hserved, hended⟩ := requireAll_served.1 _ _ hrun
  refine ⟨s, kept_of_served hroot hbook hregion h₀ horigin (hserved.mono hts), hserved.onward,
    hsaved.symm, fun {t c} ht hread => Disk.toOption_eq_some_iff.1 ?_, fun t ht hfailed => ?_⟩
  · have hne : t ≠ project.traceFile := by
      obtain ⟨kind, F, -, rfl⟩ := ht
      exact (traceFile_ne_artifact (isPlace_outputRoot hroot.1)).symm
    have hdisk : built.disk = (Engine.save { engine with traces := s.traces } s.disk).2 :=
      congrArg Prod.snd hsaved
    have hkept := @read_save project s.disk hroot { engine with traces := s.traces } hstore t
      (ht.isPlace hroot) hne
    rw [hdisk, hkept, hread]
    rfl
  · refine (hended t ht).resolve_left fun ⟨cause, hcause⟩ => ?_
    rw [Report.failureOf?, hreport, Option.map_eq_none_iff, List.find?_eq_none] at hfailed
    exact hfailed _ hcause (decide_eq_true rfl)

end

theorem resumes_of_new {engine : Engine} {origin : Path → Trace → Prop} (hempty : engine.traces = ∅) :
    project.Resumes engine.book disk sources origin (engine.session disk) where
  reaches := .start
  fresh _ := PathTable.get?_empty
  traces _ hget := by
    rw [Engine.session, hempty, PathTable.get?_empty] at hget
    cases hget
  holds _ hget := by
    rw [Engine.session, hempty, PathTable.get?_empty] at hget
    cases hget

/-- A build without traces makes what the sources of a region import, and their closures. -/
theorem makes_of_new {engine : Engine} (hroot : project.root.IsPlace)
    (hbook : project.rules = .ok engine.book.rules)
    (hstore : ∀ path ∈ engine.store, path = project.traceFile) (hempty : engine.traces = ∅)
    (hregion : project.Region disk sources) {ts : List Path} (hts : ∀ t ∈ ts, project.IsArtifact t)
    {depth : Nat} {built : Built} (run : engine.build depth ts disk = some built) (hF : F.IsBelow)
    (hsource : sources F) (hmem : kind.artifact project.outputRoot F ∈ ts)
    (hfailed : built.report.failureOf? (kind.artifact project.outputRoot F) = none) :
    ∃ c, built.disk.read (kind.artifact project.outputRoot F) = .ok c ∧
      project.Makes disk (project.IsClosure disk) (kind.artifact project.outputRoot F) c := by
  have h₀ : project.Resumes engine.book disk sources (fun _ _ => True) (engine.session disk) :=
    resumes_of_new hempty
  obtain ⟨s, hkept, -, -, hread, hdone⟩ :=
    h₀.build hroot hbook hstore hregion (fun _ _ _ _ => trivial) hts run
  have ht := hts _ hmem
  obtain ⟨c, hc, hcread⟩ := hkept.tended.done ht (hdone _ hmem hfailed)
  exact ⟨c, hread ht hcread, (hc hF rfl).2 hsource⟩

end ImportIndex.Project
