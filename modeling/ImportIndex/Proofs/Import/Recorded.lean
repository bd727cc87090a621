import ImportIndex.Proofs.Build.Cutoff
import ImportIndex.Proofs.Import.Region

/-!
# What traces of artifacts tell

Whatever was built, on whatever disk and however it ended, the traces of artifacts tell that direct ones
depend on files only and transitive ones on artifacts only, and that each of them was a list of files
below the project root (`Recorded.remembers`). A session that starts from such traces asks for nothing but
artifacts, even where the lists that it reads are not what the sources import. So what is done is backed
by its trace, as it is for rules that ask for artifacts only whatever they read (`sound_of_served`).
-/

namespace ImportIndex

/-! ### Rules that need no artifacts -/

section

open Recipe

variable {scanner : Scanner} {roots : List Path} {source : Path}

theorem alone_findInRoots {relative : Path} :
    (findInRoots Recipe.isFile relative roots).run.Alone := by
  induction roots with
  | nil => trivial
  | cons root roots ih =>
    intro answer
    cases answer with
    | true => trivial
    | false => exact ih

theorem alone_resolveAll {references : List String} {before : List Path} :
    (resolveAll scanner roots source references before).run.Alone := by
  induction references generalizing before with
  | nil => trivial
  | cons reference references ih =>
    have hresolve : (resolve scanner roots reference).run.Alone :=
      alone_bind alone_findInRoots fun _ => trivial
    refine alone_bind hresolve fun found => ?_
    cases found with
    | some p => exact ih
    | none => exact ⟨rfl, ih⟩

theorem alone_directImports : (directImports scanner roots source).run.Alone := by
  refine alone_bind (fun answer => ?_) fun _ => alone_resolveAll
  trivial

/-- The rule of direct imports needs no artifact if looking for them does not. -/
theorem ImportFamily.alone_directRule {family : ImportFamily} {out root t : Path}
    (himports : ∀ source, (family.imports source).run.Alone) :
    ((family.directRule out root).recipe t).run.Alone := by
  have hlifted : ∀ r : Except Failure Content, (liftM r : Recipe Content).run.Alone := by
    intro r
    cases r <;> trivial
  refine alone_bind ?_ fun source => alone_bind (himports _) fun paths => hlifted _
  rw [sourceOf]
  cases ArtifactKind.direct.source? out t <;> trivial

end

namespace Project

open Session

variable {project : Project} {book : Rulebook} {disk disk' : Disk} {traces : TraceTable}
  {s₀ s s' : Session} {t : Path} {trace : Trace}

/-! ### Traces -/

/-- What the trace of an artifact tells: the name of its rule, the digest of a list of files below the
    root, and if the artifact is transitive, what artifacts it needed, and nothing else. -/
structure Recalls (project : Project) (book : Rulebook) (t : Path) (trace : Trace) : Prop where
  /-- The name. -/
  rule : ∃ rule, book.find t = .ok rule ∧ trace.rule = rule.name
  /-- The digest. -/
  output : ∃ c ps, ImportFamily.listing ps = .ok c ∧ (∀ p ∈ ps, p.IsBelow) ∧
    book.digest c = trace.output
  /-- The artifacts that it needed. -/
  deps : ∀ {F : Path}, F.IsBelow → t = ArtifactKind.transitive.artifact project.outputRoot F →
    ∀ d ∈ trace.deps, ∃ u digest, d = .artifact u digest

/-- What is known of the trace of an artifact, where nothing is known of the sources. -/
abbrev Remembers (project : Project) (book : Rulebook) (disk : Disk) :=
  project.Vouched book disk (fun _ => False) (project.Recalls book)

/-- Whether a session is reliable: what is done are lists of files below the root, and the traces tell how
    artifacts came about. -/
abbrev Reliable (project : Project) (book : Rulebook) (disk : Disk) :=
  project.Kept book disk (fun _ => False) (project.Recalls book)

/-- What is known of a trace does not depend on the disk. -/
theorem Vouched.remembers (h : project.Remembers book disk t trace) :
    project.Remembers book disk' t trace where
  origin := h.origin
  needs hF heq hfind hname hu := by
    obtain ⟨hkind, kind, G, hu, hG, -⟩ := h.needs hF heq hfind hname hu
    exact ⟨hkind, kind, G, hu, hG, False.elim⟩

/-- An artifact that a trace needs is an artifact. -/
theorem Vouched.isArtifact (h : project.Remembers book disk t trace) (ht : project.IsArtifact t)
    {u : Path} {digest : String} (hu : .artifact u digest ∈ trace.deps) : project.IsArtifact u := by
  obtain ⟨kind, F, hF, heq⟩ := ht
  obtain ⟨rule, hfind, hname⟩ := h.origin.rule
  obtain ⟨-, kind, G, rfl, hG, -⟩ := h.needs hF heq hfind hname hu
  exact ⟨kind, G, hG, rfl⟩

/-- A direct artifact needs no other. -/
theorem Vouched.not_artifact {F : Path} (hF : F.IsBelow)
    (h : project.Remembers book disk (ArtifactKind.direct.artifact project.outputRoot F) trace) (u : Path)
    (digest : String) : .artifact u digest ∉ trace.deps := fun hu => by
  obtain ⟨rule, hfind, hname⟩ := h.origin.rule
  cases (h.needs hF rfl hfind hname hu).1

section

variable (hroot : project.root.IsPlace) (hbook : project.rules = .ok book.rules)

/-- No region of sources is known of. -/
theorem region_nowhere : project.Region disk fun _ => False :=
  ⟨False.elim, False.elim, False.elim, False.elim⟩

include hroot hbook

/-- The rules of artifacts leave such traces. -/
theorem recalls_of_answers {rule : Rule} {c : Content} {deps : List Dependency} {ends : Ending}
    (ht : project.IsArtifact t) (hfind : book.find t = .ok rule)
    (hexact : project.Exact disk (fun _ => False) t c)
    (h : Answers book ends s (rule.recipe t).run [] (.ok c, deps) s') :
    project.Recalls book t ⟨rule.name, book.digest c, deps⟩ where
  rule := ⟨rule, hfind, rfl⟩
  output := by
    obtain ⟨kind, F, hF, heq⟩ := ht
    obtain ⟨⟨ps, hps, hbelow⟩, -⟩ := hexact hF heq
    exact ⟨c, ps, hps, hbelow, rfl⟩
  deps {F} hF heq d hd := by
    subst heq
    obtain ⟨family, scanner, -, -, -, rfl⟩ := find_artifact hroot hbook hF hfind
    have hasked := (h.asked asksOnly_transitiveRule hd).resolve_left (by simp)
    obtain ⟨u, hu⟩ := hasked.1
    cases d with
    | artifact v digest => exact ⟨v, digest, rfl⟩
    | content p digest => cases hu
    | presence p found => cases hu

omit hroot hbook in
/-- A session may go on from traces that tell this, if digests tell contents apart. -/
theorem resumes_of_remembers (hinj : Function.Injective book.digest)
    (h : ∀ {t trace}, project.IsArtifact t → traces.get? t = some trace →
      project.Remembers book disk t trace) :
    project.Resumes book disk (fun _ => False) (project.Recalls book) { disk, traces } where
  reaches := .start
  fresh _ := PathTable.get?_empty
  traces := h
  holds {t trace rule} ht hget _ _ := by
    refine .inr fun c hc kind F _ _ => ⟨?_, False.elim⟩
    obtain ⟨d, ps, hps, hbelow, hd⟩ := (h ht hget).origin.output
    obtain rfl := hinj (hc.trans hd.symm)
    exact ⟨ps, hps, hbelow⟩

end

/-! ### Sessions -/

/-- Requiring a target for which there is no rule does nothing but to find that out. -/
theorem unruled_of_require (n : Nat) (s : Session) (t : Path) :
    (require book n t).Ends s False fun _ s' => ∀ cause, book.find t = .error cause →
      s' = s ∨ s.progress.get? t = none ∧ s' = finish t (.error cause) (start t s) := by
  refine @ends_of_require book (fun s t _ s' => ∀ cause, book.find t = .error cause →
    s' = s ∨ s.progress.get? t = none ∧ s' = finish t (.error cause) (start t s))
    (fun _ _ _ => .inl rfl) (fun _ _ _ => .inl rfl) (fun _ _ _ => .inl rfl)
    (fun hnew h cause hfind => .inr ⟨hnew, ?_⟩) n s t
  cases h with
  | unruled find =>
    rw [hfind] at find
    rw [Except.error.inj find]
  | clean find => cases hfind.symm.trans find
  | failed find => cases hfind.symm.trans find
  | unwritten find => cases hfind.symm.trans find
  | made find => cases hfind.symm.trans find

/-- What is known is kept when a target fails for which there is no rule. -/
theorem Kept.unruled {sources : Path → Prop} {origin : Path → Trace → Prop} {cause : Failure}
    (h : project.Kept book disk sources origin s₀ s) :
    project.Kept book disk sources origin s₀ (finish t (.error cause) (Session.start t s)) where
  tended := by
    refine ⟨?_, ?_, fun {u} hu ⟨digest, hd⟩ => ?_⟩
    · rw [disk_finish]
      exact h.tended.reaches
    · rw [traces_finish]
      exact h.tended.traces
    · rw [disk_finish]
      by_cases hs : t.Same u
      · rw [get?_finish_of_same hs] at hd
        cases hd
      · rw [get?_finish_of_not_same hs] at hd
        exact h.tended.done hu ⟨digest, done_of_start hd⟩
  intact {u} hu hnone := by
    rw [traces_finish, disk_finish]
    refine h.intact hu (get?_eq_none_of_start (t := t) ?_)
    by_cases hs : t.Same u
    · rw [get?_finish_of_same hs] at hnone
      cases hnone
    · rwa [get?_finish_of_not_same hs] at hnone

section

variable (hroot : project.root.IsPlace) (hbook : project.rules = .ok book.rules)
  (h₀ : project.Resumes book disk (fun _ => False) (project.Recalls book) s₀)

include hroot hbook h₀

/-- What is known of the traces is kept when artifacts are required, and other targets for which there
    is no rule. -/
theorem kept_of_requested
    (h : Served book (fun t => ∀ rule, book.find t = .ok rule → project.IsArtifact t) s₀ s) :
    project.Reliable book disk s₀ s := by
  induction h with
  | start => exact h₀.kept
  | @require s₁ s₂ t n r before ht run ih =>
    cases hfind : book.find t with
    | error cause =>
      -- Such a target need not be an artifact, but nothing is written or recorded for it.
      rcases (unruled_of_require _ _ _).1 _ _ run cause hfind with rfl | ⟨-, rfl⟩
      · exact ih
      · exact ih.unruled
    | ok rule =>
      obtain ⟨kind, F, hF, rfl⟩ := ht rule hfind
      obtain ⟨-, hupholds⟩ := (upholds_of_require hroot hbook region_nowhere h₀
        (recalls_of_answers hroot hbook) _ _ _).1 _ _ run
      exact (hupholds kind F hF rfl (fun _ _ hG => hG.elim) ih).1
  | aside _ ha ih => exact ih.aside ha

end

/-- The traces that builds leave: none at first, and then those after builds on any disk, however these
    end. What is built are artifacts, or targets for which there is no rule. -/
inductive Recorded (project : Project) (book : Rulebook) : TraceTable → Prop
  | start : Recorded project book ∅
  | build {traces depth ts store disk built} (h : Recorded project book traces)
      (requested : ∀ t ∈ ts, ∀ rule, book.find t = .ok rule → project.IsArtifact t)
      (run : Engine.build { book, traces, store } depth ts disk = some built) :
      Recorded project book built.engine.traces

/-- The traces that builds leave tell how artifacts came about. -/
theorem Recorded.remembers (hroot : project.root.IsPlace) (hbook : project.rules = .ok book.rules)
    (hinj : Function.Injective book.digest) (h : project.Recorded book traces)
    (ht : project.IsArtifact t) (hget : traces.get? t = some trace) :
    project.Remembers book disk t trace := by
  induction h generalizing t trace disk with
  | start => simp at hget
  | build _ requested run ih =>
    obtain ⟨failed, s, hrun, hengine, -⟩ := Engine.exists_of_build_eq_some run
    have hserved := (requireAll_served.1 _ _ hrun).1.mono requested
    have hkept := kept_of_requested hroot hbook (resumes_of_remembers hinj ih) hserved
    rw [hengine] at hget
    exact (hkept.tended.traces ht hget).remembers

/-! ### What is done is backed -/

/-- How requiring an artifact ends where something is known of the traces: that is kept, and what is done
    is backed. -/
def Backs (project : Project) (book : Rulebook) (disk : Disk) (s₀ : Session) : Ending :=
  fun s t r s' => project.Upholds book disk (fun _ => False) (project.Recalls book) s₀ s t r s' ∧
    (project.IsArtifact t → project.Reliable book disk s₀ s →
      Sound book project.IsArtifact disk s → Safe book project.IsArtifact disk s s')

section

variable (hroot : project.root.IsPlace) (hbook : project.rules = .ok book.rules)
  (h₀ : project.Resumes book disk (fun _ => False) (project.Recalls book) s₀)

include hroot hbook

/-- All requests that are made to bring an artifact up to date are for artifacts, as the lists that are
    read on the way are of files below the root. -/
theorem narrow_of_visits {ends : Ending} {r : Except Failure String}
    (hends : ∀ {s u r s'}, ends s u r s' → Ended s u r s' ∧ project.Upholds book disk (fun _ => False)
      (project.Recalls book) s₀ s u r s') (ht : project.IsArtifact t)
    (hkept : project.Reliable book disk s₀ s)
    (h : Visits book ends t (start t s) r s') :
    Visits book (fun s u r s' => (project.IsArtifact u ∧ project.Reliable book disk s₀ s) ∧
      ends s u r s') t (start t s) r s' := by
  have hneeds : ∀ {trace}, (start t s).traces.get? t = some trace → ∀ u digest,
      .artifact u digest ∈ trace.deps → project.IsArtifact u := fun hget u digest hu =>
    (hkept.tended.traces ht hget).isArtifact ht hu
  obtain ⟨kind, F, hF, rfl⟩ := ht
  have hready : ∀ {s : Session} {kind F}, project.Ready disk (fun _ => False) s kind F :=
    fun _ _ hG => hG.elim
  have hrequest : ∀ {s₁ : Session} {u r s₂}, project.Reliable book disk s₀ s₁ →
      project.IsArtifact u → ends s₁ u r s₂ → project.Reliable book disk s₀ s₂ ∧
        (project.IsArtifact u ∧ project.Reliable book disk s₀ s₁) ∧ ends s₁ u r s₂ := by
    rintro s₁ _ r s₂ hs₁ ⟨kind, G, hG, rfl⟩ hr
    exact ⟨((hends hr).2 kind G hG rfl hready hs₁).1, ⟨⟨kind, G, hG, rfl⟩, hs₁⟩, hr⟩
  refine h.narrow (fun _ hget _ hchecks => hchecks.narrow hkept.start .aside hrequest (hneeds hget))
    fun {rule s₁ a s₂} hfind hunclean hanswers => ?_
  obtain ⟨hs₁, honward⟩ : project.Reliable book disk s₀ s₁ ∧
      Onward (start (kind.artifact project.outputRoot F) s) s₁ :=
    ⟨hunclean.keeps (P := project.Reliable book disk s₀) hkept.start
      .aside fun hs hget hu hr => (hrequest hs (hneeds hget _ _ hu) hr).1,
      hunclean.onward fun hr => (hends hr).1⟩
  cases kind with
  | direct =>
    obtain ⟨family, scanner, -, -, -, rfl⟩ := find_artifact hroot hbook hF hfind
    have halone : (((project.importFamily family scanner).directRule project.outputRoot
        project.root).recipe (ArtifactKind.direct.artifact project.outputRoot F)).run.Alone :=
      ImportFamily.alone_directRule fun _ => alone_directImports
    exact hanswers.narrow hs₁ .aside hrequest
      (halone.asksOnly.mono fun q hq u hu => absurd hu (hq u))
  | transitive =>
    -- The lists that are read need not be what the sources import: any files below the root will do.
    let w : World := {
      content := fun p => (disk.read p).toOption
      makes := fun _ c => ∃ ps, ImportFamily.listing ps = .ok c ∧ ∀ p ∈ ps, p.IsBelow
      refuses := fun _ _ => True }
    have hmeets := @exists_listing_of_answers project book F hroot w hF rule hbook hfind
      fun _ _ => id
    have g := @answering_of_ready project book disk (fun _ => False) (project.Recalls book) s₀ s F ends
      hroot region_nowhere hends hF hready w (fun _ G => G.IsBelow) (fun hG => ⟨hG, False.elim⟩)
      (fun hG hc => (hc hG rfl).1) fun _ _ => trivial
    refine hanswers.narrow_of_meets g (fun hs hu hr => ?_) hmeets ⟨hs₁, honward⟩
    obtain ⟨kind, G, hq, hG⟩ := hu
    obtain rfl := Question.artifact.inj hq
    exact ⟨⟨⟨kind, G, hG, rfl⟩, hs.1⟩, hr⟩

/-- Bringing an artifact up to date is safe where something is known of the traces. -/
theorem backs_of_visits {ends : Ending} {r : Except Failure String}
    (h₀ : project.Resumes book disk (fun _ => False) (project.Recalls book) s₀)
    (hends : ∀ {s u r s'}, ends s u r s' → Ended s u r s' ∧ project.Backs book disk s₀ s u r s')
    (hnew : s.progress.get? t = none) (h : Visits book ends t (start t s) r s') :
    project.Backs book disk s₀ s t r (finish t r s') := by
  have hupholds := fun {s u r s'} (hr : ends s u r s') => (hends hr).imp_right And.left
  refine ⟨upholds_of_visits hroot hbook region_nowhere h₀ (recalls_of_answers hroot hbook)
    hupholds hnew h, fun ht hkept hs => ?_⟩
  exact (narrow_of_visits hroot hbook hupholds ht hkept h).safe (separates hroot)
    (fun hr => (hends hr.2).1) (fun hr => ⟨hr.1.1, (hends hr.2).2.2 hr.1.1 hr.1.2⟩) hnew ht hs

include h₀

/-- Requiring an artifact backs it. -/
theorem backs_of_require (n : Nat) (s : Session) (t : Path) :
    (require book n t).Ends s False fun r s' => Ended s t r s' ∧ project.Backs book disk s₀ s t r s' := by
  have hstay : ∀ {s t r}, project.Backs book disk s₀ s t r s := fun {s t r} =>
    ⟨fun _ _ _ _ _ hkept => ⟨hkept, .refl⟩, fun _ _ h => h.safe⟩
  exact ends_of_ended _ (fun _ => hstay) (fun _ => hstay) (fun _ => hstay)
    (fun hnew _ h => backs_of_visits hroot hbook h₀ id hnew h) n s t

/-- Whatever artifacts are required one after another, what is done is backed. -/
theorem sound_of_served (h : Served book project.IsArtifact s₀ s)
    (hs : Sound book project.IsArtifact disk s₀) : Sound book project.IsArtifact disk s := by
  induction h with
  | start => exact hs
  | require before ht run ih =>
    have hkept := kept_of_requested hroot hbook h₀ (before.mono fun _ ht _ _ => ht)
    exact (((backs_of_require hroot hbook h₀ _ _ _).1 _ _ run).2.2 ht hkept ih).sound
  | aside _ ha ih => exact ih.aside ha

end

/-- After a build that goes on from traces that builds leave, what is done is backed, and the traces tell
    how artifacts came about. -/
theorem Recorded.sound (hroot : project.root.IsPlace) (hbook : project.rules = .ok book.rules)
    (hinj : Function.Injective book.digest) (h : project.Recorded book traces)
    (hserved : Served book project.IsArtifact { disk, traces } s) :
    Sound book project.IsArtifact disk s ∧ ∀ {t trace}, project.IsArtifact t →
      s.traces.get? t = some trace → project.Remembers book disk t trace := by
  have hremembers := fun {t trace} => @h.remembers project book disk _ t trace hroot hbook hinj
  have h₀ := resumes_of_remembers hinj hremembers
  refine ⟨sound_of_served hroot hbook h₀ hserved ⟨.start, fun ht hget hu => ?_, fun _ hp => ?_⟩, ?_⟩
  · exact (hremembers ht hget).isArtifact ht hu
  · simp at hp
  · exact (kept_of_requested hroot hbook h₀ (hserved.mono fun _ ht _ _ => ht)).tended.traces

end Project

end ImportIndex
