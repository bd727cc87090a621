import ImportIndex.Proofs.Build.Attested
import ImportIndex.Proofs.Import.Recorded

/-!
# What traces of artifacts testify to

The rule of direct imports asks for no target, and the rule of transitive imports for targets only. So the
traces of artifacts that builds leave are genuine, whatever happened to the sources in between: each of them
comes from a run of its rule in some world. The rule gets over no refusal but that of a transitive artifact
for a cycle (`heeds_recipe`), and so such a world refuses nothing else (`Recorded.genuine`). And no target
but artifacts has a trace, spelled as they are (`Recorded.isArtifact_of_mem_keys`).
-/

namespace ImportIndex

/-! ### What the rules get over -/

section

open Recipe Tracked

variable {out F G : Path} {owns : Path → Bool} {kind : ArtifactKind}

/-- Reading an artifact fails whatever it was refused for. -/
theorem heeds_importsOf : (importsOf kind out F).run.Heeds GetsOver :=
  Recipe.heeds_bind ⟨fun _ => trivial, fun _ _ => rfl⟩ fun _ => trivial

theorem heeds_needed {α : Type} {x : Recipe α} (hx : x.run.Heeds GetsOver) :
    (x.adapt Failure.needed).run.Heeds GetsOver :=
  hx.bind (fun _ => trivial) fun _ => rfl

/-- What an import contributes can be told although its transitive artifact is refused for a cycle. -/
theorem heeds_expansion : (expansion out F G).run.Heeds GetsOver := by
  refine ⟨fun answer => ?_, fun cause hcause => ?_⟩
  · cases answer with
    | ok text => trivial
    | error cause =>
      change (if cause.isCycle = true then _ else _ : Recipe (List Path)).run.Heeds GetsOver
      split
      · exact heeds_needed heeds_importsOf
      · trivial
  · change (if cause.isCycle = true then _ else _ : Recipe (List Path)).run.Fails
    split
    · next hcycle => exact absurd (getsOver_transitive hcycle) hcause
    · exact rfl

theorem heeds_expandAll {paths : List Path} {found : FirstSeen} :
    (expandAll out owns F paths found).run.Heeds GetsOver := by
  induction paths generalizing found with
  | nil => trivial
  | cons p paths ih =>
    rw [expandAll]
    split
    · exact ih
    · split
      · exact heeds_bind heeds_expansion fun _ => ih
      · exact ih

theorem ImportFamily.heeds_transitiveRule {family : ImportFamily} {t : Path} :
    ((family.transitiveRule out).recipe t).run.Heeds GetsOver := by
  refine heeds_bind ?_ fun source => heeds_bind ?_ fun paths => ?_
  · rw [sourceOf]
    cases ArtifactKind.transitive.source? out t <;> trivial
  · exact heeds_bind (heeds_needed heeds_importsOf) fun _ => heeds_expandAll
  · cases ImportFamily.listing paths <;> trivial

end

namespace Project

open Session

variable {project : Project} {book : Rulebook} {disk : Disk} {traces : TraceTable} {s₀ s s' : Session}
  {t : Path} {rule : Rule} {trace : Trace}

section

variable (hroot : project.root.IsPlace) (hbook : project.rules = .ok book.rules) (ht : project.IsArtifact t)
  (hfind : book.find t = .ok rule)

include hroot hbook ht hfind

/-- The rule of an artifact asks for no target, or for targets only. -/
theorem alone_or_asksOnly : (rule.recipe t).run.Alone ∨
    (rule.recipe t).run.AsksOnly fun q => ∃ u, q = .artifact u := by
  obtain ⟨kind, F, hF, rfl⟩ := ht
  obtain ⟨family, scanner, -, -, -, rfl⟩ := find_artifact hroot hbook hF hfind
  cases kind with
  | direct => exact .inl (ImportFamily.alone_directRule fun _ => alone_directImports)
  | transitive => exact .inr asksOnly_transitiveRule

/-- The rules of artifacts get over no refusal but that of a transitive artifact for a cycle. -/
theorem heeds_recipe : (rule.recipe t).run.Heeds GetsOver := by
  obtain ⟨kind, F, hF, rfl⟩ := ht
  obtain ⟨family, scanner, -, -, -, rfl⟩ := find_artifact hroot hbook hF hfind
  cases kind with
  | direct => exact (ImportFamily.alone_directRule fun _ => alone_directImports).heeds
  | transitive => exact ImportFamily.heeds_transitiveRule

end

/-! ### Sessions -/

/-- How requiring an artifact ends where something is known of the traces: it is backed, and traces of
    artifacts are still genuine. -/
def Attests (project : Project) (book : Rulebook) (disk : Disk) (s₀ : Session) : Ending :=
  fun s t r s' => project.Backs book disk s₀ s t r s' ∧
    (project.IsArtifact t → project.Reliable book disk s₀ s → Sound book project.IsArtifact disk s →
      Attested book project.IsArtifact s → Attested book project.IsArtifact s')

section

variable (hroot : project.root.IsPlace) (hbook : project.rules = .ok book.rules)
  (h₀ : project.Resumes book disk (fun _ => False) (project.Recalls book) s₀)

include hroot hbook h₀

/-- Bringing an artifact up to date leaves genuine traces if requests do. -/
theorem attests_of_visits {ends : Ending} {r : Except Failure String}
    (hends : ∀ {s u r s'}, ends s u r s' → Ended s u r s' ∧ project.Attests book disk s₀ s u r s')
    (hnew : s.progress.get? t = none) (h : Visits book ends t (start t s) r s') :
    project.Attests book disk s₀ s t r (finish t r s') := by
  have hbacks := fun {s u r s'} (hr : ends s u r s') => (hends hr).imp_right And.left
  refine ⟨backs_of_visits hroot hbook h₀ hbacks hnew h, fun ht hkept hs hattested => ?_⟩
  have hupholds := fun {s u r s'} (hr : ends s u r s') => (hbacks hr).imp_right And.left
  exact (narrow_of_visits hroot hbook hupholds ht hkept h).attested (separates hroot)
    (alone_or_asksOnly hroot hbook) (fun hr => (hends hr.2).1)
    (fun hr => ⟨hr.1.1, (hbacks hr.2).2.2 hr.1.1 hr.1.2⟩) (fun hr => (hends hr.2).2.2 hr.1.1 hr.1.2)
    hnew ht hs hattested

/-- Requiring an artifact leaves genuine traces. -/
theorem attests_of_require (n : Nat) (s : Session) (t : Path) :
    (require book n t).Ends s False fun r s' =>
      Ended s t r s' ∧ project.Attests book disk s₀ s t r s' := by
  have hstay : ∀ {s t r}, project.Attests book disk s₀ s t r s := fun {s t r} =>
    ⟨⟨fun _ _ _ _ _ hkept => ⟨hkept, .refl⟩, fun _ _ h => h.safe⟩, fun _ _ _ h => h⟩
  exact ends_of_ended _ (fun _ => hstay) (fun _ => hstay) (fun _ => hstay)
    (fun hnew _ h => attests_of_visits hroot hbook h₀ id hnew h) n s t

/-- Traces stay genuine when artifacts are required, and other targets for which there is no rule. -/
theorem attested_of_requested (hs : Sound book project.IsArtifact disk s₀)
    (hattested : Attested book project.IsArtifact s₀)
    (h : Served book (fun t => ∀ rule, book.find t = .ok rule → project.IsArtifact t) s₀ s) :
    Sound book project.IsArtifact disk s ∧ Attested book project.IsArtifact s := by
  induction h with
  | start => exact ⟨hs, hattested⟩
  | @require s₁ s₂ t n r before ht run ih =>
    cases hfind : book.find t with
    | error cause =>
      rcases (unruled_of_require _ _ _).1 _ _ run cause hfind with rfl | ⟨hnew, rfl⟩
      · exact ih
      · exact ⟨(ih.1.start hnew).finish (get?_start_of_same rfl) (separates hroot) (by simp),
          ih.2.of_traces traces_finish⟩
    | ok rule =>
      have hkept := kept_of_requested hroot hbook h₀ before
      obtain ⟨-, hbacks, hattests⟩ := (attests_of_require hroot hbook h₀ _ _ _).1 _ _ run
      have ht := ht rule hfind
      exact ⟨(hbacks.2 ht hkept ih.1).sound, hattests ht hkept ih.1 ih.2⟩
  | aside _ ha ih => exact ⟨ih.1.aside ha, ih.2.of_traces ha.traces⟩

end

/-- The traces of artifacts that builds leave are genuine. In the worlds that they come from nothing is
    refused but transitive artifacts for cycles. -/
theorem Recorded.genuine (hroot : project.root.IsPlace) (hbook : project.rules = .ok book.rules)
    (hinj : Function.Injective book.digest) (h : project.Recorded book traces)
    (ht : project.IsArtifact t) (hget : traces.get? t = some trace) :
    ∃ c, trace.Genuine book GetsOver t c := by
  have hattested : ∀ t trace, project.IsArtifact t → traces.get? t = some trace →
      ∃ c, trace.Genuine book (fun _ _ => True) t c := by
    clear ht hget
    induction h with
    | start => simp
    | @build traces depth ts store disk built h requested run ih =>
      obtain ⟨failed, s, hrun, hengine, -⟩ := Engine.exists_of_build_eq_some run
      have hserved := (requireAll_served.1 _ _ hrun).1.mono requested
      have hremembers := fun {t trace} => @h.remembers project book disk _ t trace hroot hbook hinj
      have hsound : Sound book project.IsArtifact disk { disk, traces } :=
        ⟨.start, fun ht hget hu => (hremembers ht hget).isArtifact ht hu, fun _ hp => by simp at hp⟩
      rw [hengine]
      exact (attested_of_requested hroot hbook (resumes_of_remembers hinj hremembers) hsound ih
        hserved).2
  obtain ⟨c, hc⟩ := hattested t trace ht hget
  exact ⟨c, hc.heeded fun rule => heeds_recipe hroot hbook ht⟩

/-! ### Targets that have traces -/

/-- Whether all targets that have traces are artifacts. -/
def Spelled (project : Project) (traces : TraceTable) : Prop :=
  ∀ t ∈ traces.keys, project.IsArtifact t

/-- How requiring an artifact ends where something is known of the traces: it is kept, and still no other
    targets have traces. -/
def Spells (project : Project) (book : Rulebook) (disk : Disk) (s₀ : Session) : Ending :=
  fun s t r s' => project.Upholds book disk (fun _ => False) (project.Recalls book) s₀ s t r s' ∧
    (project.IsArtifact t → project.Reliable book disk s₀ s → project.Spelled s.traces →
      project.Spelled s'.traces)

section

variable (hroot : project.root.IsPlace) (hbook : project.rules = .ok book.rules)
  (h₀ : project.Resumes book disk (fun _ => False) (project.Recalls book) s₀)

include hroot hbook h₀

/-- Bringing an artifact up to date records no other targets than artifacts if requests do not. -/
theorem spells_of_visits {ends : Ending} {r : Except Failure String}
    (hends : ∀ {s u r s'}, ends s u r s' → Ended s u r s' ∧ project.Spells book disk s₀ s u r s')
    (hnew : s.progress.get? t = none) (h : Visits book ends t (start t s) r s') :
    project.Spells book disk s₀ s t r (finish t r s') := by
  have hupholds := fun {s u r s'} (hr : ends s u r s') => (hends hr).imp_right And.left
  refine ⟨upholds_of_visits hroot hbook region_nowhere h₀ (recalls_of_answers hroot hbook) hupholds hnew h,
    fun ht hkept hs => ?_⟩
  rw [traces_finish]
  refine (narrow_of_visits hroot hbook hupholds ht hkept h).keeps_traces (P := project.Spelled) hs
    (fun hr hs => (hends hr.2).2.2 hr.1.1 hr.1.2 hs) fun _ _ hs u hu => ?_
  rcases PathTable.mem_keys_insert hu with rfl | hu
  · exact ht
  · exact hs u hu

/-- Requiring an artifact records no other targets than artifacts. -/
theorem spells_of_require (n : Nat) (s : Session) (t : Path) :
    (require book n t).Ends s False fun r s' =>
      Ended s t r s' ∧ project.Spells book disk s₀ s t r s' := by
  have hstay : ∀ {s t r}, project.Spells book disk s₀ s t r s := fun {s t r} =>
    ⟨fun _ _ _ _ _ hkept => ⟨hkept, .refl⟩, fun _ _ h => h⟩
  exact ends_of_ended _ (fun _ => hstay) (fun _ => hstay) (fun _ => hstay)
    (fun hnew _ h => spells_of_visits hroot hbook h₀ id hnew h) n s t

/-- No other targets than artifacts are recorded when artifacts are required, and other targets for which
    there is no rule. -/
theorem spelled_of_requested (hs : project.Spelled s₀.traces)
    (h : Served book (fun t => ∀ rule, book.find t = .ok rule → project.IsArtifact t) s₀ s) :
    project.Spelled s.traces := by
  induction h with
  | start => exact hs
  | @require s₁ s₂ t n r before ht run ih =>
    cases hfind : book.find t with
    | error cause =>
      rcases (unruled_of_require _ _ _).1 _ _ run cause hfind with rfl | ⟨-, rfl⟩
      · exact ih
      · rw [traces_finish]
        exact ih
    | ok rule =>
      have hkept := kept_of_requested hroot hbook h₀ before
      obtain ⟨-, -, hspells⟩ := (spells_of_require hroot hbook h₀ _ _ _).1 _ _ run
      exact hspells (ht rule hfind) hkept ih
  | aside _ ha ih => exact ha.traces ▸ ih

end

/-- The targets of which builds leave traces are artifacts. -/
theorem Recorded.isArtifact_of_mem_keys (hroot : project.root.IsPlace)
    (hbook : project.rules = .ok book.rules) (hinj : Function.Injective book.digest)
    (h : project.Recorded book traces) : ∀ t ∈ traces.keys, project.IsArtifact t := by
  induction h with
  | start => simp [PathTable.mem_keys, PathTable.spelling?_empty]
  | @build traces depth ts store disk built h requested run ih =>
    obtain ⟨failed, s, hrun, hengine, -⟩ := Engine.exists_of_build_eq_some run
    have hserved := (requireAll_served.1 _ _ hrun).1.mono requested
    have hremembers := fun {t trace} => @h.remembers project book disk _ t trace hroot hbook hinj
    rw [hengine]
    exact spelled_of_requested hroot hbook (resumes_of_remembers hinj hremembers) ih hserved

end Project

end ImportIndex
