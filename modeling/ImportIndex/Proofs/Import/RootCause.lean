import ImportIndex.Proofs.Build.RootCause
import ImportIndex.Proofs.Import.History

/-!
# Why an artifact could not be made

The rules of artifacts pass on why their requests fail (`ImportFamily.candid_rule`). So the first
artifact that fails names the cause: its source cannot be read, an import cannot be listed, or there is
no rule for it, say. A build that fails reports such a cause, unless the artifact failed when a trace was
checked (`Project.named_or_swallowed`), which cannot be if there are no traces (`Project.named_of_new`).

If a source is removed that was there in the build before, nothing but its trace leads to its direct
artifact at first. That this fails is swallowed then, and the report tells no more than that it did
(`Project.exists_unnamed`).
-/

namespace ImportIndex

section

open Tracked Recipe

variable {scanner : Scanner} {roots : List Path} {out root source : Path} {owns : Path → Bool}
  {kind : ArtifactKind}

theorem candid_findInRoots {relative : Path} :
    (findInRoots Recipe.isFile relative roots).run.Candid := by
  induction roots with
  | nil => trivial
  | cons root roots ih =>
    intro answer
    cases answer with
    | true => trivial
    | false => exact ih

theorem candid_resolveAll {references : List String} {before : List Path} :
    (resolveAll scanner roots source references before).run.Candid := by
  induction references generalizing before with
  | nil => trivial
  | cons reference references ih =>
    have hresolve : (resolve scanner roots reference).run.Candid :=
      candid_bind candid_findInRoots fun _ => trivial
    refine candid_bind hresolve fun found => ?_
    cases found with
    | some p => exact ih
    | none => exact ih

theorem candid_directImports : (directImports scanner roots source).run.Candid := by
  have htext : (Recipe.readText source (.readSource source)).run.Candid := by
    intro answer
    cases answer with
    | ok text => trivial
    | error fault => simp [Candid, Except.mapError, Failure.Named, Failure.root]
  exact candid_bind htext fun _ => candid_resolveAll

theorem candid_artifact {t : Path} : (Recipe.artifact t).run.Candid := by
  refine ⟨fun text => trivial, fun cause => ?_⟩
  split
  · next hcycle => exact Failure.named_of_isCycle hcycle
  · exact ⟨cause, rfl, rfl⟩

theorem candid_importsOf : (importsOf kind out source).run.Candid :=
  candid_bind candid_artifact fun _ => trivial

theorem candid_needed {α : Type} {x : Recipe α} (hx : x.run.Candid) :
    (x.adapt Failure.needed).run.Candid :=
  hx.bind (fun _ => trivial) fun cause => ⟨.needed cause, rfl, rfl⟩

/-- That an import closes a cycle is the one failure that is not passed on. -/
theorem candid_expansion {p : Path} : (expansion out source p).run.Candid := by
  refine ⟨fun text => trivial, fun cause => ?_⟩
  change if cause.isCycle = true then
      (if cause.isCycle = true then _ else _ : Recipe (List Path)).run.Candid
    else (if cause.isCycle = true then _ else _ : Recipe (List Path)).run.FailsWith cause.root
  split
  · exact candid_needed candid_importsOf
  · exact ⟨.needed cause, rfl, rfl⟩

theorem candid_expandAll {paths : List Path} {found : FirstSeen} :
    (expandAll out owns source paths found).run.Candid := by
  induction paths generalizing found with
  | nil => trivial
  | cons p paths ih =>
    rw [expandAll]
    split
    · exact ih
    · split
      · exact candid_bind candid_expansion fun _ => ih
      · exact ih

theorem candid_transitiveImports : (transitiveImports out owns source).run.Candid :=
  candid_bind (candid_needed candid_importsOf) fun _ => candid_expandAll

end

namespace ImportFamily

variable {family : ImportFamily} {kind : ArtifactKind} {out root t : Path} {paths : List Path}
  {cause : Failure}

theorem named_of_render (h : Listing.render paths = .error cause) : cause.Named := by
  induction paths with
  | nil => cases h
  | cons p paths ih =>
    rw [Listing.render] at h
    cases hline : Listing.line? p with
    | none =>
      rw [hline] at h
      cases h
      simp [Failure.Named, Failure.root]
    | some line =>
      rw [hline] at h
      cases hrest : Listing.render paths with
      | ok text =>
        rw [hrest] at h
        cases h
      | error cause' =>
        rw [hrest] at h
        cases h
        exact ih hrest

theorem named_of_listing (h : listing paths = .error cause) : cause.Named := by
  rw [listing] at h
  cases hr : Listing.render paths with
  | ok text => simp [hr, Except.map] at h
  | error cause' =>
    rw [hr] at h
    cases h
    exact named_of_render hr

theorem named_of_relativeTo (h : (paths.mapM fun p => p.relativeTo root) = .error cause) :
    cause.Named := by
  induction paths with
  | nil => cases h
  | cons p paths ih =>
    rw [List.mapM_cons, Path.relativeTo] at h
    cases hp : p.normalize.stripStart? root with
    | none =>
      rw [hp] at h
      cases h
      simp [Failure.Named, Failure.root]
    | some relative =>
      rw [hp] at h
      cases hrest : paths.mapM fun p => p.relativeTo root with
      | ok ps =>
        rw [hrest] at h
        cases h
      | error cause' =>
        rw [hrest] at h
        cases h
        exact ih hrest

theorem named_of_listingBelow (h : listingBelow root paths = .error cause) : cause.Named := by
  rw [listingBelow] at h
  cases hps : paths.mapM fun p => p.relativeTo root with
  | ok ps =>
    rw [hps] at h
    exact named_of_listing h
  | error cause' =>
    rw [hps] at h
    cases h
    exact named_of_relativeTo hps

theorem candid_sourceOf : (sourceOf kind out t).run.Candid := by
  rw [sourceOf]
  cases kind.source? out t with
  | some source => trivial
  | none => exact fun t => by simp [Failure.root]

/-- The rules of artifacts tell why they fail, if looking for direct imports does. -/
theorem candid_rule (himports : ∀ source, (family.imports source).run.Candid) :
    ((family.rule out root kind).recipe t).run.Candid := by
  have hlifted : ∀ {r : Except Failure Content}, (∀ cause, r = .error cause → cause.Named) →
      (liftM r : Recipe Content).run.Candid := by
    intro r hr
    cases r with
    | ok content => trivial
    | error cause => exact hr cause rfl
  cases kind with
  | direct =>
    exact Recipe.candid_bind candid_sourceOf fun source =>
      Recipe.candid_bind (himports _) fun paths => hlifted fun cause => named_of_listingBelow
  | transitive =>
    exact Recipe.candid_bind candid_sourceOf fun source =>
      Recipe.candid_bind candid_transitiveImports fun paths => hlifted fun cause => named_of_listing

end ImportFamily

namespace Project

variable {project : Project} {engine : Engine} {depth : Nat} {ts : List Path} {disk : Disk}
  {built : Built}

/-- The rules of a project tell why they fail. -/
theorem candid_of_find {book : Rulebook} (hbook : project.rules = .ok book.rules) {t : Path} {rule : Rule}
    (h : book.find t = .ok rule) : (rule.recipe t).run.Candid := by
  obtain ⟨scanners, -, hrules⟩ := exists_rules_eq hbook
  have hmem : rule ∈ book.rulesFor t := by
    rw [Rulebook.find] at h
    split at h <;> cases h
    next hfor => exact hfor ▸ List.mem_singleton_self _
  have hmem := List.mem_of_mem_filter hmem
  rw [hrules] at hmem
  obtain ⟨family, -, hmem⟩ := List.mem_flatMap.1 hmem
  obtain ⟨kind, -, rfl⟩ := List.mem_map.1 hmem
  exact ImportFamily.candid_rule fun _ => candid_directImports

section

variable (hbook : project.rules = .ok engine.book.rules)

include hbook

/-- Without traces from before, a build that fails reports a failure with a named root. -/
theorem named_of_new (hnew : ∀ t, engine.traces.get? t = none)
    (run : engine.build depth ts disk = some built) (hfailed : built.report.failed ≠ []) :
    ∃ t cause, (t, cause) ∈ built.report.failed ∧ cause.Named := by
  refine (Engine.named_of_candid (candid_of_find hbook) run hfailed).resolve_right ?_
  rintro ⟨t, trace, u, digest, cause, hget, -⟩
  simp [hnew t] at hget

/-- Whatever traces there are: a build that fails reports a failure with a named root, or one with a
    named root was told when a trace from before the build was checked, and went no further. -/
theorem named_or_swallowed (run : engine.build depth ts disk = some built)
    (hfailed : built.report.failed ≠ []) :
    (∃ t cause, (t, cause) ∈ built.report.failed ∧ cause.Named) ∨
      ∃ t trace u digest cause, engine.traces.get? t = some trace ∧ .artifact u digest ∈ trace.deps ∧
        .neededFailed u cause ∈ built.events ∧ cause.isCycle = false ∧ cause.Named :=
  Engine.named_of_candid (candid_of_find hbook) run hfailed

end

/-! ### A source that was removed -/

/-- One source that imports nothing. -/
def alone : Disk := usualDisk [("a.c", "")]

/-- The source taken away. -/
def bereft (disk : Disk) : Disk := (Disk.removeFile (.ofText "/w/a.c") disk).2

/-- The second build of the artifact, from the traces of the first one and after the source was taken
    away: it reports that the direct artifact failed, and has told why. -/
theorem named_or_swallowed_bereft : ∃ before after,
    (Engine.resume usualBook usual.traceFile alone).build 3 [usualArtifact .transitive "a.c"] alone =
      some before ∧
    before.engine.build 3 [usualArtifact .transitive "a.c"] (bereft before.disk) = some after ∧
    after.report.failed ≠ [] ∧
    ∃ t trace u digest cause, before.engine.traces.get? t = some trace ∧
      .artifact u digest ∈ trace.deps ∧ .neededFailed u cause ∈ after.events ∧
        cause.isCycle = false ∧ cause.Named := by
  have hrun : ((Engine.resume usualBook usual.traceFile alone).build 3
      [usualArtifact .transitive "a.c"] alone).any (fun before =>
        (before.engine.build 3 [usualArtifact .transitive "a.c"] (bereft before.disk)).any fun after =>
          decide (after.report.failed.map (fun e => (e.1, e.2.root)) =
            [(usualArtifact .transitive "a.c", .dependencyFailed (usualArtifact .direct "a.c"))])) =
      true := by
    decide +kernel
  obtain ⟨before, run, h⟩ := (Option.any_eq_true _ _).1 hrun
  obtain ⟨after, run', h⟩ := (Option.any_eq_true _ _).1 h
  have hroots := of_decide_eq_true h
  have hfailed : after.report.failed ≠ [] := by
    intro hnone
    simp [hnone] at hroots
  have hbook : usual.rules = .ok before.engine.book.rules := by
    obtain ⟨_, s, -, hengine, -⟩ := Engine.exists_of_build_eq_some run
    rw [hengine]
    exact rules_usual
  refine ⟨before, after, run, run', hfailed,
    (named_or_swallowed hbook run' hfailed).resolve_left ?_⟩
  rintro ⟨t, cause, hmem, hnamed⟩
  have hroot := hroots ▸ List.mem_map_of_mem (f := fun e : Path × Failure => (e.1, e.2.root)) hmem
  obtain ⟨-, hroot⟩ := Prod.mk.inj (List.mem_singleton.1 hroot)
  exact hnamed _ hroot

/-- After a source was taken away, the build goes on with what it knows and reports no more than that
    the direct artifact failed. A build that knows nothing reports that the source is not there. -/
theorem exists_unnamed : ∃ before after fresh,
    (∀ t, (Engine.resume usualBook usual.traceFile alone).traces.get? t = none) ∧
    (Engine.resume usualBook usual.traceFile alone).build 3 [usualArtifact .transitive "a.c"] alone =
      some before ∧
    before.report.failed = [] ∧
    before.engine.build 3 [usualArtifact .transitive "a.c"] (bereft before.disk) = some after ∧
    after.report.failed ≠ [] ∧ (∀ e ∈ after.report.failed, ¬ e.2.Named) ∧
    (Engine.inMemory usualBook).build 3 [usualArtifact .transitive "a.c"] (bereft before.disk) =
      some fresh ∧
    fresh.report.failed.map (·.2.root) = [.readSource (.ofText "/w/a.c") .notFound] := by
  have hrun : ((Engine.resume usualBook usual.traceFile alone).build 3
      [usualArtifact .transitive "a.c"] alone).any (fun before =>
        (before.engine.build 3 [usualArtifact .transitive "a.c"] (bereft before.disk)).any fun after =>
          ((Engine.inMemory usualBook).build 3 [usualArtifact .transitive "a.c"]
            (bereft before.disk)).any fun fresh =>
              decide (before.report.failed = [] ∧ after.report.failed.map (·.2.root) =
                [.dependencyFailed (usualArtifact .direct "a.c")] ∧
              fresh.report.failed.map (·.2.root) = [.readSource (.ofText "/w/a.c") .notFound])) =
      true := by
    decide +kernel
  obtain ⟨before, run, h⟩ := (Option.any_eq_true _ _).1 hrun
  obtain ⟨after, run', h⟩ := (Option.any_eq_true _ _).1 h
  obtain ⟨fresh, run₀, h⟩ := (Option.any_eq_true _ _).1 h
  obtain ⟨hfailed, hroots, hroots₀⟩ := of_decide_eq_true h
  have hnew : TraceTable.load alone usual.traceFile = ∅ := TraceTable.load_eq_empty (by decide +kernel)
  refine ⟨before, after, fresh, fun t => ?_, run, hfailed, run', fun hnone => ?_, fun e he hnamed => ?_,
    run₀, hroots₀⟩
  · rw [Engine.resume, hnew]
    simp [Engine.storing]
  · simp [hnone] at hroots
  · have hroot := hroots ▸ List.mem_map_of_mem (f := fun e : Path × Failure => e.2.root) he
    exact hnamed _ (List.mem_singleton.1 hroot)

end Project

end ImportIndex
