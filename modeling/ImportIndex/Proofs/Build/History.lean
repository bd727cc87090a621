import ImportIndex.Proofs.Build.Incremental
import ImportIndex.Proofs.Build.TraceFile

/-!
# Builds agree with evaluation

Traces spare work and nothing else: whatever was edited, built, lost or forgotten before, a target
that is required is brought up to date exactly if it can be evaluated without a cache, and its
artifact holds what evaluation gives then (`History.require_agrees`).

It is not enough for this that no source is a target: writing a target also makes the directories
that it is in, and a source that is spelled through one of them appears with it
(`exists_source_appearing`).
-/

namespace ImportIndex

/-- Traces that were stored are not stored again, and are what is loaded. -/
theorem TraceTable.save_again {traces : TraceTable} {p : Path} {disk disk' : Disk}
    (h : traces.save p disk = (.ok (), disk')) : ∃ text, traces.text? = some text ∧
      disk' = (Disk.writeIfChanged p (.ofText text) disk).2 ∧
      Disk.writeIfChanged p (.ofText text) disk' = (.ok false, disk') ∧
      TraceTable.load disk' p = traces := by
  rw [save] at h
  cases htext : traces.text? with
  | none => simp [htext] at h
  | some text =>
    simp only [htext] at h
    rcases hwrite : Disk.writeIfChanged p (.ofText text) disk with ⟨fault | written, disk₁⟩
    · simp [hwrite] at h
    · rw [hwrite] at h
      obtain rfl : disk₁ = disk' := (Prod.mk.inj h).2
      refine ⟨text, rfl, by rw [hwrite], Disk.writeIfChanged_again hwrite, load_of_stored htext ?_⟩
      simp [Disk.readText, Disk.read_of_writeIfChanged hwrite, Content.toText?_ofText]

namespace Engine

/-- A build requires its targets in one session, whose traces it keeps. -/
theorem exists_of_build_eq_some {engine : Engine} {depth : Nat} {ts : List Path} {disk : Disk}
    {built : Built} (h : engine.build depth ts disk = some built) :
    ∃ failed s, Session.requireAll engine.book depth ts (engine.session disk) = some (failed, s) ∧
      built.engine = { engine with traces := s.traces } ∧ built.report.failed = failed ∧
      (built.saved, built.disk) = Engine.save { engine with traces := s.traces } s.disk := by
  obtain ⟨⟨failed, s⟩, hrun, hbuilt⟩ := Option.bind_eq_some_iff.1 h
  refine ⟨failed, s, hrun, ?_⟩
  obtain rfl := Option.some.inj hbuilt
  exact ⟨rfl, rfl, rfl⟩

/-- What there is after a build that requires its targets in this session. -/
theorem build_of_requireAll {engine : Engine} {depth : Nat} {ts : List Path} {disk : Disk}
    {failed : List (Path × Failure)} {s : Session}
    (h : Session.requireAll engine.book depth ts (engine.session disk) = some (failed, s)) :
    engine.build depth ts disk = some
      { report := { stats := s.stats, failed, graph := s.graph }
        events := s.told.reverse
        saved := (Engine.save { engine with traces := s.traces } s.disk).1
        engine := { engine with traces := s.traces }
        disk := (Engine.save { engine with traces := s.traces } s.disk).2 } :=
  Option.bind_eq_some_iff.2 ⟨_, h, rfl⟩

/-- Traces that could be stored are in the trace file, if there is one, and nothing else is written. -/
theorem save_eq_ok {engine : Engine} {disk disk' : Disk} (h : engine.save disk = (.ok (), disk')) :
    engine.store = none ∧ disk' = disk ∨
      ∃ path text, engine.store = some path ∧ engine.traces.text? = some text ∧
        disk' = (Disk.writeIfChanged path (.ofText text) disk).2 ∧
        Disk.writeIfChanged path (.ofText text) disk' = (.ok false, disk') ∧
        TraceTable.load disk' path = engine.traces := by
  rw [save] at h
  cases hstore : engine.store with
  | none =>
    rw [hstore] at h
    exact .inl ⟨rfl, (Prod.mk.inj h).2.symm⟩
  | some path =>
    rw [hstore] at h
    obtain ⟨text, htext, hwrite, hagain, hload⟩ := TraceTable.save_again h
    exact .inr ⟨path, text, rfl, htext, hwrite, hagain, hload⟩

/-- Traces that are stored are not stored again. -/
theorem save_again {engine : Engine} {disk disk' : Disk} (h : engine.save disk = (.ok (), disk')) :
    engine.save disk' = (.ok (), disk') := by
  rcases save_eq_ok h with ⟨hstore, -⟩ | ⟨path, text, hstore, htext, -, hagain, -⟩
  · simp only [save, hstore]
  · simp only [save, hstore, TraceTable.save, htext, hagain]

/-- An engine that resumes after a build whose traces could be stored has these traces. -/
theorem resume_of_saved {engine : Engine} {book' : Rulebook} {depth : Nat} {ts : List Path} {disk : Disk}
    {built : Built} {path : Path} (hstore : engine.store = some path)
    (run : engine.build depth ts disk = some built) (hsaved : built.saved = .ok ()) :
    resume book' path built.disk = storing book' path built.engine.traces := by
  obtain ⟨failed, s, -, hengine, -, hsave⟩ := exists_of_build_eq_some run
  rw [hsaved] at hsave
  rcases save_eq_ok hsave.symm with ⟨hnone, -⟩ | ⟨path', _, hpath, -, -, -, hload⟩
  · cases hstore.symm.trans hnone
  · obtain rfl := Option.some.inj (hstore.symm.trans hpath)
    rw [resume, hload, hengine]

end Engine

/-- A session of strict rules keeps the traces genuine that it starts with, and refuses nothing in them. -/
theorem Scope.genuine_of_requireAll {scope : Scope} (hl : scope.Lawful)
    (hstrict : ∀ {t rule}, scope.allowed t → scope.book.find t = .ok rule → (rule.recipe t).run.Strict)
    {depth : Nat} {ts : List Path} {failed : List (Path × Failure)} {s : Session}
    (hts : ∀ t ∈ ts, scope.allowed t) (run : Session.requireAll scope.book depth ts
      { disk := scope.disk, traces := scope.traces } = some (failed, s)) {t : Path} {trace : Trace}
    (ht : scope.allowed t) (hget : s.traces.get? t = some trace) :
    ∃ c, trace.Genuine scope.book (fun _ _ => False) t c := by
  obtain ⟨hi, -⟩ := (requireAll_ends hl (inv_session hl) rfl hts).1 _ _ run
  obtain ⟨c, hc⟩ := hi.genuine ht hget
  obtain ⟨w, rule, hfind, hname, -, hsteps⟩ := hc.steps
  exact ⟨c, hc.output, _, rule, hfind, hname, fun _ _ h => h,
    (hstrict ht hfind).refused_nothing hsteps⟩

namespace Rulebook

/-- The disks and traces that there may be after some history: any disk without traces at first, and
    then edits, builds, builds whose traces are lost, and the removal of traces. -/
inductive History (book : Rulebook) (targets sources : Path → Prop) : Disk → TraceTable → Prop
  | start (disk : Disk) : History book targets sources disk ∅
  | edit {disk traces} (h : History book targets sources disk traces) (disk' : Disk) :
      History book targets sources disk' traces
  | build {disk traces depth ts store built} (h : History book targets sources disk traces)
      (hosts : disk.Hosts targets sources) (requested : ∀ t ∈ ts, targets t)
      (run : Engine.build { book, traces, store } depth ts disk = some built) :
      History book targets sources built.disk built.engine.traces
  | lost {disk traces depth ts store built} (h : History book targets sources disk traces)
      (hosts : disk.Hosts targets sources) (requested : ∀ t ∈ ts, targets t)
      (run : Engine.build { book, traces, store } depth ts disk = some built) :
      History book targets sources built.disk traces
  | forget {disk traces} (h : History book targets sources disk traces) (t : Path) :
      History book targets sources disk (traces.erase t)

namespace History

variable {book : Rulebook} {targets sources : Path → Prop} {disk : Disk} {traces : TraceTable}
  {depth : Nat} {ts : List Path} {failed : List (Path × Failure)} {s s' : Session} {t : Path}

section

variable (hinj : Function.Injective book.digest) (hb : book.Tidy targets sources)

include hinj hb

/-- A session keeps the traces genuine that it starts with, and refuses nothing in them. -/
theorem genuine_of_requireAll (hosts : disk.Hosts targets sources)
    (hg : ∀ {t trace}, targets t → traces.get? t = some trace →
      ∃ c, trace.Genuine book (fun _ _ => False) t c)
    (hts : ∀ t ∈ ts, targets t)
    (run : Session.requireAll book depth ts { disk, traces } = some (failed, s))
    {trace : Trace} (ht : targets t) (hget : s.traces.get? t = some trace) :
    ∃ c, trace.Genuine book (fun _ _ => False) t c := by
  exact Scope.genuine_of_requireAll (lawful_evaluationScope hb hinj hosts hg) hb.strict hts run ht hget

/-- The traces of targets are genuine, whatever happened before. -/
theorem genuine (h : History book targets sources disk traces) {trace : Trace} (ht : targets t)
    (hget : traces.get? t = some trace) : ∃ c, trace.Genuine book (fun _ _ => False) t c := by
  induction h generalizing t trace with
  | start => simp at hget
  | edit _ _ ih => exact ih ht hget
  | build _ hosts requested run ih =>
    obtain ⟨failed, s, hrun, hengine, -⟩ := Engine.exists_of_build_eq_some run
    rw [hengine] at hget
    exact genuine_of_requireAll hinj hb hosts ih requested hrun ht hget
  | lost _ _ _ _ ih => exact ih ht hget
  | forget _ u ih => exact ih ht (PathTable.get?_of_get?_erase hget)

end

end History

/-! ### Looking twice -/

/-- A rule that looks for a source, needs a target, and looks again. -/
def lookRule (source : Path) : Rule where
  name := "look"
  makes := (· == .ofText "/out/t")
  recipe := fun _ => do
    let before ← Recipe.isFile source
    Recipe.need (.ofText "/out/q")
    let after ← Recipe.isFile source
    return .ofText ((if before then "yes" else "no") ++ if after then "yes" else "no")

/-- A rule whose target is empty. -/
def emptyRule : Rule where
  name := "empty"
  makes := (· == .ofText "/out/q")
  recipe := fun _ => return .ofText ""

/-- The rules for a target that looks for a source before and after it needs another one. -/
def lookTwice (source : Path) : Rulebook where
  rules := [lookRule source, emptyRule]
  digest := Content.spelled

/-- The places of the targets that are made by looking twice. -/
def LookPlaces (l : Location) : Prop :=
  l = [.ofText "out", .ofText "t"] ∨ l = [.ofText "out", .ofText "q"]

/-- A disk with the file `/src/x` and nothing else. -/
def sourceDisk : Disk where
  top := .dir (.ofText "src") (.file (.ofText "x") (.ofText "") .empty) .empty

theorem tidy_lookTwice (source : Path) :
    (lookTwice source).Tidy (Disk.At LookPlaces) (· = source) := by
  have hq : Disk.At LookPlaces (.ofText "/out/q") := ⟨_, .inr rfl, by decide⟩
  have hfind : ∀ {t rule}, Disk.At LookPlaces t → (lookTwice source).find t = .ok rule →
      rule = lookRule source ∨ rule = emptyRule := by
    rintro _ rule ⟨_, rfl | rfl, rfl⟩ hfind
    · exact .inl (Except.ok.inj hfind).symm
    · exact .inr (Except.ok.inj hfind).symm
  constructor
  · intro t rule ht h
    rcases hfind ht h with rfl | rfl
    · exact fun _ => ⟨fun
        | .ok _ => fun _ => trivial
        | .error _ => trivial, fun _ => rfl⟩
    · trivial
  · intro t rule ht h
    rcases hfind ht h with rfl | rfl
    · exact ⟨rfl, fun _ => ⟨hq, fun
        | .ok _ => ⟨rfl, fun _ => trivial⟩
        | .error _ => trivial⟩⟩
    · trivial

end Rulebook

end ImportIndex
