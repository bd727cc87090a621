import ImportIndex.Proofs.Build.Backing
import ImportIndex.Proofs.Build.Drawn

/-!
# Reported needs are those in the traces

The report of a build says which targets a target needed. For a target that is done, these are the targets
that its trace tells of, in the order of paths and each of them once, whether it was found to be clean, made
after a part of its old trace was checked, or made without one (`Produces.needs_of_build`). The rules are
strict, and the traces at the start are those that such builds produced.

This needs targets and sources to keep apart on the disks. Otherwise a rule may take another way than the
check of its old trace did in the same session, and what was needed for the check alone is reported, too: a
source may appear with the directory of a target, and a target may be written over another one
(`exists_strays`).
-/

namespace ImportIndex

/-- Whether writing targets changes nothing on a disk that is read but the target that is written. -/
structure Disk.Steady (disk : Disk) (targets sources : Path → Prop) : Prop
    extends disk.Separates targets where
  /-- Writing targets does not change what sources hold. -/
  sources : ∀ {disk' p}, disk.Rewritten targets disk' → sources p →
    (disk'.read p).toOption = (disk.read p).toOption

theorem Disk.Steady.of_hosts {disk : Disk} {targets sources : Path → Prop}
    (h : disk.Hosts targets sources) : disk.Steady targets sources where
  same := h.same
  apart := h.apart
  sources := h.steady

namespace Rulebook

/-- Whether builds produce these traces: none at first, and then those at the end of builds, each on any disk
    that keeps targets and sources apart, with traces removed in between, or stored in a file and read from
    it again. -/
inductive Produces (book : Rulebook) (targets sources : Path → Prop) : TraceTable → Prop
  | start : Produces book targets sources ∅
  | build {traces disk depth ts store built} (h : Produces book targets sources traces)
      (steady : Disk.Steady disk targets sources) (requested : ∀ t ∈ ts, targets t)
      (run : Engine.build { book, traces, store } depth ts disk = some built) :
      Produces book targets sources built.engine.traces
  | forget {traces} (h : Produces book targets sources traces) (t : Path) :
      Produces book targets sources (PathTable.erase traces t)
  | reopen {traces text disk path} (h : Produces book targets sources traces)
      (stored : TraceTable.text? traces = some text) (read : Disk.readText disk path = .ok text) :
      Produces book targets sources (TraceTable.load disk path)

/-- A session in which targets may have any content, and may be refused for any reason. -/
def openScope (book : Rulebook) (targets : Path → Prop) (disk : Disk) (traces : TraceTable) : Scope where
  book := book
  disk := disk
  traces := traces
  allowed := targets
  makes _ _ := True
  refuses _ _ := True
  within _ _ := False

variable {book : Rulebook} {targets sources : Path → Prop} {disk : Disk} {traces : TraceTable}
  {depth : Nat} {ts : List Path} {t : Path}

section

variable (hinj : Function.Injective book.digest) (hb : book.Tidy targets sources)

include hinj hb

theorem lawful_openScope (hd : disk.Steady targets sources)
    (hg : ∀ {t trace}, targets t → traces.get? t = some trace →
      ∃ c, trace.Genuine book (fun _ _ => False) t c) :
    (book.openScope targets disk traces).Lawful where
  injective := hinj
  heeds ht hfind := (hb.strict ht hfind).heedsFaults
  same := hd.same
  closed ht hu := Tidy.among hu hb ht
  content hreach ht hp := hd.sources hreach (Tidy.among hp hb ht)
  presence hreach ht hp := congrArg _ (hd.sources hreach (Tidy.among hp hb ht))
  apart := hd.apart
  genuine ht hget := by
    obtain ⟨c, hc⟩ := hg ht hget
    exact ⟨c, hc.mono fun _ _ h => h.elim⟩
  made _ _ _ := trivial
  cycle _ _ := trivial
  unruled _ _ := trivial
  failed _ _ _ := trivial
  unwritten _ _ _ _ := trivial
  again _ _ := trivial
  shallow := id
  deeper _ h := h.elim

/-- Traces that builds produce are genuine. -/
theorem Produces.genuine (h : book.Produces targets sources traces) {trace : Trace} (ht : targets t)
    (hget : traces.get? t = some trace) : ∃ c, trace.Genuine book (fun _ _ => False) t c := by
  induction h generalizing t trace with
  | start => simp at hget
  | build _ steady requested run ih =>
    obtain ⟨failed, s, hrun, hengine, -⟩ := Engine.exists_of_build_eq_some run
    rw [hengine] at hget
    exact Scope.genuine_of_requireAll (lawful_openScope hinj hb steady ih) hb.strict requested hrun ht hget
  | forget _ u ih => exact ih ht (PathTable.get?_of_get?_erase hget)
  | reopen _ stored read ih =>
    rw [TraceTable.load_of_stored stored read] at hget
    exact ih ht hget

/-- After a build, a target that is done has a trace, and what the report says that it needed directly are the
    targets that this trace tells of, in the order of paths and each of them once. -/
theorem Produces.needs_of_build (h : book.Produces targets sources traces)
    (steady : disk.Steady targets sources) (requested : ∀ t ∈ ts, targets t) {store : Option Path}
    {built : Built} (run : Engine.build { book, traces, store } depth ts disk = some built) :
    ∃ failed s, Session.requireAll book depth ts { disk, traces } = some (failed, s) ∧
      built.report.graph = s.graph ∧ built.engine.traces = s.traces ∧
      ∀ t, s.Done t → ∃ trace, built.engine.traces.get? t = some trace ∧
        ((built.report.graph.dependencies t).Pairwise fun u v => u.compare v = .lt) ∧
        ∀ u, u ∈ built.report.graph.dependencies t ↔ ∃ digest, .artifact u digest ∈ trace.deps := by
  have hl : (book.openScope targets disk traces).Lawful :=
    lawful_openScope hinj hb steady (h.genuine hinj hb)
  obtain ⟨failed, s, hrun, hengine, -⟩ := Engine.exists_of_build_eq_some run
  obtain ⟨hi, -⟩ := (Scope.requireAll_ends hl (Scope.inv_session hl) rfl requested).1 _ _ hrun
  have hdrawn := (Scope.requireAll_draws hl hb.strict (Scope.inv_session hl) rfl .session requested).1
    _ _ hrun
  have hgraph : built.report.graph = s.graph := by
    rw [Engine.build_of_requireAll hrun] at run
    exact (Option.some.inj run) ▸ rfl
  have hequal : ∀ {u v : Path}, targets u → targets v → u.Same v → u = v := steady.same
  refine ⟨failed, s, hrun, hgraph, by rw [hengine], fun t hdone => ?_⟩
  -- The target is spelled in the way in which it may be required.
  obtain ⟨digest, hp⟩ := hdone
  obtain ⟨t', ht', hs⟩ := hi.visited hp
  obtain ⟨c, hsettled, -⟩ := hi.done ht' ((PathTable.get?_congr hs).trans hp)
  cases hsettled with
  | @intro _ _ trace contents _ _ kept _ _ _ _ _ below =>
    have hkept : s.traces.get? t = some trace := (PathTable.get?_congr hs).symm.trans kept
    refine ⟨trace, by rw [hengine]; exact hkept, TaskGraph.pairwise_dependencies _ _, fun u => ?_⟩
    rw [hgraph, hdrawn.sane.mem_dependencies_iff, hdrawn.done ⟨digest, hp⟩,
      TraceTable.needs_iff_of_get? hkept]
    constructor
    · rintro ⟨hu, v, digest', hd, hsame⟩
      obtain rfl := hequal (below v digest' hd).allowed (hdrawn.tasks hu) hsame
      exact ⟨digest', hd⟩
    · rintro ⟨digest', hd⟩
      have hmention : Dependency.Mention trace.deps u := ⟨u, digest', hd, rfl⟩
      refine ⟨?_, hmention⟩
      obtain ⟨a, b, hedge, -, hb⟩ := (hdrawn.done ⟨digest, hp⟩).2
        ((TraceTable.needs_iff_of_get? hkept).2 hmention)
      have hmem := hdrawn.sane.target hedge
      exact hequal (hdrawn.tasks hmem) (below u digest' hd).allowed hb ▸ hmem

end

/-! ### Going another way -/

/-- A rule that is found is one of the rules. -/
theorem mem_of_find {rule : Rule} (h : book.find t = .ok rule) : rule ∈ book.rules := by
  rw [find] at h
  split at h
  · cases h
  · next rule' hrules =>
    obtain rfl := Except.ok.inj h
    have hmem : rule' ∈ book.rulesFor t := hrules ▸ List.mem_singleton_self rule'
    exact (List.mem_filter.1 hmem).1
  · cases h

/-- A rule that needs another target, unless there is something near. -/
def turnRule (near : Recipe Bool) (other : Path) : Rule where
  name := "turn"
  makes := (· == .ofText "/t")
  recipe := fun _ => do
    if ← near then return .ofText "near"
    Recipe.need other
    return .ofText "far"

/-- A rule whose target is a copy of a source. -/
def copyRule (target : Path) : Rule where
  name := "copy"
  makes := (· == target)
  recipe := fun _ => do return .ofText (← Recipe.readText (.ofText "/src/x"))

/-- The rules for a target that needs a copy of a source, unless there is something near. -/
def turning (near : Recipe Bool) (other : Path) : Rulebook where
  rules := [turnRule near other, copyRule other, emptyRule]
  digest := Content.spelled

/-- Whether there is a file. -/
def nearFile (p : Path) : Recipe Bool := Recipe.isFile p

/-- Whether the artifact of the empty target has a text. -/
def nearText : Recipe Bool := do return (← Recipe.artifact (.ofText "/out/q")) != ""

/-- The places of the targets of these rules. -/
def TurnPlaces (l : Location) : Prop :=
  l = [.ofText "t"] ∨ l = [.ofText "out", .ofText "q"] ∨ l = [.ofText "out", .ofText "p"]

/-- The disk after the target was made, the source was edited and the directory `/out` was removed. -/
def removedDisk : Disk where
  top := .dir (.ofText "src") (.file (.ofText "x") (.ofText "new") .empty)
    (.file (.ofText "t") (.ofText "far") .empty)

/-- The disk after the target was made and the source was edited. -/
def editedDisk : Disk where
  top := .dir (.ofText "src") (.file (.ofText "x") (.ofText "new") .empty)
    (.dir (.ofText "out") (.file (.ofText "q") (.ofText "") .empty)
      (.file (.ofText "t") (.ofText "far") .empty))

theorem tidy_turning {near : Recipe Bool} {other : Path} (hx : sources (.ofText "/src/x"))
    (hstrict : ((turnRule near other).recipe (.ofText "/t")).run.Strict)
    (hasks : ((turnRule near other).recipe (.ofText "/t")).run.AsksOnly
      (Question.Among targets sources)) : (turning near other).Tidy targets sources := by
  constructor
  · intro t rule _ hfind
    have hrule : rule ∈ [turnRule near other, copyRule other, emptyRule] := mem_of_find hfind
    simp only [List.mem_cons, List.not_mem_nil, or_false] at hrule
    rcases hrule with rfl | rfl | rfl
    · exact hstrict
    · exact ⟨fun
        | .ok _ => trivial
        | .error _ => trivial, fun _ => rfl⟩
    · trivial
  · intro t rule _ hfind
    have hrule : rule ∈ [turnRule near other, copyRule other, emptyRule] := mem_of_find hfind
    simp only [List.mem_cons, List.not_mem_nil, or_false] at hrule
    rcases hrule with rfl | rfl | rfl
    · exact hasks
    · exact ⟨hx, fun
        | .ok _ => trivial
        | .error _ => trivial⟩
    · trivial

theorem tidy_nearFile {p other : Path} (hx : sources (.ofText "/src/x")) (hp : sources p)
    (hother : targets other) : (turning (nearFile p) other).Tidy targets sources := by
  refine tidy_turning hx ?_ ?_
  · exact fun
      | true => trivial
      | false => ⟨fun
        | .ok _ => trivial
        | .error _ => trivial, fun _ => rfl⟩
  · exact ⟨hp, fun
      | true => trivial
      | false => ⟨hother, fun
        | .ok _ => trivial
        | .error _ => trivial⟩⟩

theorem tidy_nearText {other : Path} (hx : sources (.ofText "/src/x")) (hq : targets (.ofText "/out/q"))
    (hother : targets other) : (turning nearText other).Tidy targets sources := by
  refine tidy_turning hx ⟨?_, fun _ => rfl⟩ ⟨hq, ?_⟩
  · rintro (cause | text)
    · trivial
    · change Tracked.Strict (ExceptT.run (if text != "" then _ else _))
      cases text != ""
      · exact ⟨fun
          | .ok _ => trivial
          | .error _ => trivial, fun _ => rfl⟩
      · trivial
  · rintro (cause | text)
    · trivial
    · change Tracked.AsksOnly _ (ExceptT.run (if text != "" then _ else _))
      cases text != ""
      · exact ⟨hother, fun
          | .ok _ => trivial
          | .error _ => trivial⟩
      · trivial

theorem room_turning {disk : Disk} (hfree : ∀ {l}, TurnPlaces l → disk.Free l)
    (hrefuses : ∀ p step, disk.refuses p step = none) : disk.Room TurnPlaces where
  names := by
    rintro l (rfl | rfl | rfl) <;> decide
  nonempty := by
    rintro l (rfl | rfl | rfl) <;> simp
  usable := by
    rintro l (rfl | rfl | rfl) <;> decide
  free := hfree
  apart := by
    rintro l m (rfl | rfl | rfl) (rfl | rfl | rfl) <;> decide
  refuses _ _ := hrefuses _ _

theorem room_sourceDisk_turning : sourceDisk.Room TurnPlaces :=
  room_turning (by rintro l (rfl | rfl | rfl) <;> decide) fun _ _ => rfl

theorem room_removedDisk_turning : removedDisk.Room TurnPlaces :=
  room_turning (by rintro l (rfl | rfl | rfl) <;> decide) fun _ _ => rfl

theorem steady_turning {sources : Path → Prop} (hr : disk.Room TurnPlaces)
    (hs : ∀ p, sources p → p = .ofText "/src/x" ∨ p = .ofText "/src/y") :
    disk.Steady (Disk.At TurnPlaces) sources := by
  refine .of_hosts (hr.hosts fun p hp => ?_)
  rcases hs p hp with rfl | rfl
  · refine ⟨[.ofText "src", .ofText "x"], by decide +kernel, ?_, by decide +kernel⟩
    rintro (h | h | h) <;> exact absurd h (by decide +kernel)
  · refine ⟨[.ofText "src", .ofText "y"], by decide +kernel, ?_, by decide +kernel⟩
    rintro (h | h | h) <;> exact absurd h (by decide +kernel)

theorem at_turnPlaces {t : Path} (ht : t ∈ [Path.ofText "/t", .ofText "/out/q", .ofText "/out/p"]) :
    Disk.At TurnPlaces t := by
  simp only [List.mem_cons, List.not_mem_nil, or_false] at ht
  rcases ht with rfl | rfl | rfl
  · exact ⟨_, .inl rfl, by decide +kernel⟩
  · exact ⟨_, .inr (.inl rfl), by decide +kernel⟩
  · exact ⟨_, .inr (.inr rfl), by decide +kernel⟩

theorem needs_of_build_turning :
    let t : Path := .ofText "/t"
    let book := turning (nearFile (.ofText "/src/y")) (.ofText "/out/p")
    ∃ built again, Engine.build { book } 3 [t] sourceDisk = some built ∧
      Engine.build { book, traces := built.engine.traces } 3 [t] removedDisk = some again ∧
      ∀ u, u ∈ again.report.graph.dependencies t ↔ u = .ofText "/out/p" := by
  intro t book
  have hrun : ((Engine.build { book } 3 [t] sourceDisk).bind fun built =>
      (Session.requireAll book 3 [t] { disk := removedDisk, traces := built.engine.traces }).map
        fun r => (r.2.progress.get? t, (r.2.traces.get? t).map (·.deps))) =
      some (some (.done "far"),
        some [.presence (.ofText "/src/y") false, .artifact (.ofText "/out/p") "new"]) := by
    decide +kernel
  obtain ⟨built, hbuilt, h⟩ := Option.bind_eq_some_iff.1 hrun
  obtain ⟨⟨failed, s⟩, run, h⟩ := Option.map_eq_some_iff.1 h
  obtain ⟨hdone, hdeps⟩ : _ ∧ _ := by simpa only [Prod.mk.injEq] using h
  let sources : Path → Prop := fun p => p = .ofText "/src/x" ∨ p = .ofText "/src/y"
  have hsteady : ∀ {disk : Disk}, disk.Room TurnPlaces → disk.Steady (Disk.At TurnPlaces) sources :=
    fun hr => steady_turning hr fun _ hp => hp
  have hbook : book.Tidy (Disk.At TurnPlaces) sources :=
    tidy_nearFile (.inl rfl) (.inr rfl) (at_turnPlaces (by simp))
  have ht : ∀ u ∈ [t], Disk.At TurnPlaces u := by simpa using at_turnPlaces (t := t) (by simp [t])
  have hproduces := Produces.start.build (hsteady room_sourceDisk_turning) ht hbuilt
  let engine : Engine := { book, traces := built.engine.traces }
  have hagain := @Engine.build_of_requireAll engine 3 [t] removedDisk failed s run
  obtain ⟨failed', s', run', -, htraces, hneeds⟩ :=
    Produces.needs_of_build Content.spelled_injective hbook hproduces
      (hsteady room_removedDisk_turning) ht hagain
  refine ⟨built, _, hbuilt, hagain, fun u => ?_⟩
  obtain ⟨rfl, rfl⟩ := Prod.mk.inj (Option.some.inj (run.symm.trans run'))
  obtain ⟨trace, hget, -, hmem⟩ := hneeds t ⟨_, hdone⟩
  obtain ⟨trace', hget', hdeps⟩ := Option.map_eq_some_iff.1 hdeps
  obtain rfl := Option.some.inj (hget'.symm.trans hget)
  rw [hmem, hdeps]
  simp

/-- Whether a target is done after two builds, and reported to need something that its trace does not tell
    of. -/
def Strays (book : Rulebook) (disk disk' : Disk) (t u : Path) : Prop :=
  ∃ built again trace, Engine.build { book } 3 [t] disk = some built ∧
    Engine.build { book, traces := built.engine.traces } 3 [t] disk' = some again ∧
    again.report.failed = [] ∧ again.engine.traces.get? t = some trace ∧
    u ∈ again.report.graph.dependencies t ∧ ∀ digest, .artifact u digest ∉ trace.deps

/-- A target strays if that can be seen. -/
theorem strays_of_run {book : Rulebook} {disk disk' : Disk} {t u : Path} (needs : List Path)
    (deps : List Dependency)
    (hrun : ((Engine.build { book } 3 [t] disk).bind fun built =>
      (Engine.build { book, traces := built.engine.traces } 3 [t] disk').map fun again =>
        (again.report.failed, again.report.graph.find? t, again.report.graph.needs t,
          (again.engine.traces.get? t).map (·.deps))) = some ([], some t, needs, some deps))
    (hneeds : u ∈ needs) (hdeps : ∀ digest, .artifact u digest ∉ deps) :
    Strays book disk disk' t u := by
  obtain ⟨built, hbuilt, h⟩ := Option.bind_eq_some_iff.1 hrun
  obtain ⟨again, hagain, h⟩ := Option.map_eq_some_iff.1 h
  simp only [Prod.mk.injEq] at h
  obtain ⟨hfailed, hfind, rfl, htrace⟩ := h
  obtain ⟨trace, hget, rfl⟩ := Option.map_eq_some_iff.1 htrace
  refine ⟨built, again, trace, hbuilt, hagain, hfailed, hget, ?_, hdeps⟩
  rwa [TaskGraph.dependencies, hfind, Path.mem_sorted]

/-- A target may be reported to need what its trace does not tell of, if its rule takes another way than the
    check of its old trace: when a source appears with the directory of a target, and when a target is
    written over another one. -/
theorem exists_strays :
    (Function.Injective (turning (nearFile (.ofText "/out/../src/x")) (.ofText "/out/p")).digest ∧
      (turning (nearFile (.ofText "/out/../src/x")) (.ofText "/out/p")).Tidy (Disk.At TurnPlaces)
        (fun p => p = .ofText "/src/x" ∨ p = .ofText "/out/../src/x") ∧
      (∀ t p, Disk.At TurnPlaces t → p = .ofText "/src/x" ∨ p = .ofText "/out/../src/x" → ¬ t.Same p) ∧
      sourceDisk.Steady (Disk.At TurnPlaces) (· = .ofText "/src/x") ∧
      removedDisk.Steady (Disk.At TurnPlaces) (· = .ofText "/src/x") ∧
      Strays (turning (nearFile (.ofText "/out/../src/x")) (.ofText "/out/p")) sourceDisk removedDisk
        (.ofText "/t") (.ofText "/out/p")) ∧
    Function.Injective (turning nearText (.ofText "/out/../out/q")).digest ∧
      (turning nearText (.ofText "/out/../out/q")).Tidy
        (· ∈ [.ofText "/t", .ofText "/out/q", .ofText "/out/../out/q"]) (· = .ofText "/src/x") ∧
      (∀ t ∈ [Path.ofText "/t", .ofText "/out/q", .ofText "/out/../out/q"],
        ¬ t.Same (.ofText "/src/x")) ∧
      Strays (turning nearText (.ofText "/out/../out/q")) sourceDisk editedDisk (.ofText "/t")
        (.ofText "/out/../out/q") := by
  refine ⟨⟨Content.spelled_injective, ?_, ?_, ?_, ?_, ?_⟩, Content.spelled_injective, ?_, ?_, ?_⟩
  · exact tidy_nearFile (.inl rfl) (.inr rfl) (at_turnPlaces (by simp))
  · rintro _ _ ⟨_, rfl | rfl | rfl, rfl⟩ (rfl | rfl) <;> unfold Path.Same <;> decide +kernel
  · exact steady_turning room_sourceDisk_turning fun _ hp => .inl hp
  · exact steady_turning room_removedDisk_turning fun _ hp => .inl hp
  · exact strays_of_run [.ofText "/out/p"] [.presence (.ofText "/out/../src/x") true]
      (by decide +kernel) (by simp) (by simp)
  · exact tidy_nearText rfl (by simp) (by simp)
  · unfold Path.Same
    decide +kernel
  · refine strays_of_run [.ofText "/out/q", .ofText "/out/../out/q"]
      [.artifact (.ofText "/out/q") ""] (by decide +kernel) (by simp) fun digest hd => ?_
    have hq : Path.ofText "/out/../out/q" = .ofText "/out/q" :=
      (Dependency.artifact.inj (List.mem_singleton.1 hd)).1
    exact absurd hq (by decide +kernel)

end Rulebook

end ImportIndex
