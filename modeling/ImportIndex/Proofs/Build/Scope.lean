import ImportIndex.Proofs.Build.World
import ImportIndex.Proofs.FileTree.Writing
import Mathlib.Logic.Relation

/-!
# What a session is confined to

A session does not do just anything: it requires certain targets, their rules ask certain questions,
and what it writes does not get into its own way. A *scope* says so (`Scope`), and its laws
(`Scope.Lawful`) are what is known of it.

* `Trace.Genuine`: a trace tells how its rule, taken through some world, came to a content;
* `Scope.Settled`: an artifact that is up to date, as are all that it depends on;
* `Settled.induct`: what holds of settled artifacts may be shown along their dependencies;
* `Settled.makes`: a settled artifact has a content that its rule makes in the world at the start of
  the session;
* `Settled.steps`: its rule gets there by the dependencies in its trace.
-/

namespace ImportIndex

/-- That no rule is found is no cycle. -/
theorem Rulebook.isCycle_of_find {book : Rulebook} {t : Path} {cause : Failure}
    (h : book.find t = .error cause) : cause.isCycle = false := by
  rw [Rulebook.find] at h
  split at h
  · exact Except.error.inj h ▸ rfl
  · cases h
  · exact Except.error.inj h ▸ rfl

/-- Whether a trace tells how the rule of a target came to a content in some world, which refuses no
    more than `refuses`. -/
structure Trace.Genuine (book : Rulebook) (refuses : Path → Failure → Prop) (target : Path)
    (content : Content) (trace : Trace) : Prop where
  /-- The digest of the content. -/
  output : trace.output = book.digest content
  /-- The rule, and what it did. -/
  steps : ∃ w rule, book.find target = .ok rule ∧ trace.rule = rule.name ∧
    (∀ t cause, World.refuses w t cause → refuses t cause) ∧
    Tracked.Steps book w 0 (rule.recipe target).run trace.deps (.done (.ok content))

theorem Trace.Genuine.mono {book : Rulebook} {refuses refuses' : Path → Failure → Prop}
    {target : Path} {content : Content} {trace : Trace}
    (h : trace.Genuine book refuses target content)
    (hr : ∀ t cause, refuses t cause → refuses' t cause) :
    trace.Genuine book refuses' target content := by
  obtain ⟨w, rule, hfind, hname, hw, hsteps⟩ := h.steps
  exact ⟨h.output, w, rule, hfind, hname, fun t cause hc => hr t cause (hw t cause hc), hsteps⟩

/-- What a session is confined to. -/
structure Scope where
  /-- The rules. -/
  book : Rulebook
  /-- The disk at the start. -/
  disk : Disk
  /-- The traces at the start. -/
  traces : TraceTable
  /-- The targets that may be required. -/
  allowed : Path → Prop
  /-- The contents that artifacts may have. -/
  makes : Path → Content → Prop
  /-- The failures with which targets may be refused. -/
  refuses : Path → Failure → Prop
  /-- The targets below which requests are nested at most so deep. -/
  within : Nat → Path → Prop

namespace Scope

/-- The world at the start. -/
def world (scope : Scope) : World where
  content p := (scope.disk.read p).toOption
  makes := scope.makes
  refuses := scope.refuses

/-- Whether the rule of a target may ask a question. -/
def Asks (scope : Scope) (target : Path) (q : Question) : Prop :=
  ∃ rule ds x, scope.book.find target = .ok rule ∧
    Tracked.Steps scope.book scope.world 0 (rule.recipe target).run ds x ∧ x.question? = some q

/-- Whether the rule of a target may ask for another one. -/
def Needs (scope : Scope) (target needed : Path) : Prop :=
  scope.allowed target ∧ scope.Asks target (.artifact needed)

/-- Whether writing targets leads to a disk. -/
def Reaches (scope : Scope) (disk : Disk) : Prop := scope.disk.Rewritten scope.allowed disk

/-- What is known of a scope. -/
structure Lawful (scope : Scope) : Prop where
  /-- Different contents have different digests. -/
  injective : Function.Injective scope.book.digest
  /-- Rules do not get over faults that leave no dependency. -/
  heeds : ∀ {t rule}, scope.allowed t → scope.book.find t = .ok rule →
    (rule.recipe t).run.HeedsFaults
  /-- Targets that are the same path are equal. -/
  same : ∀ {t u}, scope.allowed t → scope.allowed u → t.Same u → t = u
  /-- What targets need may be required. -/
  closed : ∀ {t u}, scope.allowed t → scope.Asks t (.artifact u) → scope.allowed u
  /-- Writing targets does not change what files hold that rules read. -/
  content : ∀ {disk t p}, scope.Reaches disk → scope.allowed t → scope.Asks t (.content p) →
    (disk.read p).toOption = (scope.disk.read p).toOption
  /-- Writing targets does not change where files are that rules look for. -/
  presence : ∀ {disk t p}, scope.Reaches disk → scope.allowed t → scope.Asks t (.presence p) →
    (disk.read p).toOption.isSome = (scope.disk.read p).toOption.isSome
  /-- Writing a target does not change what another one holds. -/
  apart : ∀ {disk t u c d}, scope.Reaches disk → scope.allowed t → scope.allowed u → t ≠ u →
    disk.read u = .ok c → (Disk.writeIfChanged t d disk).2.read u = .ok c
  /-- The traces at the start are genuine. -/
  genuine : ∀ {t trace}, scope.allowed t → scope.traces.get? t = some trace →
    ∃ c, trace.Genuine scope.book scope.refuses t c
  /-- Rules make contents that artifacts may have. -/
  made : ∀ {t rule ds c}, scope.allowed t → scope.book.find t = .ok rule →
    Tracked.Steps scope.book scope.world 0 (rule.recipe t).run ds (.done (.ok c)) →
    scope.makes t c
  /-- A target that needs itself may be refused for that. -/
  cycle : ∀ {t}, Relation.TransGen scope.Needs t t → ∀ chain, scope.refuses t (.cycle chain)
  /-- A target that no rule makes, or more than one, may be refused for that. -/
  unruled : ∀ {t cause}, scope.allowed t → scope.book.find t = .error cause →
    scope.refuses t cause
  /-- A target whose rule fails may be refused for that. -/
  failed : ∀ {t rule ds cause}, scope.allowed t → scope.book.find t = .ok rule →
    Tracked.Steps scope.book scope.world 0 (rule.recipe t).run ds (.done (.error cause)) →
    scope.refuses t (.ruleFailed t cause)
  /-- A target that cannot be written may be refused for that. -/
  unwritten : ∀ {disk t c fault}, scope.Reaches disk → scope.allowed t → scope.makes t c →
    (Disk.writeIfChanged t c disk).1 = .error fault → scope.refuses t (.writeArtifact t fault)
  /-- A target that was refused may be refused for that, unless it was for a cycle. -/
  again : ∀ {t cause}, scope.refuses t cause → cause.isCycle = false →
    scope.refuses t (.dependencyFailed t)
  /-- Requests are never nested at most zero levels deep. -/
  shallow : ∀ {t}, ¬ scope.within 0 t
  /-- Below what a target needs, requests are nested less deep. -/
  deeper : ∀ {n t u}, scope.allowed t → scope.within (n + 1) t → scope.Asks t (.artifact u) →
    scope.within n u

/-! ### Artifacts that are up to date -/

/-- Whether the artifact of a target has a content and is up to date, with all that it depends on.
    All of them satisfy `done`. -/
inductive Settled (scope : Scope) (done : Path → Prop) (traces : TraceTable) (disk : Disk) :
    Path → Content → Prop
  | intro {t c trace} (contents : Path → Content) (allowed : scope.allowed t) (here : done t)
      (kept : traces.get? t = some trace) (genuine : trace.Genuine scope.book scope.refuses t c)
      (read : disk.read t = .ok c)
      (content : ∀ p d, .content p d ∈ trace.deps → scope.world.Agrees scope.book (.content p d))
      (presence : ∀ p b, .presence p b ∈ trace.deps → scope.world.Agrees scope.book (.presence p b))
      (digest : ∀ u d, .artifact u d ∈ trace.deps → scope.book.digest (contents u) = d)
      (below : ∀ u d, .artifact u d ∈ trace.deps → Settled scope done traces disk u (contents u)) :
      Settled scope done traces disk t c

/-- The world in which the rule of a settled target asks for what its trace says. -/
def recorded (scope : Scope) (makes : Path → Content → Prop) (trace : Trace) : World where
  content p := (scope.disk.read p).toOption
  makes u c := makes u c ∧ .artifact u (scope.book.digest c) ∈ trace.deps
  refuses := scope.refuses

namespace Settled

variable {scope : Scope} {done done' : Path → Prop} {traces traces' : TraceTable}
  {disk disk' : Disk} {t : Path} {c d : Content}

/-- What is settled stays so as long as its traces and files stay. -/
theorem mono (h : scope.Settled done traces disk t c)
    (hdone : ∀ u, scope.allowed u → done u → done' u)
    (htraces : ∀ u, scope.allowed u → done u → traces'.get? u = traces.get? u)
    (hdisk : ∀ u c, scope.allowed u → done u → disk.read u = .ok c → disk'.read u = .ok c) :
    scope.Settled done' traces' disk' t c := by
  induction h with
  | intro contents allowed here kept genuine read content presence digest below ih =>
    exact .intro contents allowed (hdone _ allowed here) ((htraces _ allowed here).trans kept) genuine
      (hdisk _ _ allowed here read) content presence digest ih

theorem read (h : scope.Settled done traces disk t c) : disk.read t = .ok c := by
  cases h
  assumption

theorem allowed (h : scope.Settled done traces disk t c) : scope.allowed t := by
  cases h
  assumption

/-- A target has one content. -/
theorem eq (h : scope.Settled done traces disk t c) (h' : scope.Settled done traces disk t d) :
    c = d :=
  Except.ok.inj (h.read.symm.trans h'.read)

/-- What holds of all settled artifacts, as it holds of those that come out of other such artifacts
    by the dependencies in their traces. -/
theorem induct (hs : scope.Lawful) {motive : Path → Content → Prop}
    (step : ∀ {t c rule trace}, scope.allowed t → disk.read t = .ok c →
      scope.book.find t = .ok rule → traces.get? t = some trace →
      Tracked.Steps scope.book
        (scope.recorded (fun u c => scope.Settled done traces disk u c ∧ motive u c) trace) 0
        (rule.recipe t).run trace.deps (.done (.ok c)) → motive t c)
    (h : scope.Settled done traces disk t c) : motive t c := by
  induction h with
  | @intro t c trace contents allowed here kept genuine read content presence digest below ih =>
    obtain ⟨w, rule, hfind, -, hw, hsteps⟩ := genuine.steps
    refine step allowed read hfind kept ?_
    -- The world of what is settled answers as the trace says, so the rule takes the same steps there.
    refine hsteps.replay hs.injective (hs.heeds allowed hfind) hw fun dependency hd => ?_
    cases dependency with
    | content p digest => exact content p digest hd
    | presence p found => exact presence p found hd
    | artifact u d =>
      exact ⟨contents u, ⟨⟨below u d hd, ih u d hd⟩, (digest u d hd).symm ▸ hd⟩, digest u d hd⟩

/-- A settled artifact has a content that its rule makes. -/
theorem makes (hs : scope.Lawful) (h : scope.Settled done traces disk t c) : scope.makes t c := by
  refine h.induct hs (motive := scope.makes) fun allowed _ hfind _ hsteps => ?_
  refine hs.made allowed hfind (Tracked.Steps.mono ?_ ?_ ?_ hsteps)
  · exact fun _ => rfl
  · exact fun _ _ h => h.1.2
  · exact fun _ _ h => h

/-- The rule of a settled target comes to its content by the dependencies in its trace, which are
    settled. -/
theorem steps (hs : scope.Lawful) (h : scope.Settled done traces disk t c) :
    ∃ rule trace, scope.book.find t = .ok rule ∧ traces.get? t = some trace ∧
      Tracked.Steps scope.book (scope.recorded (scope.Settled done traces disk) trace) 0
        (rule.recipe t).run trace.deps (.done (.ok c)) := by
  refine h.induct hs (motive := fun t c => ∃ rule trace, scope.book.find t = .ok rule ∧
    traces.get? t = some trace ∧
      Tracked.Steps scope.book (scope.recorded (scope.Settled done traces disk) trace) 0
        (rule.recipe t).run trace.deps (.done (.ok c)))
    fun _ _ hfind hkept hsteps => ⟨_, _, hfind, hkept, Tracked.Steps.mono ?_ ?_ ?_ hsteps⟩
  · exact fun _ => rfl
  · exact fun _ _ h => ⟨h.1.1, h.2⟩
  · exact fun _ _ h => h

end Settled

end Scope

end ImportIndex
