import ImportIndex.Build.Rule
import ImportIndex.Build.TaskGraph
import ImportIndex.Build.Trace
import ImportIndex.FileTree.Disk

/-!
# Build sessions

A session brings targets up to date, each at most once (`Session.require`). A target that has a
trace is *clean* if the trace still holds: the rule has the same name, the artifact has the
recorded digest, and every recorded question, asked again in order, has the recorded answer. Where
the question was about another target, that target is required first. A target that is not clean
is made anew by its rule, and its artifact is written if its content is a new one. So a target
that comes out as before stops the change from spreading.

A target that is required while it is being brought up to date is a *cycle*. The rule that asked
for it is told so and may go on without it.

Rules are arbitrary, so that requests may be nested without end. `require` is given the depth to
which it follows them, and has no result (`none`) if that does not suffice.
-/

namespace ImportIndex

/-- How far a target has come in a session. -/
inductive Progress where
  /-- It is being brought up to date. -/
  | started
  /-- It is up to date, and its artifact has this digest. -/
  | done (digest : String)
  /-- It failed. -/
  | failed
deriving DecidableEq, Repr

/-- What a session did. -/
structure Stats where
  /-- Targets that were asked for from outside. -/
  requested : Nat := 0
  /-- Targets that were made anew. -/
  rebuilt : Nat := 0
  /-- Targets whose traces still held. -/
  clean : Nat := 0
  /-- Artifacts that were written. -/
  written : Nat := 0
  /-- Artifacts that were made anew and came out as before. -/
  unchanged : Nat := 0
  /-- Targets that failed. -/
  failed : Nat := 0
deriving DecidableEq, Repr

/-- Counts a target that was made anew, whose artifact was written or came out as before. -/
def Stats.countRebuilt (stats : Stats) (written : Bool) : Stats :=
  if written then { stats with rebuilt := stats.rebuilt + 1, written := stats.written + 1 }
  else { stats with rebuilt := stats.rebuilt + 1, unchanged := stats.unchanged + 1 }

/-- The state of a session. -/
structure Session where
  /-- The disk. -/
  disk : Disk
  /-- The traces of all artifacts. -/
  traces : TraceTable
  /-- How far each target has come that was required. -/
  progress : PathTable Progress := ∅
  /-- The targets that are being brought up to date, the innermost first. -/
  stack : List Path := []
  /-- The targets that were required, and which of them needed which. -/
  graph : TaskGraph := {}
  /-- What was done. -/
  stats : Stats := {}
  /-- What was told, the last event first. -/
  told : List Event := []

/-- What runs in a session. There is no result if requests are nested too deeply. -/
abbrev SessionM := StateT Session Option

namespace Session

/-- Requires a target: brings it up to date and gives the digest of its artifact. -/
abbrev Require := Path → SessionM (Except Failure String)

/-- The digest of the file at a path, or none if it cannot be read. -/
def digestOf (book : Rulebook) (path : Path) : SessionM (Option String) := do
  return ((← get).disk.read path).toOption.map book.digest

/-- Tells an event. -/
def tell (event : Event) : SessionM Unit :=
  modify fun s => { s with told := event :: s.told }

/-- Records in the graph that a target needed another one. -/
def addNeed (target needed : Path) : SessionM Unit :=
  modify fun s => { s with graph := s.graph.addDependency target needed }

/-! ### Checking a trace -/

/-- Whether a question that was asked for `target` still has the recorded answer. -/
def holds (book : Rulebook) (require : Require) (target : Path) : Dependency → SessionM Bool
  | .content path digest => return (← digestOf book path) == digest
  | .presence path found => return (← get).disk.isFile path == found
  | .artifact needed digest => do
    match ← require needed with
    | .ok current =>
      addNeed target needed
      return current == digest
    | .error cause =>
      tell (.neededFailed needed cause)
      return false

/-- Whether all questions still have the recorded answers. Those after the first that has not are
    not asked. -/
def allHold (book : Rulebook) (require : Require) (target : Path) :
    List Dependency → SessionM Bool
  | [] => return true
  | dependency :: rest => do
    if ← holds book require target dependency then allHold book require target rest
    else
      tell (.otherAnswer target dependency.path)
      return false

/-- The digest of the target's artifact, if it is clean. -/
def clean? (book : Rulebook) (require : Require) (rule : Rule) (target : Path) :
    SessionM (Option String) := do
  match (← get).traces.get? target with
  | none => return none
  | some trace =>
    if trace.rule ≠ rule.name then
      tell (.otherRule target trace.rule)
      return none
    if (← digestOf book target) ≠ some trace.output then
      tell (.otherArtifact target)
      return none
    if ← allHold book require target trace.deps then return some trace.output
    return none

/-! ### Running a rule -/

/-- The dependency that reading a file leaves: its digest, or that there was none. A file that
    cannot be read for another reason leaves none. -/
def contentRead? (book : Rulebook) (path : Path) : Except IoFault Content → Option Dependency
  | .ok content => some (.content path (some (book.digest content)))
  | .error .notFound => some (.content path none)
  | .error _ => none

/-- The text of a content, or why it has none. -/
def textOf (content : Content) : Except IoFault String :=
  match content.toText? with
  | some text => .ok text
  | none => .error (.notTextFrom (content.bytes.utf8Fault?.getD ⟨0, none⟩))

/-- Requires a target for the rule that makes `target`, and gives the dependency that this
    leaves. -/
def needFor (require : Require) (target needed : Path) :
    SessionM (Except Failure Dependency) := do
  match ← require needed with
  | .error cause => return .error cause
  | .ok digest =>
    addNeed target needed
    return .ok (.artifact needed digest)

/-- Answers the requests of a computation that is run for `target`, and gives its result with the
    dependencies that it leaves. Those that were left before are in `before`, the last one first. -/
def answer (book : Rulebook) (require : Require) (target : Path) {α : Type} :
    Tracked α → List Dependency → SessionM (α × List Dependency)
  | .done a, before => return (a, before.reverse)
  | .readText path next, before => do
    let found := (← get).disk.read path
    let before := (contentRead? book path found).toList ++ before
    answer book require target (next (found.bind textOf)) before
  | .isFile path next, before => do
    let found := (← get).disk.isFile path
    answer book require target (next found) (.presence path found :: before)
  | .need needed next, before => do
    match ← needFor require target needed with
    | .error cause => answer book require target (next (.error cause)) before
    | .ok dependency => answer book require target (next (.ok ())) (dependency :: before)
  | .artifact needed next, before => do
    match ← needFor require target needed with
    | .error cause => answer book require target (next (.error cause)) before
    | .ok dependency =>
      let text := ((← get).disk.readText needed).mapError (.readArtifact needed)
      answer book require target (next text) (dependency :: before)
  | .count next, before => answer book require target (next before.length) before
  | .tell event next, before => do
    tell event
    answer book require target next before

/-- Writes the artifact of a target, and tells whether its content is a new one. -/
def writeArtifact (target : Path) (content : Content) : SessionM (Except IoFault Bool) :=
  modifyGet fun s =>
    let (result, disk) := Disk.writeIfChanged target content s.disk
    (result, { s with disk })

/-- Makes a target by its rule and gives the digest of its artifact. -/
def make (book : Rulebook) (require : Require) (rule : Rule) (target : Path) :
    SessionM (Except Failure String) := do
  match ← answer book require target (rule.recipe target).run [] with
  | (.error cause, _) => return .error (.ruleFailed target cause)
  | (.ok content, deps) =>
    match ← writeArtifact target content with
    | .error fault => return .error (.writeArtifact target fault)
    | .ok written =>
      let output := book.digest content
      modify fun s => { s with
        stats := s.stats.countRebuilt written
        traces := s.traces.insert target { rule := rule.name, output, deps } }
      if !written then tell (.unchanged target)
      return .ok output

/-! ### Requiring a target -/

/-- Brings a target up to date by a rule, unless it is up to date. -/
def bringUpToDate (book : Rulebook) (require : Require) (rule : Rule) (target : Path) :
    SessionM (Except Failure String) := do
  match ← clean? book require rule target with
  | some digest =>
    modify fun s => { s with stats := { s.stats with clean := s.stats.clean + 1 } }
    tell (.clean target)
    return .ok digest
  | none =>
    tell (.making target rule.name)
    make book require rule target

/-- The targets that lead from the first request for `target` on the stack to the one that closes
    the cycle. -/
def cycleTo (stack : List Path) (target : Path) : List Path :=
  stack.reverse.dropWhile (fun t => !decide (t.Same target)) ++ [target]

/-- Starts to bring a target up to date. -/
def start (target : Path) (s : Session) : Session :=
  { s with
    graph := s.graph.addTask target
    progress := s.progress.insert target .started
    stack := target :: s.stack }

/-- Ends what `start` began, with this result. -/
def finish (target : Path) (result : Except Failure String) (s : Session) : Session :=
  match result with
  | .ok digest =>
    { s with progress := s.progress.insert target (.done digest), stack := s.stack.tail }
  | .error _ =>
    { s with
      progress := s.progress.insert target .failed
      stack := s.stack.tail
      stats := { s.stats with failed := s.stats.failed + 1 } }

/-- Requires a target that was not required before. -/
def visit (book : Rulebook) (require : Require) (target : Path) :
    SessionM (Except Failure String) := do
  modify (start target)
  let result ← match book.find target with
    | .error cause => pure (.error cause)
    | .ok rule => bringUpToDate book require rule target
  modify (finish target result)
  return result

/-- Requires a target. Targets that it needs are required to the depth `depth`. -/
def require (book : Rulebook) : Nat → Require
  | 0, _ => failure
  | depth + 1, target => do
    let s ← get
    match s.progress.get? target with
    | some (.done digest) => return .ok digest
    | some .failed => return .error (.dependencyFailed target)
    | some .started => return .error (.cycle (cycleTo s.stack target))
    | none => visit book (require book depth) target

/-- Requires targets one after another, and gives those that failed, each with its cause. -/
def requireAll (book : Rulebook) (depth : Nat) : List Path → SessionM (List (Path × Failure))
  | [] => return []
  | target :: targets => do
    modify fun s => { s with stats := { s.stats with requested := s.stats.requested + 1 } }
    match ← require book depth target with
    | .ok _ => requireAll book depth targets
    | .error cause =>
      tell (.failed target cause)
      return (target, cause) :: (← requireAll book depth targets)

end Session

end ImportIndex
