import ImportIndex.Command.Arguments
import ImportIndex.Command.Complaint
import ImportIndex.Command.Display
import ImportIndex.Command.Notice

/-!
# Running commands

What each verb does to the disk, what it prints, and whether it succeeds. Notices are printed before
all else that is said about failures, and a command that fails prints its complaint last. Since some
output tells how long the work took, output is a function of that time.
-/

namespace ImportIndex.Command

/-- What a command prints and whether it succeeds. -/
structure Outcome where
  /-- What is printed as the result, given how long the command took. -/
  output : Duration → String := fun _ => ""
  /-- What is reported on the way. -/
  notices : List Notice := []
  /-- What is printed about failures. -/
  errors : String := ""
  /-- Whether the command succeeds. -/
  succeeds : Bool := true

/-- The outcome with more notices in front of those it has. -/
def Outcome.noting (notices : List Notice) (outcome : Outcome) : Outcome :=
  { outcome with notices := notices ++ outcome.notices }

/-- The outcome with those of its notices that are printed. -/
def Outcome.shown (verbose : Bool) (outcome : Outcome) : Outcome :=
  { outcome with notices := outcome.notices.filter (·.severity.isShown verbose) }

/-- The code with which a command ends. -/
def Outcome.code (outcome : Outcome) : Nat := if outcome.succeeds then 0 else 1

/-- A command that prints a text and succeeds. -/
def printing (text : String) : Outcome := { output := fun _ => text }

/-- A command that fails with a complaint, without other output. -/
def failing (complaint : Complaint) : Outcome := { errors := complaint.text, succeeds := false }

/-- A command that prints structured text, or fails because some path in it is no text. -/
def printingJson : Option Json → Outcome
  | some json => printing (json.render ++ "\n")
  | none => failing ⟨"Failed to serialize output as JSON", [TraceTable.notTextReason]⟩

/-- A command that ends with a complaint about a failure, which came up while something was done. -/
def failingDuring (doing : String) (failure : Failure) : Outcome :=
  failing ((Complaint.ofFailure failure).during doing)

/-- What was done while traces could not be stored at the end of a build. -/
def building : String := "Failed to build dependency artifacts"

/-- What was done while the path of a source was refused. -/
def readingSource : String := "Invalid source path"

/-- What was done while a project turned out to have no rules. -/
def settingUp : String := "Failed to set up dependency rules"

/-- The engine of a project that has these traces. -/
def engineOf (project : Project) (traces : TraceTable) : Except Failure Engine := do
  return .storing (← project.rulebook) project.traceFile traces

/-! ### Build -/

/-- The counts of a build, in structured text. -/
def statsJson (stats : Stats) : Json := .object
  [("requested", .ofNat stats.requested), ("rebuilt", .ofNat stats.rebuilt),
   ("clean", .ofNat stats.clean), ("written", .ofNat stats.written),
   ("unchanged", .ofNat stats.unchanged), ("failed", .ofNat stats.failed)]

/-- A target that failed, in structured text. -/
def failedJson? (target : Path) (failure : Failure) : Option Json := do
  return .object [("target", ← jsonPath? target), ("error", .text failure.message)]

/-- A target and what it needed, in structured text, as seen from the project root. -/
def orderedJson? (root : Path) (graph : TaskGraph) (target : Path) : Option Json := do
  return .object
    [("target", ← jsonPath? (target.shortened root)),
     ("needs", ← jsonPaths? ((graph.dependencies target).map (·.shortened root)))]

/-- What a build did, in structured text. -/
def reportJson? (root : Path) (sources : List Path) (report : Report) (order : List Path) :
    Option Json := do
  return .object
    [("sources", .ofNat sources.length),
     ("stats", statsJson report.stats),
     ("failed", .list (← report.failed.mapM fun e => failedJson? e.1 e.2)),
     ("build_order", .list (← order.mapM (orderedJson? root report.graph)))]

/-- What is said about the number of targets that failed. -/
def failedCount (report : Report) : String := plural report.failed.length "target" ++ " failed"

/-- The outcome of a build, given what was printed about it. -/
def afterBuild (report : Report) (outcome : Outcome) : Outcome :=
  if report.succeeded then outcome
  else { outcome with
    errors := outcome.errors ++ (Complaint.text ⟨failedCount report, []⟩)
    succeeds := false }

/-- What a build prints for people. -/
def buildText (sources : List Path) (report : Report) : Outcome where
  output d :=
    (if report.succeeded then
      headline .done ("Dependencies up to date (" ++ plural sources.length "source" ++ ")")
    else "")
    ++ numberField "Targets visited" report.graph.tasks.length
    ++ numberField "Rebuilt" report.stats.rebuilt
    ++ numberField "Written" report.stats.written
    ++ numberField "Unchanged" report.stats.unchanged
    ++ numberField "Up to date" report.stats.clean
    ++ durationField d
  errors :=
    String.join (report.failed.map fun e => headline .fail e.2.message)
    ++ (if report.succeeded then "" else headline .warn (failedCount report))

/-- The outcome of a build that has a report. -/
def buildOutcome (project : Project) (sources : List Path) (format : Format) (report : Report) :
    Outcome :=
  match format with
  | .text => afterBuild report (buildText sources report)
  | .json =>
    match report.graph.buildOrder with
    | .error task => failingDuring "Failed to order build targets" (.cycle [task])
    | .ok order =>
      match reportJson? project.root sources report order with
      | none => printingJson none
      | some json => afterBuild report (printingJson (some json))

/-- Builds targets of a project. The outcome depends on what was built. -/
def buildTargets (depth : Nat) (project : Project) (targets : List Path) (outcome : Built → Outcome)
    (disk : Disk) : Option (Outcome × Disk) :=
  let found := TraceTable.read disk project.traceFile
  match engineOf project (.orNone found) with
  | .error failure => some (failingDuring settingUp failure, disk)
  | .ok engine => do
    let built ← engine.build depth targets disk
    let notices := Notice.ofTraces project.traceFile found :: Notice.ofBuild targets built
    return ((outcome built).noting notices, built.disk)

/-- Brings the artifacts of these sources up to date. -/
def buildSources (depth : Nat) (project : Project) (sources : List Path) (format : Format)
    (disk : Disk) : Option (Outcome × Disk) :=
  let outcome (built : Built) := match built.result with
    | .error failure => failingDuring building failure
    | .ok report => buildOutcome project sources format report
  buildTargets depth project (project.targets sources) outcome disk

/-- Brings the artifacts of the given sources up to date, or those of all sources if none are
    given. -/
def build (depth : Nat) (project : Project) (files : List Path) (format : Format) (disk : Disk) :
    Option (Outcome × Disk) :=
  let sources :=
    if files.isEmpty then .ok (project.sources disk) else files.mapM project.relativeSource
  match sources, format with
  | .error failure, _ => some (failingDuring readingSource failure, disk)
  | .ok [], .text => some (printing (headline .note "No sources found"), disk)
  | .ok sources, format => buildSources depth project sources format disk

/-! ### Imports -/

/-- The imports of a source, in structured text. -/
def importsJson? (kind : ArtifactKind) (source : Path) (imports : List Path) : Option Json := do
  return .object
    [("file", ← jsonPath? source), ("imports", ← jsonPaths? imports), ("kind", .text kind.name)]

/-- What is printed about the imports of a source. -/
def importsOutcome (format : Format) (kind : ArtifactKind) (source : Path) (imports : List Path) :
    Outcome :=
  match format with
  | .text => printing (pathLines 0 imports)
  | .json => printingJson (importsJson? kind source imports)

/-- The outcome of listing the imports of a source, after its artifact was built. -/
def depsOutcome (project : Project) (kind : ArtifactKind) (source : Path) (format : Format)
    (built : Built) : Outcome :=
  match built.result.map (·.failureOf? (kind.artifact project.outputRoot source)) with
  | .error failure => failingDuring building failure
  | .ok (some failure) => failing ⟨failure.message, []⟩
  | .ok none =>
    match built.disk.importsOf kind project.outputRoot source with
    | .error failure => failing (.ofFailure failure)
    | .ok imports => importsOutcome format kind source imports

/-- Prints the imports of a source, after its artifact was brought up to date. -/
def deps (depth : Nat) (project : Project) (file : Path) (transitive : Bool) (format : Format)
    (disk : Disk) : Option (Outcome × Disk) :=
  match project.relativeSource file with
  | .error failure => some (failingDuring readingSource failure, disk)
  | .ok source =>
    let kind := if transitive then ArtifactKind.transitive else .direct
    let target := kind.artifact project.outputRoot source
    buildTargets depth project [target] (depsOutcome project kind source format) disk

/-! ### Sweeps -/

/-- What a sweep removed, in structured text. -/
def sweepJson? (sweep : Sweep) : Option Json := do
  let stats : Json := .object
    [("artifacts_scanned", .ofNat sweep.scanned),
     ("artifacts_deleted", .ofNat sweep.removed.length),
     ("bytes_freed", .ofNat sweep.freed),
     ("traces_removed", .ofNat sweep.forgotten)]
  return .object [("stats", stats), ("deleted_paths", ← jsonPaths? sweep.removed)]

/-- What a sweep prints for people. -/
def sweepText (rehearsal : Bool) (sweep : Sweep) : Outcome where
  output d :=
    (if rehearsal then
      headline .note "Dry run, nothing removed. Would remove:" ++ pathLines 2 sweep.removed
    else headline .done "Garbage collection complete")
    ++ numberField "Artifacts scanned" sweep.scanned
    ++ numberField "Artifacts removed" sweep.removed.length
    ++ numberField "Traces removed" sweep.forgotten
    ++ field "Space freed" (size sweep.freed)
    ++ durationField d

/-- The outcome of a sweep. -/
def sweepOutcome (rehearsal : Bool) (format : Format) : Except Failure Sweep → Outcome
  | .error failure => failingDuring "Garbage collection failed" failure
  | .ok sweep =>
    match format with
    | .text => sweepText rehearsal sweep
    | .json => printingJson (sweepJson? sweep)

/-- Sweeps, or rehearses a sweep. -/
def gc (project : Project) (rehearsal : Bool) (format : Format) (disk : Disk) : Outcome × Disk :=
  let (result, swept) := Sweep.run project rehearsal disk
  let notices := Notice.ofSweep project rehearsal disk result
  ((sweepOutcome rehearsal format result).noting notices, swept)

/-! ### Status -/

/-- How a project stands. -/
structure Standing where
  /-- The root of the project. -/
  root : Path
  /-- The directory of the artifacts. -/
  outputRoot : Path
  /-- The number of sources. -/
  sources : Nat
  /-- The number of artifacts that list direct imports. -/
  direct : Nat
  /-- The number of artifacts that list transitive imports. -/
  transitive : Nat
  /-- The number of traces. -/
  traces : Nat

/-- How a project that has these traces stands. -/
def Standing.of (project : Project) (traces : TraceTable) (disk : Disk) : Standing where
  root := project.root
  outputRoot := project.outputRoot
  sources := (project.sources disk).length
  direct := (project.artifacts disk).countP (·.kind == .direct)
  transitive := (project.artifacts disk).countP (·.kind == .transitive)
  traces := traces.size

/-- How a project stands, in structured text. -/
def Standing.json? (standing : Standing) : Option Json := do
  return .object
    [("root", ← jsonPath? standing.root),
     ("output_root", ← jsonPath? standing.outputRoot),
     ("sources", .ofNat standing.sources),
     ("direct_artifacts", .ofNat standing.direct),
     ("transitive_artifacts", .ofNat standing.transitive),
     ("traces", .ofNat standing.traces)]

/-- How a project stands, for people. -/
def Standing.text (standing : Standing) : String :=
  headline .note s!"Project: {standing.root.shown}"
  ++ field "Output" standing.outputRoot.shown
  ++ numberField "Sources" standing.sources
  ++ numberField "Direct artifacts" standing.direct
  ++ numberField "Transitive artifacts" standing.transitive
  ++ numberField "Traces" standing.traces

/-- Tells how the project stands. -/
def status (project : Project) (format : Format) (disk : Disk) : Outcome :=
  let found := TraceTable.read disk project.traceFile
  let standing := Standing.of project (.orNone found) disk
  let outcome := match format with
    | .text => printing standing.text
    | .json => printingJson standing.json?
  outcome.noting [Notice.ofTraces project.traceFile found]

/-! ### Commands -/

/-- Runs a verb on a project. -/
def runVerb (depth : Nat) (project : Project) (verb : Verb) (format : Format) (disk : Disk) :
    Option (Outcome × Disk) :=
  match verb with
  | .build files => build depth project files format disk
  | .deps file transitive => deps depth project file transitive format disk
  | .gc rehearsal => some (gc project rehearsal format disk)
  | .status => some (status project format disk, disk)

/-- Carries out a verb, and gives all notices. The directory of the artifacts is `outputDir` instead
    of the one in the settings of the project, if it is given. There is no result if targets need
    one another more than `depth` levels deep. -/
def performNoting (depth : Nat) (invocation : Invocation) (outputDir : Option String)
    (disk : Disk) : Option (Outcome × Disk) :=
  match Project.load disk invocation.root outputDir with
  | .error fault =>
    let doing := s!"Failed to load project at {invocation.root.shown}"
    let outcome := failing ((Complaint.ofProjectFault fault).during doing)
    some (outcome.noting (Notice.ofProjectFault fault), disk)
  | .ok project => do
    let (outcome, changed) ← runVerb depth project invocation.verb invocation.format disk
    return (outcome.noting (Notice.ofProject project outputDir disk), changed)

/-- Carries out a verb, with those of the notices that are printed. -/
def perform (depth : Nat) (invocation : Invocation) (outputDir : Option String) (disk : Disk) :
    Option (Outcome × Disk) := do
  let (outcome, changed) ← performNoting depth invocation outputDir disk
  return (outcome.shown invocation.verbose, changed)

/-- The name of the program and its version. -/
def versionText : String := "depcache 0.1.0"

/-- Does what a command line asks for. -/
def run (depth : Nat) (request : Request) (outputDir : Option String) (disk : Disk) :
    Option (Outcome × Disk) :=
  match request with
  | .version => some (printing (versionText ++ "\n"), disk)
  | .perform invocation => perform depth invocation outputDir disk

end ImportIndex.Command
