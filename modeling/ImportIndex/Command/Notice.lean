import ImportIndex.Artifact.Sweep
import ImportIndex.Build.Engine
import ImportIndex.Import.Rules

/-!
# Notices

What a command reports on its way, whatever its result: how its project was opened
(`Notice.ofProject`), what became of the trace file (`Notice.ofTraces`), what a build told
(`Notice.ofBuild`) and what a sweep took away (`Notice.ofSweep`). Grave notices are always printed,
the others only if that is asked for (`Severity.isShown`).
-/

namespace ImportIndex.Command

/-- How grave a notice is. -/
inductive Severity where
  /-- It tells a step of the work. -/
  | detail
  /-- It tells how far the work has come. -/
  | info
  /-- Something was left out, and the command goes on without it. -/
  | warning
  /-- Something failed. -/
  | error
deriving DecidableEq, Repr

namespace Severity

/-- The word for how grave a notice is, on the right of five places. -/
def label : Severity → String
  | detail => "DEBUG"
  | info => " INFO"
  | warning => " WARN"
  | error => "ERROR"

/-- Whether notices as grave as this are printed. -/
def isShown (verbose : Bool) : Severity → Bool
  | detail => verbose
  | info => verbose
  | warning => true
  | error => true

end Severity

/-- Something that a command reports on its way. -/
structure Notice where
  /-- How grave it is. -/
  severity : Severity
  /-- What it is. -/
  message : String
  /-- What it is about: names, each with a value. -/
  details : List (String × String) := []
deriving DecidableEq, Repr

namespace Notice

/-- The notice as it is printed. -/
def text (notice : Notice) : String :=
  notice.severity.label ++ " depcache: " ++ notice.message ++
    String.join (notice.details.map fun d => " " ++ d.1 ++ "=" ++ d.2) ++ "\n"

/-- A path in the details of a notice. -/
def about (name : String) (path : Path) : String × String := (name, path.shown)

/-- A number in the details of a notice. -/
def number (name : String) (n : Nat) : String × String := (name, toString n)

/-! ### Projects -/

/-- The notice about a settings file that is read. -/
def ofSettings (file : Path) : Notice := ⟨.detail, "loading config", [about "path" file]⟩

/-- The notices about a project that was opened, with the directory of the artifacts that was chosen
    instead of the one in the settings. -/
def ofProject (project : Project) (outputDir : Option String) (disk : Disk) : List Notice :=
  let file := project.root.join Project.settingsFile
  let loading := if disk.isFile file then [ofSettings file] else []
  let choosing := match outputDir with
    | some dir =>
      if dir.isEmpty then []
      else [⟨.detail, "output directory overridden from environment", [("output_dir", dir)]⟩]
    | none => []
  loading ++ choosing ++ [⟨.detail, "project loaded",
    [about "root" project.root, about "output_root" project.outputRoot]⟩]

/-- The notices about a project that could not be opened. -/
def ofProjectFault : ProjectFault → List Notice
  | .root _ _ => []
  | .unreadable file _ => [ofSettings file]
  | .malformed file _ => [ofSettings file]

/-! ### Trace files -/

/-- The notice about a trace file that does not count. -/
def ofTraceFile (file : Path) : TraceFileFault → Notice
  | .missing => ⟨.detail, "no trace database, starting fresh", [about "path" file]⟩
  | .unreadable fault =>
    ⟨.warning, "failed to read trace database, discarding",
      [about "path" file, ("error", fault.message)]⟩
  | .malformed fault =>
    ⟨.warning, "corrupted trace database, discarding",
      [about "path" file, ("error", fault.message)]⟩
  | .otherVersion found =>
    ⟨.warning, "trace database version mismatch, discarding",
      [about "path" file, number "found" found, number "expected" TraceTable.version]⟩

/-- The notice about what was found in a trace file. -/
def ofTraces (file : Path) : Except TraceFileFault TraceTable → Notice
  | .ok traces =>
    ⟨.detail, "loaded trace database", [about "path" file, number "traces" traces.size]⟩
  | .error fault => ofTraceFile file fault

/-! ### Builds -/

/-- The notice about an event. -/
def ofEvent : Event → Notice
  | .clean target => ⟨.detail, "up to date", [about "artifact" target]⟩
  | .otherRule target previous =>
    ⟨.detail, "rule changed", [about "artifact" target, ("previous", previous)]⟩
  | .otherArtifact target =>
    ⟨.detail, "artifact missing or modified", [about "artifact" target]⟩
  | .otherAnswer target asked =>
    ⟨.detail, "dependency changed", [about "artifact" target, about "dependency" asked]⟩
  | .neededFailed needed cause =>
    ⟨.detail, "dependency failed during check",
      [about "dependency" needed, ("error", cause.message)]⟩
  | .making target rule =>
    ⟨.info, "building", [about "artifact" target, ("rule", visible rule)]⟩
  | .unchanged target =>
    ⟨.detail, "artifact unchanged, left in place", [about "artifact" target]⟩
  | .failed target cause =>
    ⟨.error, "target failed", [about "artifact" target, ("error", cause.message)]⟩
  | .unresolved source reference =>
    ⟨.detail, "import not found in search roots",
      [about "source" source, ("import", reference)]⟩
  | .foreign source imported =>
    ⟨.detail, "import handled by another rule family, not expanded",
      [about "source" source, about "import" imported]⟩
  | .cyclic source imported =>
    ⟨.warning, "import cycle, transitive imports truncated at back-edge",
      [about "source" source, about "import" imported]⟩

/-- The notice about the start of a build. -/
def ofStart (targets rules : Nat) : Notice :=
  ⟨.info, "starting build", [number "targets" targets, number "rules" rules]⟩

/-- The notice about the end of a build. -/
def ofReport (report : Report) : Notice :=
  ⟨.info, "build complete",
    [number "rebuilt" report.stats.rebuilt, number "clean" report.stats.clean,
     number "written" report.stats.written, number "unchanged" report.stats.unchanged,
     number "failed" report.failed.length]⟩

/-- The notices about a build of targets. -/
def ofBuild (targets : List Path) (built : Built) : List Notice :=
  let ending := match built.saved with
    | .ok () => [ofReport built.report]
    | .error _ => []
  ofStart targets.length built.engine.book.rules.length :: built.events.map ofEvent ++ ending

/-! ### Sweeps -/

/-- The notice about an artifact that is taken away. -/
def ofOrphan (entry : ArtifactEntry) : Notice :=
  ⟨.detail, "removing orphaned artifact",
    [about "path" entry.path, about "source" entry.source]⟩

/-- The notice about the end of a sweep. -/
def ofSwept (rehearsal : Bool) (sweep : Sweep) : Notice :=
  ⟨.info, "garbage collection complete",
    [number "artifacts_deleted" sweep.removed.length, number "traces_removed" sweep.forgotten,
     number "bytes_freed" sweep.freed, ("dry_run", toString rehearsal)]⟩

/-- The notices about a sweep of a project that had this result. -/
def ofSweep (project : Project) (rehearsal : Bool) (disk : Disk) (result : Except Failure Sweep) :
    List Notice :=
  let (swept, _) := Sweep.artifacts project rehearsal (project.artifacts disk) disk
  let ending := match result with
    | .ok sweep => [ofSwept rehearsal sweep]
    | .error _ => []
  (swept.removed.filterMap (ArtifactEntry.of? project.outputRoot)).map ofOrphan
    ++ ofTraces project.traceFile (TraceTable.read disk project.traceFile) :: ending

example : (ofEvent (.failed (.ofText "/a") (.noRule (.ofText "/a")))).text =
    "ERROR depcache: target failed artifact=/a error=no rule to build /a\n" := by decide +kernel

end Notice

end ImportIndex.Command
