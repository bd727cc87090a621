import ImportIndex.Build.Session
import ImportIndex.Build.TraceFile

/-!
# Builds

An engine is a rulebook together with the traces of what its rules have made, which may be kept in
a file. A build requires its targets in one session, goes on after failures, and stores the traces
at its end, so that what was made is clean the next time.
-/

namespace ImportIndex

/-- A rulebook and the traces of what it has made. -/
structure Engine where
  /-- The rules. -/
  book : Rulebook
  /-- The traces. -/
  traces : TraceTable := ∅
  /-- The trace file, if there is one. -/
  store : Option Path := none

/-- What a build did. -/
structure Report where
  /-- The counts. -/
  stats : Stats
  /-- The targets that were asked for and failed, each with its cause. -/
  failed : List (Path × Failure)
  /-- The targets that were required, and which of them needed which. -/
  graph : TaskGraph

namespace Report

/-- Whether no target that was asked for failed. -/
def succeeded (report : Report) : Bool := report.failed.isEmpty

/-- Why a target that was asked for failed, if it did. -/
def failureOf? (report : Report) (target : Path) : Option Failure :=
  (report.failed.find? fun e => decide (e.1.Same target)).map (·.2)

end Report

/-- What there is after a build. -/
structure Built where
  /-- What the build did. -/
  report : Report
  /-- What was told, in the order of time. -/
  events : List Event
  /-- Whether the traces could be stored. -/
  saved : Except Failure Unit
  /-- The engine. -/
  engine : Engine
  /-- The disk. -/
  disk : Disk

/-- The result of a build: its report, or the failure to store the traces. -/
def Built.result (built : Built) : Except Failure Report := built.saved.map fun _ => built.report

namespace Engine

/-- An engine that goes on with these traces and stores them in the trace file at a path. -/
def storing (book : Rulebook) (store : Path) (traces : TraceTable) : Engine :=
  { book, traces, store := some store }

/-- An engine that goes on with the traces in the trace file at a path. -/
def resume (book : Rulebook) (store : Path) (disk : Disk) : Engine :=
  storing book store (TraceTable.load disk store)

/-- An engine without a trace file. -/
def inMemory (book : Rulebook) : Engine := { book }

/-- A new session of the engine. -/
def session (engine : Engine) (disk : Disk) : Session :=
  { disk, traces := engine.traces }

/-- Stores the traces, if there is a trace file. -/
def save (engine : Engine) (disk : Disk) : Except Failure Unit × Disk :=
  match engine.store with
  | none => (.ok (), disk)
  | some path => engine.traces.save path disk

/-- Builds the targets and stores the traces. There is nothing left if targets need one another more
    than `depth` levels deep. -/
def build (engine : Engine) (depth : Nat) (targets : List Path) (disk : Disk) : Option Built := do
  let (failed, s) ← Session.requireAll engine.book depth targets (engine.session disk)
  let engine := { engine with traces := s.traces }
  let (saved, disk) := engine.save s.disk
  let report : Report := { stats := s.stats, failed, graph := s.graph }
  return { report, events := s.told.reverse, saved, engine, disk }

end Engine

end ImportIndex
