import ImportIndex.Build.TraceFile
import ImportIndex.Source.Discovery

/-!
# Sweeping

Builds never take artifacts away. When a source is gone, its artifacts and their traces are
*orphans* until a sweep removes them. A rehearsed sweep tells what would be removed and changes
nothing.
-/

namespace ImportIndex

/-- What a sweep removed. -/
structure Sweep where
  /-- The number of artifacts looked at. -/
  scanned : Nat := 0
  /-- The artifacts removed. -/
  removed : List Path := []
  /-- The number of bytes in them. -/
  freed : Nat := 0
  /-- The number of traces removed. -/
  forgotten : Nat := 0
deriving DecidableEq, Repr

namespace Sweep

/-- Whether a source, given by its path from the project root, is gone. -/
def isGone (project : Project) (disk : Disk) (source : Path) : Bool :=
  !disk.isFile (project.root.join source)

/-- Whether a target is an artifact whose source is gone. -/
def isOrphan (project : Project) (disk : Disk) (target : Path) : Bool :=
  (ArtifactKind.classify? project.outputRoot target).any fun e => isGone project disk e.2

/-- The number of bytes in the file at a path. -/
def fileSize (disk : Disk) (path : Path) : Nat :=
  match disk.read path with
  | .ok content => content.size
  | .error _ => 0

/-- What two sweeps removed, one after the other. -/
def append (first second : Sweep) : Sweep where
  scanned := first.scanned + second.scanned
  removed := first.removed ++ second.removed
  freed := first.freed + second.freed
  forgotten := first.forgotten + second.forgotten

instance : Append Sweep := ⟨append⟩

/-- Looks at an artifact, and removes it if its source is gone. Nothing is removed in a rehearsal.
    One that cannot be removed stays. -/
def artifact (project : Project) (rehearsal : Bool) (entry : ArtifactEntry) (disk : Disk) :
    Sweep × Disk :=
  let kept : Sweep := { scanned := 1 }
  if isGone project disk entry.source then
    let swept := { kept with removed := [entry.path], freed := fileSize disk entry.path }
    if rehearsal then (swept, disk)
    else match Disk.removeFile entry.path disk with
      | (.ok (), disk) => (swept, disk)
      | (.error _, disk) => (kept, disk)
  else (kept, disk)

/-- Looks at artifacts one after another. -/
def artifacts (project : Project) (rehearsal : Bool) :
    List ArtifactEntry → Disk → Sweep × Disk
  | [], disk => ({}, disk)
  | entry :: entries, disk =>
    let (first, disk) := artifact project rehearsal entry disk
    let (others, disk) := artifacts project rehearsal entries disk
    (first ++ others, disk)

/-- Takes the traces of these targets out of the trace file. -/
def forget (project : Project) (targets : List Path) (disk : Disk) : Except Failure Unit × Disk :=
  let traces := TraceTable.load disk project.traceFile
  (targets.foldl PathTable.erase traces : TraceTable).save project.traceFile disk

/-- Removes the artifacts and traces whose sources are gone. -/
def run (project : Project) (rehearsal : Bool) (disk : Disk) : Except Failure Sweep × Disk :=
  let (sweep, disk) := artifacts project rehearsal (project.artifacts disk) disk
  let orphans := (TraceTable.load disk project.traceFile).keys.filter (isOrphan project disk)
  let sweep := { sweep with forgotten := orphans.length }
  if rehearsal || orphans.isEmpty then (.ok sweep, disk)
  else
    let (forgotten, disk) := forget project orphans disk
    (forgotten.map fun _ => sweep, disk)

end Sweep

end ImportIndex
