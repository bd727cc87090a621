import ImportIndex.Artifact.Name
import ImportIndex.FileTree.Walk
import ImportIndex.Path.Relative
import ImportIndex.Path.Order
import ImportIndex.Project

/-!
# Sources and artifacts of a project

The sources of a project are the files below its root that belong to a family. Hidden directories
and the directory of the artifacts are not searched. Its artifacts are the files below that
directory whose path is that of an artifact of some source, be it there or not.
-/

namespace ImportIndex

/-- Sorts paths. -/
def Path.sort (paths : List Path) : List Path := paths.mergeSort Path.le

/-- The relative path that leads to a location. -/
def Path.below (loc : Location) : Path := ⟨joinWith separator loc⟩

/-- The files below a directory, as paths from it, entering only the directories that satisfy
    `enter`. There are none if there is no such directory. -/
def Disk.filesBelow (disk : Disk) (enter : Path → Bool) (dir : Path) : List Path :=
  match disk.entry dir with
  | .ok (.dir d) => (d.walk (fun loc => enter (.below loc)) []).map .below
  | _ => []

namespace Project

/-- Whether a directory is hidden: its name is a text that starts with a dot. -/
def isHidden (dir : Path) : Bool :=
  match dir.fileName? with
  | some name => name.head? == some Path.dot && (name.toText?).isSome
  | none => false

/-- Whether a directory, given by its path from the project root, is searched for sources. -/
def isSearched (project : Project) (dir : Path) : Bool :=
  !isHidden dir && !decide ((project.root.join dir).Same project.outputRoot)

/-- The sources of the project, as paths from its root, in order. -/
def sources (project : Project) (disk : Disk) : List Path :=
  Path.sort ((disk.filesBelow project.isSearched project.root).filter fun source =>
    (Family.of? project.settings source).isSome)

/-- The path of a source from the project root, for one that is given from there or is absolute. -/
def relativeSource (project : Project) (path : Path) : Except Failure Path :=
  if path.isAbsolute then path.relativeTo project.root
  else
    let normal := path.normalize
    if normal.StartsWith (.ofText "..") then .error (.outsideRoot path project.root)
    else .ok normal

/-- The artifacts of sources, the direct one first. -/
def targets (project : Project) (sources : List Path) : List Path :=
  ArtifactKind.artifacts project.outputRoot sources

end Project

/-- An artifact that is on the disk. -/
structure ArtifactEntry where
  /-- The kind. -/
  kind : ArtifactKind
  /-- The source that it belongs to, as a path from the project root. -/
  source : Path
  /-- The path of the artifact. -/
  path : Path
deriving DecidableEq, Repr

/-- The artifact at a path, if the path is that of one. -/
def ArtifactEntry.of? (outputRoot path : Path) : Option ArtifactEntry :=
  (ArtifactKind.classify? outputRoot path).map fun (kind, source) => { kind, source, path }

/-- The artifacts of the project that are on the disk, in the order of their paths. -/
def Project.artifacts (project : Project) (disk : Disk) : List ArtifactEntry :=
  let files := (disk.filesBelow (fun _ => true) project.outputRoot).map project.outputRoot.join
  (Path.sort files).filterMap (ArtifactEntry.of? project.outputRoot)

end ImportIndex
