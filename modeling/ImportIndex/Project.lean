import ImportIndex.FileTree.Disk
import ImportIndex.Path.Normal
import ImportIndex.Settings.Reader

/-!
# Projects

A project is a root directory with its settings. The settings come from a file in the root
directory, if it is there, and the directory of the artifacts may be chosen from outside.
-/

namespace ImportIndex

/-- A root directory with its settings. -/
structure Project where
  /-- The root directory, as an absolute path without `.` and `..`. -/
  root : Path
  /-- The settings. -/
  settings : Settings
deriving DecidableEq, Repr

/-- Why a project cannot be opened. -/
inductive ProjectFault where
  /-- The root cannot be found. -/
  | root (path : Path) (fault : IoFault)
  /-- The settings file cannot be read. -/
  | unreadable (path : Path) (fault : IoFault)
  /-- The settings file does not hold settings. -/
  | malformed (path : Path) (fault : Json.Fault)
deriving DecidableEq, Repr

namespace ProjectFault

/-- The fault in words. -/
def message : ProjectFault → String
  | root path fault => s!"failed to canonicalize project root {path.shown}: {fault.message}"
  | unreadable path fault => s!"failed to read config file {path.shown}: {fault.message}"
  | malformed path fault => s!"failed to parse config file {path.shown}: {fault.message}"

/-- What led to the fault, in words. -/
def cause : ProjectFault → String
  | root _ fault => fault.message
  | unreadable _ fault => fault.message
  | malformed _ fault => fault.message

end ProjectFault

/-- The settings in the file at a path. -/
def Settings.load (disk : Disk) (path : Path) : Except ProjectFault Settings :=
  match disk.readText path with
  | .error fault => .error (.unreadable path fault)
  | .ok text => (ofText text).mapError (.malformed path)

namespace Project

/-- The name of the settings file. -/
def settingsFile : Path := .ofText "depcache.json"

/-- The name of the trace file. -/
def traceFileName : Path := .ofText ".depcache-traces.json"

/-- The project at a root directory with the given settings. -/
def new (disk : Disk) (root : Path) (settings : Settings) : Except ProjectFault Project :=
  match disk.canonical root with
  | .error fault => .error (.root root fault)
  | .ok root => .ok { root, settings }

/-- The project at a root directory, with the settings in its settings file. The directory of the
    artifacts is `outputDir` instead of the one in the settings, unless that is empty. -/
def load (disk : Disk) (root : Path) (outputDir : Option String) :
    Except ProjectFault Project := do
  let project ← new disk root {}
  let file := project.root.join settingsFile
  let settings ← if disk.isFile file then Settings.load disk file else .ok {}
  match outputDir with
  | none => return { project with settings }
  | some dir =>
    if dir.isEmpty then return { project with settings }
    return { project with settings := { settings with outputDir := .ofText dir } }

/-- The path of a directory of the project. -/
def dir (project : Project) (path : Path) : Path :=
  (project.root.join path).normalize

/-- The directory that holds the artifacts. -/
def outputRoot (project : Project) : Path := project.dir project.settings.outputDir

/-- The search roots of dotted references. -/
def moduleRoots (project : Project) : List Path := project.settings.moduleRoots.map project.dir

/-- The search roots of quoted references. -/
def includeRoots (project : Project) : List Path := project.settings.includeRoots.map project.dir

/-- The trace file. -/
def traceFile (project : Project) : Path := project.outputRoot.join traceFileName

end Project

end ImportIndex
