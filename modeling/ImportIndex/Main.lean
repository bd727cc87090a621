import ImportIndex.Command.Run
import ImportIndex.FileTree.Changes

/-!
# The program

Takes a picture of the directories that a project uses, runs a command on it, and carries out on
the real disk what the command changed. Nothing is decided here. Symbolic links are not followed.
-/

namespace ImportIndex.Program

/-- The depth to which targets may need one another. -/
def depth : Nat := 1000000

/-- What is printed when a command line makes no sense. -/
def usage : String :=
  "usage: depcache [-C DIR] [-v] VERB [-o text|json], or depcache -V\n" ++
  "verbs: build [FILE...], deps [-t] FILE, gc [--dry-run], status"

/-- Takes a picture of entries of a directory. Those that cannot be read are left out. -/
partial def picture : List IO.FS.DirEntry → IO Dir
  | [] => return .empty
  | entry :: rest => do
    let others ← picture rest
    let name := Bytes.ofText entry.fileName
    try
      match (← entry.path.symlinkMetadata).type with
      | .dir => return .dir name (← picture (← entry.path.readDir).toList) others
      | .file => return .file name ⟨← IO.FS.readBinFile entry.path⟩ others
      | _ => return others
    catch _ => return others

/-- The location of a directory of the real disk, if it is there. -/
def locationOf (path : String) : IO (Option Location) := do
  try
    let real ← IO.FS.realPath path
    return some (Path.ofText real.toString).steps
  catch _ => return none

/-- Adds a picture of a directory of the real disk, if it is there. -/
def addPicture (disk : Disk) (path : String) : IO Disk := do
  match ← locationOf path with
  | none => return disk
  | some loc =>
    try
      let real ← IO.FS.realPath path
      return disk.graft loc (← picture (← real.readDir).toList)
    catch _ => return disk

/-- A location as the real disk names it. -/
def nameOf (loc : Location) : String := (Path.ofLocation loc).shown

/-- Carries out a change on the real disk. -/
def carryOut : Change → IO Unit
  | .removeFile loc => IO.FS.removeFile (nameOf loc)
  | .removeTree loc => IO.FS.removeDirAll (nameOf loc)
  | .makeDir loc => IO.FS.createDirAll (nameOf loc)
  | .putFile loc content => do
    let staged := nameOf loc ++ ".new"
    IO.FS.writeBinFile staged content.array
    IO.FS.rename staged (nameOf loc)

/-- The directories that a project uses besides its root. -/
def usedDirs (project : Project) : List String :=
  ((project.outputRoot :: project.moduleRoots ++ project.includeRoots).filter
    fun dir => !decide (dir.StartsWith project.root)).map Path.shown

/-- Takes a picture of what a verb uses. -/
def pictureFor (invocation : Command.Invocation) (outputDir : Option String) : IO Disk := do
  let here := (← locationOf ".").getD []
  let empty : Disk := Disk.graft here .empty { top := .empty, here }
  let disk ← addPicture empty invocation.root.shown
  match Project.load disk invocation.root outputDir with
  | .error _ => return disk
  | .ok project => (usedDirs project).foldlM addPicture disk

/-- Takes a picture of what a request uses. -/
def pictureOf (request : Command.Request) (outputDir : Option String) : IO Disk :=
  match request with
  | .version => return { top := .empty }
  | .perform invocation => pictureFor invocation outputDir

/-- Does what a command line asks for and gives the code with which the program ends. -/
def perform (request : Command.Request) : IO UInt32 := do
  let started ← IO.monoNanosNow
  let outputDir ← IO.getEnv "DEPCACHE_OUTPUT_DIR"
  let disk ← pictureOf request outputDir
  match Command.run depth request outputDir disk with
  | none =>
    IO.eprintln "targets are nested too deeply"
    return 1
  | some (outcome, changed) =>
    (disk.top.changes changed.top).forM carryOut
    let time := Command.Duration.ofParts 0 ((← IO.monoNanosNow) - started)
    outcome.notices.forM fun notice => IO.eprint notice.text
    IO.eprint outcome.errors
    IO.print (outcome.output time)
    return outcome.code.toUInt32

end ImportIndex.Program

/-- Runs the command that the words give. -/
def main (words : List String) : IO UInt32 := do
  match ImportIndex.Command.parse words with
  | none =>
    IO.eprintln ImportIndex.Program.usage
    return 2
  | some request => ImportIndex.Program.perform request
