import ImportIndex.FileTree.Basic
import ImportIndex.FileTree.Fault
import ImportIndex.Path.Basic

/-!
# The disk

A disk is a tree of directories together with the current directory, from which relative paths
start. A path is followed piece by piece (`Disk.trail`): `..` leads to the parent of the directory
reached so far, so that every directory before it has to exist, and nothing but a directory can be
passed through.

A replacing write has several steps, any of which a faulty disk may refuse (`Disk.refuses`).
-/

namespace ImportIndex

/-- The steps of a replacing write, in their order. -/
inductive WriteStep where
  /-- Comparing the new content with the old. -/
  | compare
  /-- Making the directories that the file is in. -/
  | makeParents
  /-- Opening a new file beside the old one. -/
  | stage
  /-- Writing the content to the new file. -/
  | fill
  /-- Moving the new file into the place of the old one. -/
  | replace
deriving DecidableEq, Repr

/-- A disk. -/
structure Disk where
  /-- The root directory. -/
  top : Dir
  /-- The location of the current directory. -/
  here : Location := []
  /-- The fault with which a step of a replacing write to a path is refused, if it is. -/
  refuses : Path → WriteStep → Option IoFault := fun _ _ => none

/-- Operations that change the disk and may fail. What was changed before a failure stays. -/
abbrev DiskM := ExceptT IoFault (StateM Disk)

/-- The longest name of an entry, in bytes. -/
def maxName : Nat := 255

/-- The longest path, in bytes. -/
def maxPath : Nat := 4095

namespace Path

/-- The names to follow from the start of the path, in order. A path that ends in a separator leads
    through a directory. -/
def steps (p : Path) : List Bytes :=
  (splitAt separator p.bytes).filter (!·.isEmpty)

/-- Whether the path ends in a separator. -/
def endsInSeparator (p : Path) : Bool := p.bytes.getLast? == some separator

/-- The fault of a path that has no meaning. -/
def invalid? (p : Path) : Option IoFault :=
  if p.bytes.contains 0 then some .zeroByte
  else if p.bytes.isEmpty then some .notFound
  else none

/-- Whether the path is longer than any that can be used. -/
def isTooLong (p : Path) : Bool := p.bytes.length > maxPath

/-- The fault of a path that cannot lead anywhere. -/
def fault? (p : Path) : Option IoFault :=
  match p.invalid? with
  | some fault => some fault
  | none => if p.isTooLong then some .nameTooLong else none

/-- The absolute path of a location. -/
def ofLocation (l : Location) : Path := ⟨separator :: joinWith separator l⟩

end Path

/-- A way down from the root directory: what it passes, each entry with its name, the last one
    first. -/
abbrev Trail := List (Bytes × Entry)

namespace Trail

/-- The location that a trail leads to. -/
def location (trail : Trail) : Location := (trail.map (·.1)).reverse

/-- What a trail from `top` leads to. -/
def entry (top : Dir) : Trail → Entry
  | [] => .dir top
  | (_, e) :: _ => e

/-- Goes one step further from where a trail from `top` leads. The parent of the root directory is
    the root directory. -/
def step (top : Dir) (trail : Trail) (piece : Bytes) : Except IoFault Trail :=
  match trail.entry top with
  | .file _ => .error .notADirectory
  | .dir d =>
    if piece = Path.herePiece then .ok trail
    else if piece = Path.upPiece then .ok trail.tail
    else if piece.length > maxName then .error .nameTooLong
    else match d.find? piece with
      | some e => .ok ((piece, e) :: trail)
      | none => .error .notFound

end Trail

namespace Disk

/-- The steps from the root directory to where a path starts. -/
def start (disk : Disk) (p : Path) : List Bytes :=
  if p.isAbsolute then [] else disk.here

/-- The steps to follow to what a path leads to. What a separator follows has to be a directory. -/
def stepsTo (p : Path) : List Bytes :=
  p.steps ++ if p.endsInSeparator then [Path.herePiece] else []

/-- Follows steps from the root directory. -/
def follow (disk : Disk) (steps : List Bytes) : Except IoFault Trail :=
  steps.foldlM (Trail.step disk.top) []

/-- The trail to what a path leads to. -/
def trail (disk : Disk) (p : Path) : Except IoFault Trail :=
  match p.fault? with
  | some fault => .error fault
  | none => disk.follow (disk.start p ++ stepsTo p)

/-- The location that a path leads to. -/
def locate (disk : Disk) (p : Path) : Except IoFault Location :=
  (disk.trail p).map Trail.location

/-- What a path leads to. -/
def entry (disk : Disk) (p : Path) : Except IoFault Entry :=
  (disk.trail p).map (Trail.entry disk.top)

/-- Whether a path leads to a file. -/
def isFile (disk : Disk) (p : Path) : Bool :=
  match disk.entry p with
  | .ok (.file _) => true
  | _ => false

/-- Whether a path leads to a directory. -/
def isDir (disk : Disk) (p : Path) : Bool :=
  match disk.entry p with
  | .ok (.dir _) => true
  | _ => false

/-- The content of the file that a path leads to. -/
def read (disk : Disk) (p : Path) : Except IoFault Content :=
  match disk.entry p with
  | .error fault => .error fault
  | .ok (.dir _) => .error .isADirectory
  | .ok (.file content) => .ok content

/-- The text in the file that a path leads to. -/
def readText (disk : Disk) (p : Path) : Except IoFault String :=
  match disk.read p with
  | .error fault => .error fault
  | .ok content =>
    match content.toText? with
    | some text => .ok text
    | none => .error .notText

/-- Whether a step leads on to an entry whose absolute path is too long. -/
def leadsTooFar (trail : Trail) (piece : Bytes) : Bool :=
  piece ≠ Path.herePiece && piece ≠ Path.upPiece &&
    (Path.ofLocation (trail.location ++ [piece])).isTooLong

/-- Goes one step further, if there is an absolute path for where it leads. -/
def resolveStep (disk : Disk) (trail : Trail) (piece : Bytes) : Except IoFault Trail :=
  if leadsTooFar trail piece then .error .nameTooLong else trail.step disk.top piece

/-- The absolute path, without `.` and `..`, of what a path leads to. The path itself may be of any
    length, but on the way there has to be an absolute path for every entry. -/
def canonical (disk : Disk) (p : Path) : Except IoFault Path :=
  match p.invalid? with
  | some fault => .error fault
  | none => do
    let trail ← (stepsTo p).foldlM disk.resolveStep (← disk.follow (disk.start p))
    return Path.ofLocation trail.location

/-! ### Changes -/

/-- What a path that is to be made or taken away points at. -/
inductive Aim where
  /-- The root directory. -/
  | top
  /-- A directory that is named by a last piece `.` or `..`. -/
  | directory (piece : Bytes)
  /-- The entry of a directory with this name; whether a separator follows the name. -/
  | entry (dir : Location) (name : Bytes) (slash : Bool)

/-- What a path points at. The directories on the way have to exist, the last entry does not. -/
def aim (disk : Disk) (p : Path) : Except IoFault Aim :=
  match p.fault?, p.steps.getLast? with
  | some fault, _ => .error fault
  | none, none => .ok .top
  | none, some last =>
    match disk.follow (disk.start p ++ p.steps.dropLast ++ [Path.herePiece]) with
    | .error fault => .error fault
    | .ok trail =>
      if last = Path.herePiece ∨ last = Path.upPiece then .ok (.directory last)
      else .ok (.entry trail.location last p.endsInSeparator)

/-- The entry with this name in the directory at a location. -/
def child (disk : Disk) (dir : Location) (name : Bytes) : Except IoFault (Option Entry) :=
  if name.length > maxName then .error .nameTooLong
  else .ok (disk.top.get? (dir ++ [name]))

/-- Changes the directory at a location. -/
def modify (f : Dir → Dir) (loc : Location) : DiskM Unit :=
  MonadState.modifyGet fun disk => ((), { disk with top := disk.top.modify f loc })

/-- Writes a content to a file, which is made if it is not there. -/
def write (p : Path) (content : Content) : DiskM Unit := do
  match ← (← get).aim p with
  | .top => throw .isADirectory
  | .directory _ => throw .isADirectory
  | .entry _ _ true => throw .isADirectory
  | .entry dir name false =>
    match ← (← get).child dir name with
    | some (.dir _) => throw .isADirectory
    | _ => modify (·.insert name (.file content)) dir

/-- Makes a directory. -/
def makeDir (p : Path) : DiskM Unit := do
  match ← (← get).aim p with
  | .top => throw .alreadyExists
  | .directory _ => throw .alreadyExists
  | .entry dir name _ =>
    match ← (← get).child dir name with
    | some _ => throw .alreadyExists
    | none => modify (·.insert name (.dir .empty)) dir

/-- Makes a directory and those it is in, as far as they are missing. At most `n` are made. -/
def makeDirsWithin : Nat → Path → DiskM Unit
  | 0, _ => throw .notFound
  | n + 1, p => do
    if p.bytes.isEmpty then return
    match makeDir p (← get) with
    | (.ok (), disk) => set disk
    | (.error .notFound, _) =>
      match p.parent? with
      | none => throw .notFound
      | some parent => makeDirsWithin n parent
      match makeDir p (← get) with
      | (.ok (), disk) => set disk
      | (.error fault, _) => unless (← get).isDir p do throw fault
    | (.error fault, _) => unless (← get).isDir p do throw fault

/-- Makes a directory and those it is in, as far as they are missing. -/
def makeDirs (p : Path) : DiskM Unit :=
  makeDirsWithin (p.bytes.length + 1) p

/-- Puts a new file into the place of what is at a path. -/
def replace (p : Path) (content : Content) : DiskM Unit := do
  match ← (← get).aim p with
  | .top => throw .busy
  | .directory _ => throw .busy
  | .entry dir name slash =>
    match ← (← get).child dir name with
    | some (.dir _) => throw (if slash then .notADirectory else .isADirectory)
    | _ => if slash then throw .notADirectory else modify (·.insert name (.file content)) dir

/-- Takes a file away. -/
def removeFile (p : Path) : DiskM Unit := do
  match ← (← get).aim p with
  | .top => throw .isADirectory
  | .directory _ => throw .isADirectory
  | .entry dir name slash =>
    match ← (← get).child dir name with
    | none => throw .notFound
    | some (.dir _) => throw .isADirectory
    | some (.file _) => if slash then throw .notADirectory else modify (·.erase name) dir

/-- Takes a directory away with everything below it. One that is named by `.`, and the root, is
    only emptied. One that is named by `..` is emptied too, and as the way to it is gone then, that
    counts as taken away. -/
def removeTree (p : Path) : DiskM Unit := do
  match ← (← get).entry p with
  | .file _ => throw .notADirectory
  | .dir _ =>
    let loc ← (← get).locate p
    modify (fun _ => .empty) loc
    match (← get).aim p with
    | .error .notFound => return
    | .error fault => throw fault
    | .ok .top => throw .busy
    | .ok (.directory _) => throw .invalidArgument
    | .ok (.entry dir name _) => modify (·.erase name) dir

/-! ### Replacing writes -/

/-- Goes on unless the disk refuses this step of writing to a path. -/
def permit (p : Path) (step : WriteStep) : DiskM Unit := do
  match (← get).refuses p step with
  | some fault => throw fault
  | none => return

/-- The directory that a file is in. -/
def parentDir (p : Path) : Path :=
  match p.parent? with
  | some parent => if parent.bytes.isEmpty then Path.ofText "." else parent
  | none => Path.ofText "."

/-- Writes a content to a file unless the file already holds it, and tells whether it was written.
    The content goes to a new file in the same directory, which then takes the place of the old
    one, so the old content stays until all of the new one is there. -/
def writeIfChanged (p : Path) (content : Content) : DiskM Bool := do
  permit p .compare
  match (← get).read p with
  | .ok old => if old = content then return false
  | .error .notFound => pure ()
  | .error fault => throw fault
  permit p .makeParents
  makeDirs (parentDir p)
  permit p .stage
  permit p .fill
  permit p .replace
  replace p content
  return true

end Disk

end ImportIndex
