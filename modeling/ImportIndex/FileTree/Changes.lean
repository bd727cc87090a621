import ImportIndex.FileTree.Disk

/-!
# Changes between directory trees

What has to be done to a directory so that it holds what another one holds, as a list of single
changes. A file whose content stays the same is left alone.
-/

namespace ImportIndex

/-- A single change to what is below a directory. -/
inductive Change where
  /-- Takes a file away. -/
  | removeFile (loc : Location)
  /-- Takes a directory away with everything below it. -/
  | removeTree (loc : Location)
  /-- Makes a directory. -/
  | makeDir (loc : Location)
  /-- Puts a file with this content into the place of the one that is there, if one is. -/
  | putFile (loc : Location) (content : Content)
deriving DecidableEq, Repr

namespace Dir

/-- What has to be taken away from a directory at `loc`, so that it holds nothing that `new` does
    not hold in some form. -/
def removals (loc : Location) (new : Dir) : Dir → List Change
  | empty => []
  | file name _ rest =>
    let here := match new.find? name with
      | some (.file _) => []
      | _ => [.removeFile (loc ++ [name])]
    here ++ removals loc new rest
  | dir name inner rest =>
    let here := match new.find? name with
      | some (.dir d) => removals (loc ++ [name]) d inner
      | _ => [.removeTree (loc ++ [name])]
    here ++ removals loc new rest

/-- What has to be put into a directory at `loc`, which holds `old`, so that it holds all of another
    one. -/
def additions (loc : Location) (old : Dir) : Dir → List Change
  | empty => []
  | file name content rest =>
    let here := if old.find? name = some (.file content) then []
      else [.putFile (loc ++ [name]) content]
    here ++ additions loc old rest
  | dir name inner rest =>
    let here := match old.find? name with
      | some (.dir d) => additions (loc ++ [name]) d inner
      | _ => .makeDir (loc ++ [name]) :: additions (loc ++ [name]) .empty inner
    here ++ additions loc old rest

/-- What makes `new` out of `old`. -/
def changes (old new : Dir) : List Change :=
  removals [] new old ++ additions [] old new

example : changes (.file [1] (.ofText "a") (.file [2] (.ofText "b") .empty))
    (.file [2] (.ofText "b") (.dir [3] .empty .empty)) = [.removeFile [[1]], .makeDir [[3]]] := by
  decide +kernel

end Dir

/-- Puts a directory in the place of what is at a location, with the directories on the way. -/
def Disk.graft (loc : Location) (d : Dir) (disk : Disk) : Disk :=
  let (_, disk) := Disk.makeDirs (Path.ofLocation loc) disk
  { disk with top := disk.top.modify (fun _ => d) loc }

end ImportIndex
