import ImportIndex.FileTree.Disk

/-!
# Search roots

Search roots are an order of preference: of several roots that hold a file, the first one counts.
-/

namespace ImportIndex

/-- The first root from which `relative` leads to a file. Roots after it are not asked. -/
def findInRoots {m : Type → Type} [Monad m] (isFile : Path → m Bool) (relative : Path) :
    List Path → m (Option Path)
  | [] => pure none
  | root :: roots => do
    if ← isFile (root.join relative) then return some root
    else findInRoots isFile relative roots

/-- The first root from which `relative` leads to a file on the disk. -/
def Disk.findInRoots (disk : Disk) (relative : Path) (roots : List Path) : Option Path :=
  Id.run (ImportIndex.findInRoots (fun p => pure (disk.isFile p)) relative roots)

end ImportIndex
