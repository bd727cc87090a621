import ImportIndex.FileTree.Basic

/-!
# Walks

A walk lists the files below a directory, each by its location from where the walk began.
Directories that it is told not to enter are left out with everything below them.
-/

namespace ImportIndex.Dir

/-- The locations of the files below a directory that is at `loc`, entering only the directories
    whose locations satisfy `enter`. -/
def walk (enter : Location → Bool) (loc : Location) : Dir → List Location
  | empty => []
  | file name _ rest => (loc ++ [name]) :: walk enter loc rest
  | dir name inner rest =>
    (if enter (loc ++ [name]) then walk enter (loc ++ [name]) inner else []) ++ walk enter loc rest

/-- The locations of all that is below a directory that is at `loc`, and whether a directory is
    there. -/
def listing (loc : Location) : Dir → List (Location × Bool)
  | empty => []
  | file name _ rest => (loc ++ [name], false) :: listing loc rest
  | dir name inner rest =>
    (loc ++ [name], true) :: (listing (loc ++ [name]) inner ++ listing loc rest)

/-- The number of files and directories below a directory, and of the bytes in the files. -/
def weight : Dir → Nat
  | empty => 0
  | file _ content rest => 1 + content.size + rest.weight
  | dir _ inner rest => 1 + inner.weight + rest.weight

end ImportIndex.Dir
