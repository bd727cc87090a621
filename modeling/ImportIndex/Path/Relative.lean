import ImportIndex.Failure
import ImportIndex.Path.Normal

/-!
# Paths below a root
-/

namespace ImportIndex.Path

/-- The path, folded lexically, as seen from `root`. -/
def relativeTo (p root : Path) : Except Failure Path :=
  match p.normalize.stripStart? root with
  | some relative => .ok relative
  | none => .error (.outsideRoot p root)

/-- The path as seen from `root` if it leads below it, and the path itself if not. -/
def shortened (p root : Path) : Path :=
  (p.stripStart? root).getD p

end ImportIndex.Path
