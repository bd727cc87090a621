import ImportIndex.Failure
import ImportIndex.Text.Lines

/-!
# The text of an artifact

An artifact lists paths from the project root, one in a line, and every line ends in a line feed. A
path that is no text, is empty or holds a line break cannot be listed.
-/

namespace ImportIndex.Listing

/-- The line of a path, if it can be listed. -/
def line? (p : Path) : Option String :=
  p.toText?.filter fun text =>
    !text.isEmpty && !text.toList.contains '\n' && !text.toList.contains '\r'

/-- The text that lists the paths, or the first path that cannot be listed. -/
def render : List Path → Except Failure String
  | [] => .ok ""
  | p :: ps =>
    match line? p with
    | none => .error (.invalidArtifactPath p)
    | some line => (render ps).map fun rest => line ++ "\n" ++ rest

/-- The paths that a text lists: every line that is not empty, as it stands. -/
def parse (text : String) : List Path :=
  ((Lines.ofText text).filter (!·.isEmpty)).map Path.ofText

end ImportIndex.Listing
