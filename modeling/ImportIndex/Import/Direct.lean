import ImportIndex.Build.Tracked
import ImportIndex.Path.Normal
import ImportIndex.Reference.Scanner
import ImportIndex.Reference.Search

/-!
# Direct imports

The direct imports of a source are the files that its references stand for. A reference that leads
to no file under any search root is left out. The source and every place that is tried are asked
for through tracked requests, so that the list is made anew when the source changes, or when a
file appears or disappears where one was looked for.
-/

namespace ImportIndex

/-- The file that a reference stands for: the one under the first search root that has it. -/
def resolve (scanner : Scanner) (roots : List Path) (reference : String) :
    Recipe (Option Path) := do
  let candidate := scanner.candidate reference
  let root ← findInRoots Recipe.isFile candidate roots
  return root.map fun root => (root.join candidate).normalize

/-- The files that the references in a source stand for, in the order of the references, after those
    found before, of which the last one is the first in `before`. -/
def resolveAll (scanner : Scanner) (roots : List Path) (source : Path) :
    List String → List Path → Recipe (List Path)
  | [], before => return before.reverse
  | reference :: rest, before => do
    match ← resolve scanner roots reference with
    | some found => resolveAll scanner roots source rest (found :: before)
    | none =>
      Recipe.tell (.unresolved source reference)
      resolveAll scanner roots source rest before

/-- The files that a source imports. Both the source and the files are absolute paths. -/
def directImports (scanner : Scanner) (roots : List Path) (source : Path) : Recipe (List Path) := do
  let text ← Recipe.readText source (.readSource source)
  resolveAll scanner roots source (scanner.references text) []

end ImportIndex
