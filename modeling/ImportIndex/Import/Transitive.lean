import ImportIndex.Import.Query
import ImportIndex.Path.FirstSeen

/-!
# Transitive imports

The transitive imports of a source are its direct imports, followed by the transitive imports of
each of them, all in the order in which they are first seen, and never the source itself. They are
put together from the artifacts of the imports. An import that belongs to another family of
sources is listed and not expanded.

Sources may import one another in a cycle. An import whose transitive imports are still being put
together contributes its direct imports instead. These are asked for as well, so that the list
depends on what that import imports.
-/

namespace ImportIndex

/-- Adds paths to the imports found so far, apart from the source and those found before. -/
def addImports (source : Path) (found : FirstSeen) (paths : List Path) : FirstSeen :=
  found.addAll (paths.filter fun path => !decide (path.Same source))

/-- What a path contributes to the imports of a source that imports it. -/
def expansion (outputRoot source path : Path) : Recipe (List Path) := do
  try importsOf .transitive outputRoot path
  catch cause =>
    if cause.isCycle then
      Recipe.tell (.cyclic source path)
      (importsOf .direct outputRoot path).adapt .needed
    else throw (.needed cause)

/-- Adds what each of these imports contributes to the imports found so far. -/
def expandAll (outputRoot : Path) (owns : Path → Bool) (source : Path) :
    List Path → FirstSeen → Recipe (List Path)
  | [], found => return found.toList
  | path :: rest, found => do
    if path.Same source then expandAll outputRoot owns source rest found
    else if owns path then
      let more ← expansion outputRoot source path
      expandAll outputRoot owns source rest (addImports source found more)
    else
      Recipe.tell (.foreign source path)
      expandAll outputRoot owns source rest found

/-- The transitive imports of a source. Those that `owns` rejects are not expanded. -/
def transitiveImports (outputRoot : Path) (owns : Path → Bool) (source : Path) :
    Recipe (List Path) := do
  let direct ← (importsOf .direct outputRoot source).adapt .needed
  expandAll outputRoot owns source direct (addImports source ∅ direct)

end ImportIndex
