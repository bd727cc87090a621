import ImportIndex.Build.Rule
import ImportIndex.Import.Direct
import ImportIndex.Import.Transitive
import ImportIndex.Path.Relative
import ImportIndex.Project

/-!
# The rules of artifacts

Every family of sources has two rules, one for each kind of artifact. They share the test for what
belongs to the family and differ in how they find the imports, which are written as paths from the
project root.
-/

namespace ImportIndex

/-- A family of sources and its direct imports. -/
structure ImportFamily where
  /-- The name. -/
  name : String
  /-- Whether a source, given by its path from the project root, belongs to the family. -/
  owns : Path → Bool
  /-- The direct imports of a source. Both the source and its imports are absolute paths. -/
  imports : Path → Recipe (List Path)

namespace ImportFamily

/-- Whether a path is that of an artifact of this kind of a source in the family. -/
def makes (family : ImportFamily) (kind : ArtifactKind) (outputRoot target : Path) : Bool :=
  (kind.source? outputRoot target).any family.owns

/-- The source of an artifact that is to be made. -/
def sourceOf (kind : ArtifactKind) (outputRoot target : Path) : Recipe Path :=
  match kind.source? outputRoot target with
  | some source => return source
  | none => throw (.notAnArtifact target)

/-- The content of an artifact that lists these paths. -/
def listing (paths : List Path) : Except Failure Content :=
  (Listing.render paths).map Content.ofText

/-- The content of an artifact that lists these absolute paths as seen from the project root. -/
def listingBelow (root : Path) (paths : List Path) : Except Failure Content := do
  listing (← paths.mapM (·.relativeTo root))

/-- The rule of direct imports. -/
def directRule (family : ImportFamily) (outputRoot root : Path) : Rule where
  name := family.name ++ "-direct"
  makes := family.makes .direct outputRoot
  recipe target := do
    let source ← sourceOf .direct outputRoot target
    listingBelow root (← family.imports (root.join source))

/-- The rule of transitive imports. -/
def transitiveRule (family : ImportFamily) (outputRoot : Path) : Rule where
  name := family.name ++ "-transitive"
  makes := family.makes .transitive outputRoot
  recipe target := do
    let source ← sourceOf .transitive outputRoot target
    listing (← transitiveImports outputRoot family.owns source)

/-- The rules of a family. -/
def rules (family : ImportFamily) (outputRoot root : Path) : List Rule :=
  [family.directRule outputRoot root, family.transitiveRule outputRoot]

end ImportFamily

namespace Project

/-- How sources of a family refer to others in the project. The keyword of dotted references may be
    too long. -/
def scanner (project : Project) : Family → Except Failure Scanner
  | .dotted => Scanner.ofModules project.settings.moduleKeyword project.settings.moduleExtension
  | .quoted => .ok (.quoted project.settings.includeKeyword)

/-- The search roots of a family. -/
def searchRoots (project : Project) : Family → List Path
  | .dotted => project.moduleRoots
  | .quoted => project.includeRoots

/-- A family of sources of the project that refer to others in this way, with their imports. -/
def importFamily (project : Project) (family : Family) (scanner : Scanner) : ImportFamily where
  name := family.name
  owns source := Family.of? project.settings source == some family
  imports := directImports scanner (project.searchRoots family)

/-- The rules of one family of the project. -/
def familyRules (project : Project) (family : Family) : Except Failure (List Rule) := do
  let scanner ← project.scanner family
  return (project.importFamily family scanner).rules project.outputRoot project.root

/-- The rules of the project. -/
def rules (project : Project) : Except Failure (List Rule) := do
  return (← project.familyRules .dotted) ++ (← project.familyRules .quoted)

/-- The rulebook of the project. -/
def rulebook (project : Project) : Except Failure Rulebook := do
  return { rules := ← project.rules }

end Project

end ImportIndex
