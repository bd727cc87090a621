import ImportIndex.Artifact.Listing
import ImportIndex.Artifact.Name
import ImportIndex.Build.Tracked
import ImportIndex.FileTree.Disk

/-!
# Asking for imports

The imports that an artifact lists, by source: within a build, where the artifact is brought up to
date first, and from what the disk holds.
-/

namespace ImportIndex

/-- The imports of a source, from its artifact, which is brought up to date first. -/
def importsOf (kind : ArtifactKind) (outputRoot source : Path) : Recipe (List Path) := do
  return Listing.parse (← Recipe.artifact (kind.artifact outputRoot source))

/-- The imports of a source, from its artifact as it is on the disk. -/
def Disk.importsOf (disk : Disk) (kind : ArtifactKind) (outputRoot source : Path) :
    Except Failure (List Path) :=
  let artifact := kind.artifact outputRoot source
  match disk.readText artifact with
  | .ok text => .ok (Listing.parse text)
  | .error fault => .error (.loadArtifact artifact fault)

end ImportIndex
