import ImportIndex.Path.Basic

/-!
# Names of artifacts

Every source has two artifacts below the output root: its path from the project root, with a suffix
that tells the kind. `ArtifactKind.source?` recovers the source from the path of an artifact.
-/

namespace ImportIndex

/-- The kinds of artifacts. -/
inductive ArtifactKind where
  /-- The list of what a source imports itself. -/
  | direct
  /-- The list of what a source imports itself or through what it imports. -/
  | transitive
deriving DecidableEq, Repr

namespace ArtifactKind

/-- Both kinds. -/
def all : List ArtifactKind := [direct, transitive]

/-- The suffix of the artifacts of a kind. -/
def suffix : ArtifactKind → String
  | direct => ".directImports"
  | transitive => ".transitiveImports"

/-- The kind, by name. -/
def name : ArtifactKind → String
  | direct => "direct"
  | transitive => "transitive"

/-- The artifact of a source. -/
def artifact (kind : ArtifactKind) (outputRoot source : Path) : Path :=
  ⟨(outputRoot.join source).bytes ++ Bytes.ofText kind.suffix⟩

/-- The source of an artifact of this kind. There is none if the path does not lead below the output
    root, is no text, lacks the suffix, or has nothing but a directory before it. -/
def source? (kind : ArtifactKind) (outputRoot artifact : Path) : Option Path := do
  let relative ← artifact.stripStart? outputRoot
  let _ ← relative.toText?
  let source ← relative.bytes.dropEnd? (Bytes.ofText kind.suffix)
  if source = [] ∨ source.getLast? = some Path.separator then none else some ⟨source⟩

/-- The kind and the source of an artifact. -/
def classify? (outputRoot artifact : Path) : Option (ArtifactKind × Path) :=
  all.findSome? fun kind => (kind.source? outputRoot artifact).map fun source => (kind, source)

/-- Both artifacts of each source, the direct one first. -/
def artifacts (outputRoot : Path) (sources : List Path) : List Path :=
  sources.flatMap fun source => all.map fun kind => kind.artifact outputRoot source

end ArtifactKind

end ImportIndex
