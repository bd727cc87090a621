import ImportIndex.Path.Basic

/-!
# Settings

What a project can choose: where its artifacts go, where references are looked up, and how its
sources look.
-/

namespace ImportIndex

/-- The settings of a project. Relative directories are taken from the project root. -/
structure Settings where
  /-- The directory of the artifacts. -/
  outputDir : Path := .ofText "_build/deps"
  /-- The search roots of dotted references, in order of preference. -/
  moduleRoots : List Path := [.ofText "."]
  /-- The search roots of quoted references, in order of preference. -/
  includeRoots : List Path := [.ofText "."]
  /-- The extension of sources with dotted references. -/
  moduleExtension : String := "hs"
  /-- The keyword of dotted references. -/
  moduleKeyword : String := "import"
  /-- The extensions of sources with quoted references. -/
  nativeExtensions : List String := ["c", "h"]
  /-- The keyword of quoted references. -/
  includeKeyword : String := "#include"
deriving DecidableEq, Repr

/-- The families of sources. -/
inductive Family where
  /-- Sources with dotted references. -/
  | dotted
  /-- Sources with quoted references. -/
  | quoted
deriving DecidableEq, Repr

namespace Family

/-- The family, by name. -/
def name : Family → String
  | dotted => "module"
  | quoted => "native"

/-- The family of a source, by its extension. The family of dotted references comes first. -/
def of? (settings : Settings) (source : Path) : Option Family := do
  let extension ← (← source.extension?).toText?
  if extension = settings.moduleExtension then some dotted
  else if extension ∈ settings.nativeExtensions then some quoted
  else none

end Family

end ImportIndex
