import ImportIndex.FileTree.Fault
import ImportIndex.Path.Basic

/-!
# Why a target cannot be brought up to date

One type for the causes that stop a build, an import listing or a look at an artifact, and one
function that puts them into words. A failure may hold the one that led to it (`Failure.causes`).
-/

namespace ImportIndex

/-- Why something was not done. -/
inductive Failure where
  /-- No rule makes the target. -/
  | noRule (target : Path)
  /-- Several rules make the target. -/
  | ambiguousRule (target : Path) (rules : List String)
  /-- The target was needed while it was being made. The chain leads from it to itself. -/
  | cycle (chain : List Path)
  /-- The target failed before. -/
  | dependencyFailed (target : Path)
  /-- The rule of the target failed. -/
  | ruleFailed (target : Path) (cause : Failure)
  /-- The artifact could not be written. -/
  | writeArtifact (path : Path) (fault : IoFault)
  /-- An artifact that was just made could not be read. -/
  | readArtifact (path : Path) (fault : IoFault)
  /-- The traces could not be written. -/
  | saveTraces (path : Path) (reason : String)
  /-- The source could not be read. -/
  | readSource (path : Path) (fault : IoFault)
  /-- The path does not lead below the root. -/
  | outsideRoot (path root : Path)
  /-- The path cannot be a line of an artifact. -/
  | invalidArtifactPath (path : Path)
  /-- The path is not that of an artifact. -/
  | notAnArtifact (path : Path)
  /-- An artifact could not be read outside of a build. -/
  | loadArtifact (path : Path) (fault : IoFault)
  /-- A target that the listing of imports needed failed. -/
  | needed (cause : Failure)
  /-- A pattern of references takes more bytes than this. -/
  | patternTooLarge (limit : Nat)
  /-- A file could not be used. -/
  | io (fault : IoFault)
  /-- Any other cause, in its own words. -/
  | other (message : String)
deriving DecidableEq, Repr

namespace Failure

/-- A chain of targets, each of which needed the next. -/
def chainText (chain : List Path) : String :=
  " -> ".intercalate (chain.map Path.shown)

/-- What is said about a pattern that takes more bytes than `limit`. -/
def tooLargeText (limit : Nat) : String :=
  s!"Compiled regex exceeds size limit of {limit} bytes."

/-- The failure in words. -/
def message : Failure → String
  | noRule target => s!"no rule to build {target.shown}"
  | ambiguousRule target rules =>
    s!"multiple rules match {target.shown}: " ++ ", ".intercalate rules
  | cycle chain => s!"dependency cycle detected: {chainText chain}"
  | dependencyFailed target => s!"dependency failed: {target.shown}"
  | ruleFailed target cause => s!"failed to build {target.shown}: {cause.message}"
  | writeArtifact path fault => s!"failed to write artifact {path.shown}: {fault.message}"
  | readArtifact path fault => s!"failed to read artifact {path.shown}: {fault.message}"
  | saveTraces path reason => s!"failed to save trace database {path.shown}: {reason}"
  | readSource path fault => s!"failed to read source {path.shown}: {fault.message}"
  | outsideRoot path root =>
    s!"path {path.shown} is outside the expected prefix {root.shown}"
  | invalidArtifactPath path => s!"path cannot be stored in an artifact: {path.shown}"
  | notAnArtifact path => s!"not a dependency artifact: {path.shown}"
  | loadArtifact path fault => s!"failed to read artifact {path.shown}: {fault.message}"
  | needed cause => cause.message
  | patternTooLarge limit => "invalid import pattern: " ++ tooLargeText limit
  | io fault => fault.message
  | other message => message

/-- Whether the target was needed while it was being made. -/
def isCycle : Failure → Bool
  | cycle _ => true
  | _ => false

/-- The messages of what led to the failure, the nearest first. A failure that only passes another
    one on adds no message of its own. -/
def causes : Failure → List String
  | ruleFailed _ cause => cause.message :: cause.causes
  | needed cause => cause.causes
  | writeArtifact _ fault => [fault.message]
  | readArtifact _ fault => [fault.message]
  | readSource _ fault => [fault.message]
  | loadArtifact _ fault => [fault.message]
  | patternTooLarge limit => [tooLargeText limit]
  | _ => []

end Failure

end ImportIndex
