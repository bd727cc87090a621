import ImportIndex.Failure

/-!
# Events

What a build tells about its work: why targets are made anew, what becomes of them, and what rules
tell. Nothing depends on what was told.
-/

namespace ImportIndex

/-- Something that a build tells. -/
inductive Event where
  /-- The target is up to date. -/
  | clean (target : Path)
  /-- The target has a trace of another rule. -/
  | otherRule (target : Path) (previous : String)
  /-- The artifact of the target is not the one that was made. -/
  | otherArtifact (target : Path)
  /-- A question that was asked for the target has another answer now. -/
  | otherAnswer (target asked : Path)
  /-- A target that was needed by another one failed when it was required again. -/
  | neededFailed (needed : Path) (cause : Failure)
  /-- The target is made by a rule. -/
  | making (target : Path) (rule : String)
  /-- The artifact of the target came out as before. -/
  | unchanged (target : Path)
  /-- A target that was asked for failed. -/
  | failed (target : Path) (cause : Failure)
  /-- No search root has the file that a reference stands for. -/
  | unresolved (source : Path) (reference : String)
  /-- The imports of an import are left out, as it belongs to another family of sources. -/
  | foreign (source imported : Path)
  /-- Only the direct imports of an import are listed, as it is part of a cycle. -/
  | cyclic (source imported : Path)
deriving DecidableEq, Repr

end ImportIndex
