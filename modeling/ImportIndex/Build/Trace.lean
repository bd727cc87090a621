import ImportIndex.Path.Table

/-!
# Traces

A trace tells how an artifact came about: the rule that made it, the digest of its content, and
every answer the rule was given, in order. As long as the same questions have the same answers,
the artifact is up to date.
-/

namespace ImportIndex

/-- A question that a rule asked, with the answer it was given. -/
inductive Dependency where
  /-- What the file held, as a digest, or that there was none. -/
  | content (path : Path) (digest : Option String)
  /-- Whether a file was there. -/
  | presence (path : Path) (found : Bool)
  /-- What the artifact of a target held, as a digest. -/
  | artifact (target : Path) (digest : String)
deriving DecidableEq, Repr

/-- The path that a dependency is about. -/
def Dependency.path : Dependency → Path
  | content path _ => path
  | presence path _ => path
  | artifact target _ => target

/-- How an artifact came about. -/
structure Trace where
  /-- The name of the rule that made it. -/
  rule : String
  /-- The digest of its content. -/
  output : String
  /-- What the rule depended on, in the order it asked. -/
  deps : List Dependency
deriving DecidableEq, Repr

/-- The traces of all artifacts, by target. -/
abbrev TraceTable := PathTable Trace

end ImportIndex
