import ImportIndex.Command.Wording
import ImportIndex.Json.Basic
import ImportIndex.Path.Basic

/-!
# Displays

What commands print for people: headlines with a mark that tells how things went, fields below
them, and lists of paths. Everything for programs is one structured text, in which every path has
to be a text.
-/

namespace ImportIndex.Command

/-- How a headline reads. -/
inductive Tone where
  /-- Something was done. -/
  | done
  /-- Something is told. -/
  | note
  /-- Something went wrong in part. -/
  | warn
  /-- Something failed. -/
  | fail
deriving DecidableEq, Repr

/-- The mark in front of a headline. -/
def Tone.mark : Tone → String
  | done => "✓"
  | note => "•"
  | warn => "⚠"
  | fail => "✗"

/-- A headline. -/
def headline (tone : Tone) (message : String) : String := s!"{tone.mark} {message}\n"

/-- A field below a headline. -/
def field (label value : String) : String := s!"  {label}: {value}\n"

/-- A field that holds a number. -/
def numberField (label : String) (value : Nat) : String := field label (toString value)

/-- The field that tells how long a command took. -/
def durationField (d : Duration) : String := field "Duration" (elapsed d)

/-- Paths, one in a line, each behind this many blanks. -/
def pathLines (indent : Nat) (paths : List Path) : String :=
  let blanks := String.ofList (List.replicate indent ' ')
  String.join (paths.map fun path => blanks ++ path.shown ++ "\n")

/-- A path in structured text, if it is a text. -/
def jsonPath? (path : Path) : Option Json := path.toText?.map Json.text

/-- A list of paths in structured text, if they are texts. -/
def jsonPaths? (paths : List Path) : Option Json := (paths.mapM jsonPath?).map Json.list

end ImportIndex.Command
