import ImportIndex.Build.Trace
import ImportIndex.Failure
import ImportIndex.FileTree.Disk
import ImportIndex.Json.Reader

/-!
# The trace file

Traces outlive a build in a file of structured text. A file that is missing, unreadable or
malformed, or that has another version, counts as one without traces: losing traces costs work and
nothing else. Traces whose paths are no text cannot be written.
-/

namespace ImportIndex

namespace Dependency

/-- The dependency as it is written, if its path is a text. -/
def toJson? : Dependency → Option Json
  | content path digest =>
    path.toText?.map fun text => .object
      [("kind", .text "file"), ("path", .text text),
       ("hash", match digest with | some digest => .text digest | none => .null)]
  | presence path found =>
    path.toText?.map fun text => .object
      [("kind", .text "exists"), ("path", .text text), ("exists", .bool found)]
  | artifact target digest =>
    target.toText?.map fun text => .object
      [("kind", .text "target"), ("path", .text text), ("hash", .text digest)]

/-- The kinds of dependencies. -/
inductive Kind where
  /-- On the content of a file. -/
  | content
  /-- On whether a file is there. -/
  | presence
  /-- On an artifact. -/
  | artifact
deriving DecidableEq, Repr

namespace Kind

/-- The kinds. -/
def all : List Kind := [content, presence, artifact]

/-- The name of the kind. -/
def name : Kind → String
  | content => "file"
  | presence => "exists"
  | artifact => "target"

/-- The name of the member that holds the answer. -/
def answerName : Kind → String
  | content => "hash"
  | presence => "exists"
  | artifact => "hash"

/-- What a dependency of the kind is called where there is something else. -/
def wanted : Kind → String
  | content => "struct variant Dependency::File with 2 elements"
  | presence => "struct variant Dependency::Exists with 2 elements"
  | artifact => "struct variant Dependency::Target with 2 elements"

/-- Reads the name of a kind. -/
def reader : Json.Reader Kind := do
  let found ← Json.Reader.text "variant identifier"
  match all.find? (·.name == found) with
  | some kind => return kind
  | none => Json.Reader.stop (.mismatch (.unknownVariant found (all.map name)))

/-- The dependency of the kind, but for its path, with this answer. A digest may be null if none is
    known. -/
def withAnswer : Kind → Json → Except Json.Mismatch (Path → Dependency)
  | content, .null => .ok (.content · none)
  | content, .text digest => .ok (.content · (some digest))
  | content, other => .error (.kind other.found "a string")
  | presence, .bool found => .ok (.presence · found)
  | presence, other => .error (.kind other.found "a boolean")
  | artifact, .text digest => .ok (.artifact · digest)
  | artifact, other => .error (.kind other.found "a string")

end Kind

/-- The path that a value holds. -/
def pathOf : Json → Except Json.Mismatch Path
  | .text path => .ok (.ofText path)
  | other => .error (.kind other.found "path string")

/-- The dependency that a list holds after its kind. -/
def ofItems (kind : Kind) : List Json → Except Json.Mismatch Dependency
  | [] => .error (.length 0 kind.wanted)
  | [path] => do
    let _ ← pathOf path
    .error (.length 1 kind.wanted)
  | path :: answer :: rest => do
    let path ← pathOf path
    let dependency ← kind.withAnswer answer
    if rest.isEmpty then return dependency path
    .error (.length (rest.length + 2) "2 elements in sequence")

/-- A dependency that is read from the members of an object. -/
structure Parts where
  /-- The path, once it was read. -/
  path : Option Path := none
  /-- What the path is put into, once the answer was read. -/
  dependency : Option (Path → Dependency) := none

/-- Adds a member to a dependency. Members of other names do not count. -/
def Parts.add (kind : Kind) (parts : Parts) (member : String × Json) :
    Except Json.Mismatch Parts := do
  if member.1 = "path" then
    if parts.path.isSome then .error (.repeatedField "path")
    return { parts with path := some (← pathOf member.2) }
  else if member.1 = kind.answerName then
    if parts.dependency.isSome then .error (.repeatedField kind.answerName)
    return { parts with dependency := some (← kind.withAnswer member.2) }
  else return parts

/-- The dependency that an object holds besides its kind. A digest may be left out if none is
    known. -/
def ofMembers (kind : Kind) (members : List (String × Json)) :
    Except Json.Mismatch Dependency := do
  let parts ← members.foldlM (Parts.add kind) {}
  match parts.path, parts.dependency with
  | none, _ => .error (.missingField "path")
  | some path, some dependency => return dependency path
  | some path, none =>
    if kind = .content then return .content path none
    .error (.missingField kind.answerName)

/-- How deeply values in a dependency may be nested, in a file that nests it five levels deep. -/
def maxDepth : Nat := Json.Reader.maxDepth - 5

/-- Reads a list of the kind, the path and the answer, whose opening bracket was taken. -/
def itemsReader : Json.Reader (Kind × List Json) :=
  Json.Reader.inList do
    if ← Json.Reader.anotherItem true true then
      let kind ← Kind.reader
      return (kind, ← Json.Reader.items true (Json.Reader.value maxDepth) false)
    else Json.Reader.stopUnplaced (.missingField "kind")

/-- Reads a member of an object that tells its kind. The other members are kept, the last one
    first. -/
def memberReader (found : Option Kind × List (String × Json)) (name : String) :
    Json.Reader (Option Kind × List (String × Json)) := do
  if name = "kind" then
    if found.1.isSome then Json.Reader.stopUnplaced (.repeatedField "kind")
    Json.Reader.colon
    return (some (← Kind.reader), found.2)
  else
    Json.Reader.colon
    return (found.1, (name, ← Json.Reader.value maxDepth) :: found.2)

/-- Reads an object that tells its kind, whose opening brace was taken. The other members are
    returned in their order. -/
def membersReader : Json.Reader (Kind × List (String × Json)) :=
  Json.Reader.inObject do
    match ← Json.Reader.members true memberReader (none, []) with
    | (some kind, members) => return (kind, members.reverse)
    | (none, _) => Json.Reader.stopUnplaced (.missingField "kind")

/-- Goes on with a dependency, if there is one. -/
def orStop : Except Json.Mismatch Dependency → Json.Reader Dependency
  | .ok dependency => return dependency
  | .error difference => Json.Reader.stopUnplaced difference

/-- Reads a dependency from an object that tells its kind, or from a list of the kind, the path
    and the answer. -/
def reader : Json.Reader Dependency := do
  match ← Json.Reader.peek with
  | some '[' =>
    Json.Reader.drop
    let (kind, items) ← itemsReader
    orStop (ofItems kind items)
  | some '{' =>
    Json.Reader.drop
    let (kind, members) ← membersReader
    orStop (ofMembers kind members)
  | _ => Json.Reader.mismatched "internally tagged enum Dependency"

end Dependency

namespace Trace

/-- The trace as it is written, if its paths are texts. -/
def toJson? (trace : Trace) : Option Json :=
  (trace.deps.mapM Dependency.toJson?).map fun deps => .object
    [("rule", .text trace.rule), ("output_hash", .text trace.output), ("deps", .list deps)]

/-- Reads a text. -/
def text : Json.Reader String := Json.Reader.text "a string"

/-- Reads a trace. -/
def reader : Json.Reader Trace :=
  Json.Reader.record "struct Trace"
    [⟨"rule", fun trace => return { trace with rule := ← text }, true⟩,
     ⟨"output_hash", fun trace => return { trace with output := ← text }, true⟩,
     ⟨"deps",
      fun trace => return { trace with deps := ← Json.Reader.list Dependency.reader }, true⟩]
    true ⟨"", "", []⟩

end Trace

/-- Why the traces in a trace file do not count. -/
inductive TraceFileFault where
  /-- There is no file. -/
  | missing
  /-- The file cannot be read. -/
  | unreadable (fault : IoFault)
  /-- The text in the file is not that of a trace file. -/
  | malformed (fault : Json.Fault)
  /-- The file has another version. -/
  | otherVersion (found : Nat)
deriving DecidableEq, Repr

namespace TraceTable

/-- The version of the format. -/
def version : Nat := 1

/-- The largest number that can be a version. -/
def maxVersion : Nat := 0xFFFFFFFF

/-- The text of the trace file, if all paths are texts. -/
def text? (traces : TraceTable) : Option String := do
  let members ← traces.entries.mapM fun e => do return ((← e.1.toText?), (← e.2.toJson?))
  return (Json.object [("version", .ofNat version), ("traces", .object members)]).render ++ "\n"

/-- Reads the version and the traces of a trace file. Of several traces of one target, the last one
    counts. -/
def reader : Json.Reader (Nat × TraceTable) :=
  Json.Reader.record "struct TraceDb"
    [⟨"version", fun s => return (← Json.Reader.natural maxVersion "u32", s.2), true⟩,
     ⟨"traces", fun s => return (s.1, ← traces), true⟩]
    true (0, ∅)
where
  /-- Reads traces from an object with one member for each target. -/
  traces : Json.Reader TraceTable :=
    Json.Reader.object (fun (table : TraceTable) target => do
      Json.Reader.colon
      return table.insert (.ofText target) (← Trace.reader)) ∅

/-- The traces that a text holds, if it is the text of a trace file. -/
def ofText (text : String) : Except TraceFileFault TraceTable :=
  match reader.run text with
  | .ok (found, traces) => if found = version then .ok traces else .error (.otherVersion found)
  | .error fault => .error (.malformed fault)

/-- The traces in the trace file at a path. -/
def read (disk : Disk) (path : Path) : Except TraceFileFault TraceTable :=
  match disk.readText path with
  | .ok text => ofText text
  | .error .notFound => .error .missing
  | .error fault => .error (.unreadable fault)

/-- The traces that were read, or none if they do not count. -/
def orNone : Except TraceFileFault TraceTable → TraceTable
  | .ok traces => traces
  | .error _ => ∅

/-- The traces in the trace file at a path, or none if they do not count. -/
def load (disk : Disk) (path : Path) : TraceTable := orNone (read disk path)

/-- Why traces whose paths are no texts are not written. -/
def notTextReason : String := "path contains invalid UTF-8 characters"

/-- Writes the trace file at a path, unless it holds these traces already. -/
def save (traces : TraceTable) (path : Path) (disk : Disk) : Except Failure Unit × Disk :=
  match traces.text? with
  | none => (.error (.saveTraces path notTextReason), disk)
  | some text =>
    match Disk.writeIfChanged path (.ofText text) disk with
    | (.ok _, disk) => (.ok (), disk)
    | (.error fault, disk) => (.error (.saveTraces path fault.message), disk)

end TraceTable

end ImportIndex
