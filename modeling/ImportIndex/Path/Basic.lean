import ImportIndex.Text.Bytes
import ImportIndex.Text.Split

/-!
# Paths

A path is kept in the spelling it was written in. What it *names* is its list of components:
repeated separators, inner `.` pieces and a trailing separator do not count, while a leading `.`
and every `..` do. Two paths are the same (`Path.Same`) when they have the same components.

Operations that cut a path (`parent?`, `stripStart?`) keep the spelling of what is left, trimmed
of the separators at the cut.
-/

namespace ImportIndex

/-- A path, in the spelling it was written in. -/
structure Path where
  /-- The spelling. -/
  bytes : Bytes
deriving DecidableEq, Repr, Inhabited

/-- One component of a path. -/
inductive Component where
  /-- The root directory, at the front of an absolute path. -/
  | root
  /-- A `.` at the front of a relative path. -/
  | here
  /-- The parent directory. -/
  | up
  /-- The name of an entry of a directory. -/
  | name (n : Bytes)
deriving DecidableEq, Repr

namespace Component

/-- The component as it is written. -/
def bytes : Component → Bytes
  | root => Bytes.ofText "/"
  | here => Bytes.ofText "."
  | up => Bytes.ofText ".."
  | name n => n

end Component

namespace Path

/-- The byte between the pieces of a path. -/
def separator : UInt8 := 0x2F

/-- The path written as the text `s`. -/
def ofText (s : String) : Path := ⟨Bytes.ofText s⟩

/-- The spelling as a text, if it is one. -/
def toText? (p : Path) : Option String := p.bytes.toText?

/-- The path as people see it. -/
def shown (p : Path) : String := p.bytes.shown

/-- The piece `.`. -/
def herePiece : Bytes := [0x2E]

/-- The piece `..`. -/
def upPiece : Bytes := [0x2E, 0x2E]

/-- A piece that does not count: an empty one, or a `.` that is not at the front. -/
def isIdle (piece : Bytes) : Bool := piece.isEmpty || piece == herePiece

/-- The component that a piece stands for, if it counts. -/
def pieceComponent? (piece : Bytes) : Option Component :=
  if isIdle piece then none else if piece = upPiece then some .up else some (.name piece)

/-- Whether the path starts at the root directory. -/
def isAbsolute (p : Path) : Bool := p.bytes.head? == some separator

/-- The front of a path, which the pieces after it do not repeat, and those pieces. -/
structure Layout where
  /-- The root, a leading `.`, or nothing. -/
  front : Option Component
  /-- The pieces after the front. -/
  pieces : List Bytes

/-- The layout of a path. -/
def layout (p : Path) : Layout :=
  match p.bytes with
  | [] => ⟨none, []⟩
  | b :: rest =>
    if b = separator then ⟨some .root, splitAt separator rest⟩
    else match splitAt separator (b :: rest) with
      | [] => ⟨none, []⟩
      | piece :: pieces =>
        if piece = herePiece then ⟨some .here, pieces⟩ else ⟨none, piece :: pieces⟩

/-- The components of a path. -/
def components (p : Path) : List Component :=
  p.layout.front.toList ++ p.layout.pieces.filterMap pieceComponent?

/-- Two paths are the same when they have the same components. -/
def Same (p q : Path) : Prop := p.components = q.components

/-! ### Putting paths together -/

/-- The path `q` seen from the directory `p`: `q` itself if it is absolute. -/
def join (p q : Path) : Path :=
  if q.isAbsolute then q
  else match p.bytes.getLast? with
    | none => q
    | some b => if b = separator then ⟨p.bytes ++ q.bytes⟩ else ⟨p.bytes ++ separator :: q.bytes⟩

/-- The path that the components are written as, with one separator between two of them. -/
def ofComponents : List Component → Path
  | .root :: cs => ⟨separator :: joinWith separator (cs.map Component.bytes)⟩
  | cs => ⟨joinWith separator (cs.map Component.bytes)⟩

/-! ### Taking paths apart -/

/-- The pieces without the ones at the end that do not count. -/
def trimEnd (pieces : List Bytes) : List Bytes :=
  (pieces.reverse.dropWhile isIdle).reverse

/-- The path with this layout. A separator follows a leading `.` if pieces do. -/
def ofLayout (l : Layout) : Path :=
  match l.front, l.pieces with
  | some .root, pieces => ⟨separator :: joinWith separator pieces⟩
  | some c, [] => ⟨c.bytes⟩
  | some c, pieces => ⟨c.bytes ++ separator :: joinWith separator pieces⟩
  | none, pieces => ⟨joinWith separator pieces⟩

/-- The path without its last component, unless that is the root or there is none. -/
def parent? (p : Path) : Option Path :=
  let l := p.layout
  match (l.pieces.reverse.dropWhile isIdle) with
  | _ :: earlier => some (ofLayout { l with pieces := trimEnd earlier.reverse })
  | [] => if l.front = some .here then some ⟨[]⟩ else none

/-- The pieces after the first `n` that count, from the next one that counts on. -/
def dropCounted : Nat → List Bytes → List Bytes
  | 0, pieces => pieces.dropWhile isIdle
  | n + 1, pieces =>
    match pieces.dropWhile isIdle with
    | [] => []
    | _ :: rest => dropCounted n rest

/-- The components that are left after the components `start`, if the list starts with them. -/
def componentsAfter? (start cs : List Component) : Option (List Component) :=
  if start.isPrefixOf cs then some (cs.drop start.length) else none

/-- Whether the components of `p` start with those of `start`. -/
def StartsWith (p start : Path) : Prop := start.components <+: p.components

instance (p start : Path) : Decidable (p.StartsWith start) :=
  inferInstanceAs (Decidable (start.components <+: p.components))

/-- What is left of `p` after `start`, in the spelling of `p`, if `p` starts with it. -/
def stripStart? (p start : Path) : Option Path :=
  if p.StartsWith start then
    let l := p.layout
    match start.components.length, l.front with
    | 0, _ => some (ofLayout { l with pieces := trimEnd l.pieces })
    | n + 1, some _ => some ⟨joinWith separator (trimEnd (dropCounted n l.pieces))⟩
    | n + 1, none => some ⟨joinWith separator (trimEnd (dropCounted (n + 1) l.pieces))⟩
  else none

/-- The last component, if it is a name. -/
def fileName? (p : Path) : Option Bytes :=
  match p.components.getLast? with
  | some (.name n) => some n
  | _ => none

/-- The byte before an extension. -/
def dot : UInt8 := 0x2E

/-- A name parted at its last dot. A name without a dot, and one whose only dot is its first byte,
    has no extension. -/
def partName (name : Bytes) : Bytes × Option Bytes :=
  let fromEnd := name.reverse
  let extension := (fromEnd.takeWhile (· != dot)).reverse
  match fromEnd.dropWhile (· != dot) with
  | [] => (name, none)
  | [_] => (name, none)
  | _ :: stem => (stem.reverse, some extension)

/-- The part of the last name after its last dot. -/
def extension? (p : Path) : Option Bytes :=
  p.fileName?.bind fun n => (partName n).2

/-- The part of the last name before its last dot. -/
def fileStem? (p : Path) : Option Bytes :=
  p.fileName?.map fun n => (partName n).1

example : (ofText "/a//b/./c/").components = (ofText "/a/b/c").components := by decide +kernel

example : ((ofText "a//b/./c/.").stripStart? (ofText "a")).map Path.shown = some "b/./c" := by
  decide +kernel

example : ((ofText "./a").parent?.map Path.shown, (ofText "/").parent?.map Path.shown,
    (ofText "a//b/").parent?.map Path.shown) = (some ".", none, some "a") := by
  decide +kernel

end Path

end ImportIndex
