import ImportIndex.Path.Basic

/-!
# Normal paths

`Path.normalize` folds a path lexically: `.` is dropped, and `..` removes the name before it. A `..`
that has no name before it stays in a relative path and is dropped right after the root. Nothing is
looked up on disk.
-/

namespace ImportIndex.Path

/-- Adds a component to the components of a normal path, which are listed with the last first. -/
def normalStep : List Component → Component → List Component
  | stack, .here => stack
  | .name _ :: stack, .up => stack
  | .root :: stack, .up => .root :: stack
  | stack, .up => .up :: stack
  | _, .root => [.root]
  | stack, .name n => .name n :: stack

/-- The components of the normal path. -/
def normalComponents (cs : List Component) : List Component :=
  (cs.foldl normalStep []).reverse

/-- The path folded lexically. -/
def normalize (p : Path) : Path :=
  ofComponents (normalComponents p.components)

/-- The front of a normal path is the root or a run of `..`. -/
def IsFront (front : List Component) : Prop :=
  front = [.root] ∨ ∃ k, front = List.replicate k .up

/-- A normal path is a front followed by names, and is written with nothing besides. -/
def IsNormal (p : Path) : Prop :=
  p = ofComponents p.components ∧
  ∃ (front : List Component) (names : List Bytes),
    p.components = front ++ names.map .name ∧ IsFront front

example : ((ofText "a/./b/../c").normalize.shown, (ofText "/../a").normalize.shown,
    (ofText "a/../../b").normalize.shown) = ("a/c", "/a", "../b") := by decide +kernel

end ImportIndex.Path
