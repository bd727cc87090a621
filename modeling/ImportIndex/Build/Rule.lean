import ImportIndex.Build.Tracked
import ImportIndex.Digest

/-!
# Rules

A rule says which targets it makes, and how. Every target has to be made by one rule and no other:
`Rulebook.find` fails if there is none, or more than one.
-/

namespace ImportIndex

/-- A way to make targets. -/
structure Rule where
  /-- The name, by which traces refer to the rule. -/
  name : String
  /-- Whether the rule makes this target. -/
  makes : Path → Bool
  /-- Computes the content of the target's artifact. -/
  recipe : Path → Recipe Content

/-- The rules of a build, and the digest by which it compares contents. -/
structure Rulebook where
  /-- The rules, in the order they were given. -/
  rules : List Rule
  /-- The digest of a content. -/
  digest : Content → String := Digest.ofContent

namespace Rulebook

/-- The rules that make a target. -/
def rulesFor (book : Rulebook) (target : Path) : List Rule :=
  book.rules.filter (·.makes target)

/-- The rule that makes a target, if it is the only one. -/
def find (book : Rulebook) (target : Path) : Except Failure Rule :=
  match book.rulesFor target with
  | [] => .error (.noRule target)
  | [rule] => .ok rule
  | rules => .error (.ambiguousRule target (rules.map (·.name)))

end Rulebook

end ImportIndex
