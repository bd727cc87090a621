import ImportIndex.Build.Event

/-!
# Tracked computations

What a rule does to make a target is a tree of requests: it asks for the text of a file, for
whether a file is there, or for another target, and goes on with the answer. There is no other way
to look at the disk, so a computation depends on nothing but the answers it was given. It may tell
events on its way, to which there is no answer.

`Recipe` is a tracked computation that may also fail.
-/

namespace ImportIndex

/-- A computation that asks for what it reads. -/
inductive Tracked (α : Type) where
  /-- The result. -/
  | done (a : α)
  /-- Asks for the text of a file. -/
  | readText (path : Path) (next : Except IoFault String → Tracked α)
  /-- Asks whether a file is there. -/
  | isFile (path : Path) (next : Bool → Tracked α)
  /-- Asks for a target to be brought up to date. -/
  | need (target : Path) (next : Except Failure Unit → Tracked α)
  /-- Asks for a target to be brought up to date, and for the text of its artifact. -/
  | artifact (target : Path) (next : Except Failure String → Tracked α)
  /-- Asks how many dependencies were recorded so far. -/
  | count (next : Nat → Tracked α)
  /-- Tells an event. -/
  | tell (event : Event) (next : Tracked α)

namespace Tracked

variable {α β γ : Type}

/-- Goes on with the result of a computation. -/
protected def bind (f : α → Tracked β) : Tracked α → Tracked β
  | done a => f a
  | readText path next => .readText path fun answer => (next answer).bind f
  | isFile path next => .isFile path fun answer => (next answer).bind f
  | need target next => .need target fun answer => (next answer).bind f
  | artifact target next => .artifact target fun answer => (next answer).bind f
  | count next => .count fun answer => (next answer).bind f
  | tell event next => .tell event (next.bind f)

instance : Monad Tracked where
  pure := done
  bind x f := x.bind f

theorem bind_done (x : Tracked α) : x.bind done = x := by
  induction x with
  | done a => rfl
  | readText path next ih => exact congrArg _ (funext ih)
  | isFile path next ih => exact congrArg _ (funext ih)
  | need target next ih => exact congrArg _ (funext ih)
  | artifact target next ih => exact congrArg _ (funext ih)
  | count next ih => exact congrArg _ (funext ih)
  | tell event next ih => exact congrArg _ ih

theorem bind_assoc (x : Tracked α) (f : α → Tracked β) (g : β → Tracked γ) :
    (x.bind f).bind g = x.bind fun a => (f a).bind g := by
  induction x with
  | done a => rfl
  | readText path next ih => exact congrArg _ (funext ih)
  | isFile path next ih => exact congrArg _ (funext ih)
  | need target next ih => exact congrArg _ (funext ih)
  | artifact target next ih => exact congrArg _ (funext ih)
  | count next ih => exact congrArg _ (funext ih)
  | tell event next ih => exact congrArg _ ih

instance : LawfulMonad Tracked :=
  .mk' Tracked bind_done (fun _ _ => rfl) bind_assoc

end Tracked

/-- A tracked computation that may fail. -/
abbrev Recipe := ExceptT Failure Tracked

namespace Recipe

/-- The text of a file. A fault becomes the failure that `wrap` makes of it. -/
def readText (path : Path) (wrap : IoFault → Failure := .io) : Recipe String :=
  ExceptT.mk (.readText path fun answer => .done (answer.mapError wrap))

/-- Whether a file is there. -/
def isFile (path : Path) : Recipe Bool :=
  ExceptT.mk (.isFile path fun answer => .done (.ok answer))

/-- Brings a target up to date. -/
def need (target : Path) : Recipe Unit :=
  ExceptT.mk (.need target .done)

/-- Brings a target up to date and takes the text of its artifact. -/
def artifact (target : Path) : Recipe String :=
  ExceptT.mk (.artifact target .done)

/-- How many dependencies were recorded so far. -/
def count : Recipe Nat :=
  ExceptT.mk (.count fun answer => .done (.ok answer))

/-- Tells an event. -/
def tell (event : Event) : Recipe Unit :=
  ExceptT.mk (.tell event (.done (.ok ())))

end Recipe

end ImportIndex
