import ImportIndex.Text.Split
import ImportIndex.Failure
import ImportIndex.Project

/-!
# Complaints

What a command says when it cannot do what was asked: what went wrong, and the causes that led to
it, the nearest first.
-/

namespace ImportIndex.Command

/-- What went wrong, and why. -/
structure Complaint where
  /-- What went wrong. -/
  message : String
  /-- The causes, the nearest first. -/
  causes : List String := []
deriving DecidableEq, Repr

namespace Complaint

/-- The complaint about a failure. -/
def ofFailure (failure : Failure) : Complaint := ⟨failure.message, failure.causes⟩

/-- The complaint about a project that cannot be opened. -/
def ofProjectFault (fault : ProjectFault) : Complaint := ⟨fault.message, [fault.cause]⟩

/-- The complaint that names what was being done, with the former one as its cause. -/
def during (doing : String) (complaint : Complaint) : Complaint :=
  ⟨doing, complaint.message :: complaint.causes⟩

/-- A cause behind its label. Lines after the first one are indented as far as the label is wide. -/
def labelled (label cause : String) : String :=
  let indent := String.ofList (List.replicate label.length ' ')
  label ++ ("\n" ++ indent).intercalate ((splitAt '\n' cause.toList).map String.ofList)

/-- The label of the cause with this number: the number, on the right of five places. -/
def number (n : Nat) : String :=
  let digits := toString n
  String.ofList (List.replicate (5 - digits.length) ' ') ++ digits ++ ": "

/-- The causes, one below the other. Several causes are numbered. -/
def causeLines : List String → List String
  | [cause] => [labelled "    " cause]
  | causes => causes.zipIdx.map fun (cause, n) => labelled (number n) cause

/-- The complaint as it is printed. -/
def text (complaint : Complaint) : String :=
  let below := match complaint.causes with
    | [] => []
    | causes => ["", "Caused by:"] ++ causeLines causes
  String.join ((("Error: " ++ complaint.message) :: below).map (· ++ "\n"))

example : (Complaint.text ⟨"a", ["b\nc", "d"]⟩) =
    "Error: a\n\nCaused by:\n    0: b\n       c\n    1: d\n" := by decide +kernel

end Complaint

end ImportIndex.Command
