import ImportIndex.Path.FirstSeen

/-!
# The task graph

Which targets were visited, and which target needed which. An edge leads from a target to one that
it needed. Targets that are the same path are one task, in the spelling it was first added with.

The build order (`TaskGraph.buildOrder`) is fixed: a depth-first search starts at the tasks in the
order they were added, follows what a task needs in the order the edges were added, and lists a task
when all that it needs is listed. A second pass over that list, from its end, looks for a task that
is needed by one that has not been passed yet, which closes a cycle.
-/

namespace ImportIndex

/-- Tasks and what they need. -/
structure TaskGraph where
  /-- The tasks. -/
  added : FirstSeen := ∅
  /-- What each task needs. -/
  needed : PathTable FirstSeen := ∅
  /-- What needs each task. -/
  needing : PathTable FirstSeen := ∅

namespace TaskGraph

/-- The tasks, in the order they were added. -/
def tasks (g : TaskGraph) : List Path := g.added.toList

/-- The task that is the same path as `target`, as it was first added. -/
def find? (g : TaskGraph) (target : Path) : Option Path := g.added.spelling? target

/-- Adds a task unless it is there. -/
def addTask (g : TaskGraph) (target : Path) : TaskGraph :=
  { g with added := g.added.add target }

/-- The place of a task in the order of addition. -/
def index? (g : TaskGraph) (target : Path) : Option Nat :=
  g.tasks.findIdx? fun t => decide (t.Same target)

/-- What a task needs, in the order the edges were added. -/
def needs (g : TaskGraph) (task : Path) : List Path :=
  ((g.needed.get? task).getD ∅).toList

/-- What needs a task, in the order the edges were added. -/
def neededBy (g : TaskGraph) (task : Path) : List Path :=
  ((g.needing.get? task).getD ∅).toList

/-- The edges: a task and one that it needs. -/
def edges (g : TaskGraph) : List (Path × Path) :=
  g.tasks.flatMap fun task => (g.needs task).map (task, ·)

/-- Adds an edge between tasks, unless it is there. -/
def addEdge (g : TaskGraph) (dependent dependency : Path) : TaskGraph :=
  let needed := (g.needed.get? dependent).getD ∅
  let needing := (g.needing.get? dependency).getD ∅
  { g with
    needed := g.needed.insert dependent (needed.add dependency)
    needing := g.needing.insert dependency (needing.add dependent) }

/-- Adds an edge, unless it is there, with both its ends. -/
def addDependency (g : TaskGraph) (dependent dependency : Path) : TaskGraph :=
  let g := (g.addTask dependent).addTask dependency
  match g.find? dependent, g.find? dependency with
  | some a, some b => g.addEdge a b
  | _, _ => g

/-- What a target needs directly, in the order of paths. -/
def dependencies (g : TaskGraph) (target : Path) : List Path :=
  match g.find? target with
  | some task => (g.needs task).mergeSort Path.le
  | none => []

/-- A step that the depth-first search has still to take. -/
inductive Pending where
  /-- Look at a task. -/
  | visit (task : Path)
  /-- List a task, now that what it needs is listed. -/
  | finish (task : Path)

/-- The number of tasks that are not among those seen. -/
def unseen (g : TaskGraph) (seen : FirstSeen) : Nat :=
  (g.tasks.filter fun t => !seen.contains t).length

theorem unseen_add_lt {g : TaskGraph} {seen : FirstSeen} {task : Path}
    (h : g.added.contains task = true) (h' : seen.contains task = false) :
    g.unseen (seen.add task) < g.unseen seen := by
  have hsub : (g.tasks.filter fun t => !(seen.add task).contains t) =
      (g.tasks.filter fun t => !seen.contains t).filter fun t => !decide (task.Same t) := by
    rw [List.filter_filter]
    refine List.filter_congr fun t _ => ?_
    rw [FirstSeen.contains_add, Bool.not_or]
  obtain ⟨t, ht, hs⟩ := FirstSeen.contains_iff.1 h
  have hseen : seen.contains t = false := by
    rw [FirstSeen.contains, PathTable.contains_congr hs]
    exact h'
  rw [unseen, unseen, hsub]
  have hst : task.Same t := hs.symm
  refine List.length_filter_lt_length_iff_exists.2 ⟨t, ?_, by simp [hst]⟩
  simp [tasks, ht, hseen]

/-- The depth-first search: takes the pending steps, given the tasks seen and those listed so far,
    of which it returns the last one first. A task that needs itself ends it. -/
def search (g : TaskGraph) (pending : List Pending) (seen : FirstSeen) (listed : List Path) :
    Except Path (List Path) :=
  match pending with
  | [] => .ok listed
  | .finish task :: rest => g.search rest seen (task :: listed)
  | .visit task :: rest =>
    if h : g.added.contains task = true ∧ seen.contains task = false then
      if task ∈ g.needs task then .error task
      else g.search ((g.needs task).map .visit ++ .finish task :: rest) (seen.add task) listed
    else g.search rest seen listed
termination_by (g.unseen seen, pending.length)
decreasing_by
  · exact .right _ (by simp)
  · exact .left _ _ (unseen_add_lt h.1 h.2)
  · exact .right _ (by simp)

/-- Passes the tasks one by one and stops at the first that is needed by a task not passed yet,
    which it returns: the earliest added of them. -/
def backEdge? (g : TaskGraph) (passed : FirstSeen) : List Path → Option Path
  | [] => none
  | task :: rest =>
    match (g.neededBy task).find? (fun t => t ≠ task ∧ !passed.contains t) with
    | some dependent => some dependent
    | none => g.backEdge? (passed.add task) rest

/-- The tasks, each after all that it needs, or a task that lies on a cycle. -/
def buildOrder (g : TaskGraph) : Except Path (List Path) :=
  match g.search (g.tasks.map .visit) ∅ [] with
  | .error task => .error task
  | .ok listed =>
    match g.backEdge? ∅ listed with
    | some task => .error task
    | none => .ok listed.reverse

end TaskGraph

end ImportIndex
