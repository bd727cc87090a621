import ImportIndex.Proofs.Build.Acyclic
import ImportIndex.Proofs.Build.BuildOrder

/-!
# The moves of a session

A session goes on by moves (`Session.Move`): it starts a target that was not required before, it ends the
innermost of those that are being brought up to date, it records that this one needed a target that is
done, or it does some work that concerns none of that. Whatever the rules are, and whatever the traces
say, all that a session does when a target is required is made of such moves
(`Session.moves_of_require`), the requests of rules and those of trace checks included.

So what every move keeps holds at any time. The tasks are the targets that were required, and an edge
leads from a task to one that ended, and is up to date, before the task itself ends (`Session.Charted`).
Requests that close a cycle are refused without a move, so that they leave no edge, and the build order
of a session is never refused (`Session.buildOrder_of_requests`).
-/

namespace ImportIndex

theorem SessionM.Ends.and {α : Type} {x : SessionM α} {s : Session} {must must' : Prop}
    {post post' : α → Session → Prop} (h : x.Ends s must post) (h' : x.Ends s must' post') :
    x.Ends s must' fun a s' => post a s' ∧ post' a s' :=
  ⟨fun a s' hx => ⟨h.1 a s' hx, h'.1 a s' hx⟩, h'.2⟩

/-- A target that was made anew has not failed. -/
theorem Stats.failed_countRebuilt {stats : Stats} {written : Bool} :
    (stats.countRebuilt written).failed = stats.failed := by
  cases written <;> rfl

namespace Session

variable {book : Rulebook} {req : Require} {s s' s₁ s₂ : Session} {t u : Path}
  {ended ended' : List Path}
  {d : Dependency} {deps before : List Dependency} {P : Session → Prop}

/-- Whether sessions differ in nothing that concerns how far targets have come. -/
structure Works (s s' : Session) : Prop where
  /-- The progress of the targets. -/
  progress : s'.progress = s.progress
  /-- The targets that are being brought up to date. -/
  stack : s'.stack = s.stack
  /-- The tasks, and what they need. -/
  graph : s'.graph = s.graph

/-- Whether a session has done some work in which no target failed. -/
structure Labors (s s' : Session) : Prop extends Works s s' where
  /-- The targets that failed are counted as before. -/
  failed : s'.stats.failed = s.stats.failed

/-- A move of a session, with the target that it ends, if it ends one. -/
inductive Move (s : Session) : Option Path → Session → Prop
  | start {t : Path} (fresh : s.progress.get? t = none) : Move s none (start t s)
  | finish {t : Path} {rest : List Path} (top : s.stack = t :: rest) (r : Except Failure String) :
      Move s (some t) (finish t r s)
  | need {t u : Path} {rest : List Path} {digest : String} (top : s.stack = t :: rest)
      (done : s.progress.get? u = some (.done digest)) :
      Move s none { s with graph := s.graph.addDependency t u }
  | work {s' : Session} (same : Works s s') : Move s none s'

/-- Moves one after another, with the targets that they end, in this order. -/
inductive Moves (s : Session) : List Path → Session → Prop
  | refl : Moves s [] s
  | tail {ended : List Path} {e : Option Path} {s₁ s₂ : Session} (before : Moves s ended s₁)
      (last : Move s₁ e s₂) : Moves s (ended ++ e.toList) s₂

theorem Moves.trans (h : Moves s ended s₁) (h' : Moves s₁ ended' s₂) :
    Moves s (ended ++ ended') s₂ := by
  induction h' with
  | refl => simpa using h
  | tail _ last ih =>
    rw [← List.append_assoc]
    exact ih.tail last

/-! ### What is made of moves -/

/-- Whether something is kept while the trace of a target is checked and its rule runs, if the requests
    below keep it. -/
structure Minds (req : Require) (t : Path) (P : Session → Prop) : Prop where
  /-- What is told does not matter to it. -/
  tell : ∀ {s} e, P s → P { s with told := e :: s.told }
  /-- Requests keep it, and what they are granted is done. -/
  request : ∀ {s} u, P s → (req u).Ends s False fun r s' =>
    P s' ∧ ∀ digest, r = .ok digest → s'.progress.get? u = some (.done digest)
  /-- To record that the target needed one that is done keeps it. -/
  need : ∀ {s u digest}, P s → s.progress.get? u = some (.done digest) →
    P { s with graph := s.graph.addDependency t u }

namespace Minds

variable (k : Minds req t P) (hs : P s)

include k hs

theorem ends_tell (e : Event) : (Session.tell e).Ends s False fun _ s' => P s' :=
  .mono .of_modify fun _ _ h => h ▸ k.tell e hs

theorem holds : (holds book req t d).Ends s False fun _ s' => P s' := by
  cases d with
  | content p digest => exact digestOf_course.bind fun _ _ h => .pure (h.2 ▸ hs)
  | presence p found =>
    refine SessionM.Ends.bind .of_get fun _ _ h => ?_
    obtain ⟨rfl, rfl⟩ := h
    exact .pure hs
  | artifact u digest =>
    refine (k.request u hs).bind fun r s₁ h => ?_
    cases r with
    | error cause => exact (k.ends_tell h.1 _).bind fun _ _ h => .pure h
    | ok current =>
      exact SessionM.Ends.bind .of_modify fun _ s₂ hs₂ => .pure (hs₂ ▸ k.need h.1 (h.2 _ rfl))

theorem allHold : (allHold book req t deps).Ends s False fun _ s' => P s' := by
  induction deps generalizing s with
  | nil => exact .pure hs
  | cons d deps ih =>
    refine (k.holds hs).bind fun ok s₁ h => ?_
    cases ok with
    | true => exact ih h
    | false => exact (k.ends_tell h _).bind fun _ _ h => .pure h

theorem clean? {rule : Rule} : (clean? book req rule t).Ends s False fun _ s' => P s' := by
  refine SessionM.Ends.bind .of_get fun _ _ h => ?_
  obtain ⟨rfl, rfl⟩ := h
  cases s.traces.get? t with
  | none => exact .pure hs
  | some trace =>
    simp only
    split
    · exact (k.ends_tell hs _).bind fun _ _ h => .pure h
    · refine digestOf_course.bind fun found s₁ h => ?_
      obtain ⟨-, rfl⟩ := h
      split
      · exact (k.ends_tell hs _).bind fun _ _ h => .pure h
      · refine (k.allHold hs).bind fun ok s₂ hs₂ => ?_
        cases ok <;> exact .pure hs₂

theorem needFor : (needFor req t u).Ends s False fun _ s' => P s' := by
  refine (k.request u hs).bind fun r s₁ h => ?_
  cases r with
  | error cause => exact .pure h.1
  | ok digest =>
    exact SessionM.Ends.bind .of_modify fun _ s₂ hs₂ => .pure (hs₂ ▸ k.need h.1 (h.2 _ rfl))

theorem answer {α : Type} {x : Tracked α} :
    (answer book req t x before).Ends s False fun _ s' => P s' := by
  induction x generalizing s before with
  | done a => exact .pure hs
  | readText p next ih =>
    refine SessionM.Ends.bind .of_get fun _ _ h => ?_
    obtain ⟨rfl, rfl⟩ := h
    exact ih _ hs
  | isFile p next ih =>
    refine SessionM.Ends.bind .of_get fun _ _ h => ?_
    obtain ⟨rfl, rfl⟩ := h
    exact ih _ hs
  | need u next ih =>
    rw [Session.answer]
    refine (k.needFor hs).bind fun r s₁ h => ?_
    cases r <;> exact ih _ h
  | artifact u next ih =>
    rw [Session.answer]
    refine (k.needFor hs).bind fun r s₁ h => ?_
    cases r with
    | error cause => exact ih _ h
    | ok dependency =>
      refine SessionM.Ends.bind .of_get fun _ _ hget => ?_
      obtain ⟨rfl, rfl⟩ := hget
      exact ih _ h
  | count next ih => exact ih _ hs
  | tell event next ih => exact (k.ends_tell hs _).bind fun _ _ h => ih h

end Minds

/-- Whether something is kept by all that a session does while it brings a target up to date, if the
    requests below keep it. -/
structure Keeps (req : Require) (t : Path) (P : Session → Prop) : Prop where
  /-- Work keeps it. -/
  work : ∀ {s s'}, P s → Labors s s' → P s'
  /-- Requests keep it, and what they are granted is done. -/
  request : ∀ {s} u, P s → (req u).Ends s False fun r s' =>
    P s' ∧ ∀ digest, r = .ok digest → s'.progress.get? u = some (.done digest)
  /-- To record that the target needed one that is done keeps it. -/
  need : ∀ {s u digest}, P s → s.progress.get? u = some (.done digest) →
    P { s with graph := s.graph.addDependency t u }

namespace Keeps

theorem minds (k : Keeps req t P) : Minds req t P where
  tell _ hs := k.work hs ⟨⟨rfl, rfl, rfl⟩, rfl⟩
  request := k.request
  need := k.need

variable (k : Keeps req t P) (hs : P s)

include k hs

theorem make {rule : Rule} : (make book req rule t).Ends s False fun _ s' => P s' := by
  refine (k.minds.answer hs).bind fun a s₁ hs₁ => ?_
  obtain ⟨result, deps⟩ := a
  cases result with
  | error cause => exact .pure hs₁
  | ok content =>
    have hwrite : (writeArtifact t content).Ends s₁ False fun _ s' => P s' :=
      .of_eq_some rfl (k.work hs₁ ⟨⟨rfl, rfl, rfl⟩, rfl⟩)
    refine hwrite.bind fun r s₂ hs₂ => ?_
    cases r with
    | error fault => exact .pure hs₂
    | ok written =>
      refine SessionM.Ends.bind .of_modify fun _ s₃ h => ?_
      have hs₃ : P s₃ := h ▸ k.work hs₂ ⟨⟨rfl, rfl, rfl⟩, Stats.failed_countRebuilt⟩
      cases written with
      | true => exact .pure hs₃
      | false => exact (k.minds.ends_tell hs₃ _).bind fun _ _ h => .pure h

theorem bringUpToDate {rule : Rule} :
    (bringUpToDate book req rule t).Ends s False fun _ s' => P s' := by
  refine (k.minds.clean? hs).bind fun found s₁ hs₁ => ?_
  cases found with
  | some digest =>
    refine SessionM.Ends.bind .of_modify fun _ s₂ h => ?_
    exact (k.minds.ends_tell (h ▸ k.work hs₁ ⟨⟨rfl, rfl, rfl⟩, rfl⟩) _).bind fun _ _ h => .pure h
  | none => exact (k.minds.ends_tell hs₁ _).bind fun _ _ h => k.make h

end Keeps

section

variable (hstart : ∀ {s t}, P s → s.progress.get? t = none → P (start t s))
  (hfinish : ∀ {s t rest} r, P s → s.stack = t :: rest → s.progress.get? t = some .started →
    P (finish t r s))
  (hneed : ∀ {s t rest u digest}, P s → s.stack = t :: rest →
    s.progress.get? u = some (.done digest) → P { s with graph := s.graph.addDependency t u })
  (hwork : ∀ {s s'}, P s → Labors s s' → P s')

include hstart hfinish hneed hwork

/-- What is kept when a target is started, when the innermost one ends, and by all that is done in
    between, is kept by all that a session does when a target is required. -/
theorem keeps_of_require (n : Nat) (s : Session) (t : Path) (hs : P s) :
    (require book n t).Ends s False fun _ s' => P s' := by
  induction n generalizing s t with
  | zero => exact ⟨fun _ _ h => (by cases h), False.elim⟩
  | succ n ih =>
    refine SessionM.Ends.bind .of_get fun _ _ h => ?_
    obtain ⟨rfl, rfl⟩ := h
    cases hp : s.progress.get? t with
    | some p => cases p <;> exact .pure hs
    | none =>
      -- While the target is brought up to date, it stays the innermost one.
      have keeps : Keeps (require book n) t fun s₁ =>
          s₁.stack = t :: s.stack ∧ s₁.progress.get? t = some .started ∧ P s₁ := by
        constructor
        case work =>
          rintro s₁ s₂ ⟨hstack, hstarted, h⟩ hw
          exact ⟨hw.stack.trans hstack, hw.progress ▸ hstarted, hwork h hw⟩
        case request =>
          rintro s₁ u ⟨hstack, hstarted, h⟩
          refine ((ended_of_require n s₁ u).and (ih s₁ u h)).mono fun r s₂ hr => ?_
          obtain ⟨⟨honward, hr⟩, h'⟩ := hr
          refine ⟨⟨honward.stack.trans hstack, honward.progress hstarted, h'⟩, ?_⟩
          rintro digest rfl
          exact hr
        case need =>
          rintro s₁ u digest ⟨hstack, hstarted, h⟩ hdone
          exact ⟨hstack, hstarted, hneed h hstack hdone⟩
      refine SessionM.Ends.bind .of_modify fun _ s₁ h => ?_
      subst h
      have hbegin : (start t s).stack = t :: s.stack ∧
          (start t s).progress.get? t = some .started ∧ P (start t s) :=
        ⟨rfl, get?_start_of_same rfl, hstart hs hp⟩
      have hend : ∀ r s₂, (s₂.stack = t :: s.stack ∧ s₂.progress.get? t = some .started ∧ P s₂) →
          (do
            modify (finish t r)
            return r : SessionM (Except Failure String)).Ends s₂ False fun _ s' => P s' := by
        rintro r s₂ ⟨hstack, hstarted, h⟩
        exact SessionM.Ends.bind .of_modify fun _ s₃ hs => .pure (hs ▸ hfinish r h hstack hstarted)
      cases book.find t with
      | error cause => exact SessionM.Ends.bind (.pure hbegin) hend
      | ok rule => exact (keeps.bringUpToDate hbegin).bind hend

end

/-- All that a session does when a target is required is made of moves. -/
theorem moves_of_require (n : Nat) (s : Session) (t : Path) :
    (require book n t).Ends s False fun _ s' => ∃ ended, Moves s ended s' :=
  keeps_of_require (P := fun s₁ => ∃ ended, Moves s ended s₁)
    (fun ⟨_, h⟩ hnew => ⟨_, h.tail (.start hnew)⟩)
    (fun r ⟨_, h⟩ htop _ => ⟨_, h.tail (.finish htop r)⟩)
    (fun ⟨_, h⟩ htop hdone => ⟨_, h.tail (.need htop hdone)⟩)
    (fun ⟨_, h⟩ hw => ⟨_, h.tail (.work hw.toWorks)⟩) n s t ⟨_, .refl⟩

/-! ### What every move keeps -/

/-- What is known at any time, after these targets have ended. -/
structure Charted (ended : List Path) (s : Session) : Prop where
  /-- The edges are between tasks. -/
  sane : s.graph.Sane
  /-- The tasks are the targets that were required. -/
  required : ∀ {t}, s.graph.added.contains t = true ↔ s.progress.get? t ≠ none
  /-- They have ended, or they are being brought up to date. -/
  tasks : s.graph.tasks.Perm (ended ++ s.stack)
  /-- Those that are being brought up to date have not ended. -/
  started : ∀ t ∈ s.stack, s.progress.get? t = some .started
  /-- An edge leads to a task that has ended, is up to date, and ended before the one that needs it. -/
  needs : ∀ {t u}, s.graph.Edge t u → s.Done u ∧ u ∈ ended ∧ [u, t].Sublist (ended ++ s.stack)

namespace Charted

theorem session {disk : Disk} {traces : TraceTable} : Charted [] { disk, traces } where
  sane := TaskGraph.sane_empty
  required := by simp [FirstSeen.contains_iff]
  tasks := by simp [TaskGraph.tasks]
  started := by simp
  needs := by simp [TaskGraph.Edge, TaskGraph.tasks]

theorem mem_tasks (h : Charted ended s) (ht : t ∈ s.stack) : t ∈ s.graph.tasks :=
  h.tasks.mem_iff.2 (List.mem_append_right _ ht)

theorem start (h : Charted ended s) (fresh : s.progress.get? t = none) :
    Charted ended (Session.start t s) := by
  have hnew : s.graph.added.contains t = false := by
    by_contra hadded
    exact h.required.1 (Bool.not_eq_false _ ▸ hadded) fresh
  have hother : ∀ {u}, u ∈ s.stack → ¬ t.Same u := fun hu hs => by
    have hstarted := h.started _ hu
    simp [← PathTable.get?_congr hs, fresh] at hstarted
  constructor
  case sane => exact h.sane.addTask
  case required =>
    intro u
    change (s.graph.added.add t).contains u = true ↔ _
    rw [FirstSeen.contains_add, Bool.or_eq_true, decide_eq_true_iff, h.required]
    by_cases hs : t.Same u
    · simp [hs, get?_start_of_same hs]
    · simp [hs, get?_start_of_not_same hs]
  case tasks =>
    change (s.graph.addTask t).tasks.Perm (ended ++ t :: s.stack)
    rw [TaskGraph.tasks_addTask, if_neg (by simp [hnew])]
    exact (List.perm_append_singleton t _).trans ((h.tasks.cons t).trans List.perm_middle.symm)
  case started =>
    refine List.forall_mem_cons.2 ⟨get?_start_of_same rfl, fun u hu => ?_⟩
    rw [get?_start_of_not_same (hother hu)]
    exact h.started u hu
  case needs =>
    intro v u hedge
    obtain ⟨⟨digest, hdone⟩, hended, hbefore⟩ := h.needs (h.sane.edge_addTask.1 hedge)
    refine ⟨⟨digest, (done_start_iff fresh).2 hdone⟩, hended, hbefore.trans ?_⟩
    exact (List.sublist_cons_self t s.stack).append_left ended

theorem finish {rest : List Path} (h : Charted ended s) (top : s.stack = t :: rest)
    (r : Except Failure String) : Charted (ended ++ [t]) (Session.finish t r s) := by
  have htop : t ∈ s.stack := top ▸ List.mem_cons_self
  have hlist : ended ++ [t] ++ (Session.finish t r s).stack = ended ++ s.stack := by
    rw [stack_finish, top]
    simp
  have hnodup : (ended ++ s.stack).Nodup := h.tasks.nodup_iff.1 TaskGraph.nodup_tasks
  constructor
  case sane => rw [graph_finish]; exact h.sane
  case required =>
    intro u
    rw [graph_finish, h.required]
    by_cases hs : t.Same u
    · simp [get?_finish_of_same hs, ← PathTable.get?_congr hs, h.started t htop]
    · rw [get?_finish_of_not_same hs]
  case tasks => rw [hlist, graph_finish]; exact h.tasks
  case started =>
    intro u hu
    rw [stack_finish, top, List.tail_cons] at hu
    have hu' : u ∈ s.stack := top ▸ List.mem_cons_of_mem _ hu
    rw [get?_finish_of_not_same fun hs => ?_]
    · exact h.started u hu'
    · obtain rfl := TaskGraph.eq_of_same (h.mem_tasks htop) (h.mem_tasks hu') hs
      rw [top] at hnodup
      exact (List.nodup_cons.1 hnodup.of_append_right).1 hu
  case needs =>
    intro v u hedge
    rw [graph_finish] at hedge
    obtain ⟨⟨digest, hdone⟩, hended, hbefore⟩ := h.needs hedge
    refine ⟨⟨digest, ?_⟩, List.mem_append_left _ hended, hlist ▸ hbefore⟩
    rw [get?_finish_of_not_same fun hs => ?_]
    · exact hdone
    · simp [← PathTable.get?_congr hs, h.started t htop] at hdone

theorem need {rest : List Path} {digest : String} (h : Charted ended s) (top : s.stack = t :: rest)
    (hdone : s.progress.get? u = some (.done digest)) :
    Charted ended { s with graph := s.graph.addDependency t u } := by
  have htop : t ∈ s.stack := top ▸ List.mem_cons_self
  have hu : s.graph.added.contains u = true := h.required.2 (by simp [hdone])
  obtain ⟨u', hu', hs⟩ := FirstSeen.contains_iff.1 hu
  have ht : s.graph.added.contains t = true := h.required.2 (by rw [h.started t htop]; simp)
  have hadded := TaskGraph.added_addDependency ht hu
  have hdone' : s.progress.get? u' = some (.done digest) := (PathTable.get?_congr hs).trans hdone
  have hended : u' ∈ ended := by
    refine (List.mem_append.1 (h.tasks.mem_iff.1 hu')).resolve_right fun hmem => ?_
    simp [h.started u' hmem] at hdone'
  constructor
  case sane => exact h.sane.addDependency t u
  case required => intro v; simp only [hadded]; exact h.required
  case tasks => simp only [TaskGraph.tasks, hadded]; exact h.tasks
  case started => exact h.started
  case needs =>
    intro v w hedge
    rcases (h.sane.edge_addDependency (h.mem_tasks htop) hu' hs).1 hedge with hedge | ⟨rfl, rfl⟩
    · exact h.needs hedge
    · exact ⟨⟨digest, hdone'⟩, hended,
        List.Sublist.append (List.singleton_sublist.2 hended) (List.singleton_sublist.2 htop)⟩

theorem work (h : Charted ended s) (hw : Works s s') : Charted ended s' where
  sane := hw.graph ▸ h.sane
  required := by rw [hw.graph, hw.progress]; exact h.required
  tasks := by rw [hw.graph, hw.stack]; exact h.tasks
  started := by rw [hw.stack, hw.progress]; exact h.started
  needs := by
    intro t u hedge
    rw [hw.graph] at hedge
    rw [Done, hw.progress, hw.stack]
    exact h.needs hedge

theorem move {e : Option Path} (h : Charted ended s) (hm : Move s e s') :
    Charted (ended ++ e.toList) s' := by
  cases hm with
  | start fresh => simpa using h.start fresh
  | finish top r => exact h.finish top r
  | need top done => simpa using h.need top done
  | work same => simpa using h.work same

/-- Moves keep what is known, with the targets that they end added to those that have ended. -/
theorem moves (h : Charted ended s) (hm : Moves s ended' s') : Charted (ended ++ ended') s' := by
  induction hm with
  | refl => simpa using h
  | tail _ last ih =>
    rw [← List.append_assoc]
    exact ih.move last

/-- At any time the tasks can be listed, each after all that it needs. -/
theorem buildOrder (h : Charted ended s) : (∀ t, ¬ Relation.TransGen s.graph.Edge t t) ∧
    ∃ order, s.graph.buildOrder = .ok order ∧ order.Perm s.graph.tasks ∧ order.Nodup ∧
      ∀ t u, s.graph.Edge t u → [u, t].Sublist order := by
  have hnodup : (ended ++ s.stack).Nodup := h.tasks.nodup_iff.1 TaskGraph.nodup_tasks
  have hbefore : ∀ {t u}, s.graph.Edge t u → [u, t].Sublist (ended ++ s.stack) :=
    fun hedge => (h.needs hedge).2.2
  obtain ⟨order, horder⟩ := TaskGraph.exists_buildOrder h.sane hnodup hbefore
  obtain ⟨hperm, hneeds⟩ := TaskGraph.order_of_buildOrder_eq_ok h.sane horder
  exact ⟨fun t => TaskGraph.not_transGen_of_order hnodup hbefore, order, horder, hperm,
    hperm.nodup_iff.2 TaskGraph.nodup_tasks, fun t u => hneeds⟩

end Charted

/-! ### Requests one after another -/

/-- The sessions that requests for these targets lead to, which are made one after another. -/
inductive Requests (book : Rulebook) (s : Session) : List Path → Session → Prop
  | start : Requests book s [] s
  | require {targets : List Path} {s₁ s₂ : Session} {n : Nat} {t : Path} {r : Except Failure String}
      (before : Requests book s targets s₁) (run : Session.require book n t s₁ = some (r, s₂)) :
      Requests book s (targets ++ [t]) s₂
  | work {targets : List Path} {s₁ s₂ : Session} (before : Requests book s targets s₁)
      (same : Works s₁ s₂) : Requests book s targets s₂

/-- Requests are made of moves, and leave nothing begun. -/
theorem Requests.moves {targets : List Path} (h : Requests book s targets s') :
    (∃ ended, Moves s ended s') ∧ s'.stack = s.stack ∧
      ∀ t ∈ targets, s'.progress.get? t ≠ none := by
  induction h with
  | start => exact ⟨⟨_, .refl⟩, rfl, by simp⟩
  | work _ same ih =>
    obtain ⟨⟨ended, hmoves⟩, hstack, hrequired⟩ := ih
    exact ⟨⟨_, hmoves.tail (.work same)⟩, same.stack.trans hstack, same.progress ▸ hrequired⟩
  | @require targets s₁ s₂ n t r _ run ih =>
    obtain ⟨⟨ended, hmoves⟩, hstack, hrequired⟩ := ih
    obtain ⟨ended', hmoves'⟩ := (moves_of_require n s₁ t).1 _ _ run
    obtain ⟨honward, hend⟩ := (ended_of_require n s₁ t).1 _ _ run
    refine ⟨⟨_, hmoves.trans hmoves'⟩, honward.stack.trans hstack, fun u hu => ?_⟩
    rcases List.mem_append.1 hu with hu | hu
    · exact honward.ne_none (hrequired u hu)
    · obtain rfl := List.mem_singleton.1 hu
      cases r with
      | ok digest => simp [show s₂.progress.get? u = _ from hend]
      | error cause =>
        rcases hend with ⟨rfl, hstarted, -⟩ | ⟨hfailed, -⟩
        · simp [hstarted]
        · simp [hfailed]

/-- Several targets are required one after another. -/
theorem requests_of_requireAll {n : Nat} {targets before : List Path} (h : Requests book s before s₁) :
    (requireAll book n targets).Ends s₁ False fun _ s' => Requests book s (before ++ targets) s' := by
  induction targets generalizing before s₁ with
  | nil => exact .pure (by simpa using h)
  | cons t targets ih =>
    rw [List.append_cons]
    refine SessionM.Ends.bind .of_modify fun _ s₂ hs₂ => ?_
    have hrun : (require book n t).Ends s₂ False fun r s₃ => require book n t s₂ = some (r, s₃) :=
      ⟨fun _ _ h => h, False.elim⟩
    refine hrun.bind fun r s₃ run => ?_
    have hnext : Requests book s (before ++ [t]) s₃ :=
      (h.work (hs₂ ▸ ⟨rfl, rfl, rfl⟩ : Works s₁ s₂)).require run
    cases r with
    | ok digest => exact ih hnext
    | error cause =>
      refine SessionM.Ends.bind .of_modify fun _ s₄ hs₄ => ?_
      have htold : Requests book s (before ++ [t]) s₄ := hnext.work (hs₄ ▸ ⟨rfl, rfl, rfl⟩)
      exact (ih htold).bind fun _ _ h => .pure h

/-- Whatever targets are required, whatever the rules do and whatever the traces say: the tasks are the
    targets that were required, an edge leads from a target to one that was brought up to date before
    that one ended, no target needs itself at any remove, and the build order lists each of them once,
    after all that it needs. -/
theorem buildOrder_of_requests {disk : Disk} {traces : TraceTable} {targets : List Path}
    (h : Requests book { disk, traces } targets s) :
    (∀ t, s.graph.added.contains t = true ↔ s.progress.get? t ≠ none) ∧
      (∀ t ∈ targets, s.graph.added.contains t = true) ∧
      (∃ ended, Moves { disk, traces } ended s ∧ ended.Perm s.graph.tasks ∧
        ∀ t u, s.graph.Edge t u → s.Done u ∧ [u, t].Sublist ended) ∧
      (∀ t, ¬ Relation.TransGen s.graph.Edge t t) ∧
      ∃ order, s.graph.buildOrder = .ok order ∧ order.Perm s.graph.tasks ∧ order.Nodup ∧
        ∀ t u, s.graph.Edge t u → [u, t].Sublist order := by
  obtain ⟨⟨ended, hmoves⟩, hstack, hrequired⟩ := h.moves
  have hcharted : Charted ended s := Charted.session.moves hmoves
  have htasks := hcharted.tasks
  have hneeds : ∀ t u, s.graph.Edge t u → s.Done u ∧ [u, t].Sublist (ended ++ s.stack) :=
    fun t u hedge => ⟨(hcharted.needs hedge).1, (hcharted.needs hedge).2.2⟩
  rw [hstack, List.append_nil] at htasks hneeds
  exact ⟨fun t => hcharted.required, fun t ht => hcharted.required.2 (hrequired t ht),
    ⟨ended, hmoves, htasks.symm, hneeds⟩, hcharted.buildOrder⟩

/-- Two targets that ask for one another, both of them required. -/
theorem buildOrder_of_requests_lenientPair :
    let t : Path := .ofText "/out/t"
    let u : Path := .ofText "/out/u"
    ∃ s, Requests TraceTable.lenientPair { disk := { top := .empty }, traces := ∅ } [t, u] s ∧
      s.Done t ∧ s.Done u ∧ s.graph.edges = [(t, u)] ∧
      (∃ ended, Moves { disk := { top := .empty }, traces := ∅ } ended s ∧ [u, t].Sublist ended) ∧
      (∀ v, ¬ Relation.TransGen s.graph.Edge v v) ∧
      ∃ order, s.graph.buildOrder = .ok order ∧ order.Perm [t, u] ∧ [u, t].Sublist order := by
  intro t u
  have hrun : ((Session.require TraceTable.lenientPair 3 t { disk := { top := .empty }, traces := ∅ }).bind
      fun r => (Session.require TraceTable.lenientPair 3 u r.2).map fun r' =>
        (r'.2.progress.get? t, r'.2.progress.get? u, r'.2.graph.edges, r'.2.graph.tasks)) =
      some (some (.done "made"), some (.done "made"), [(t, u)], [t, u]) := by
    decide +kernel
  obtain ⟨⟨r, s₁⟩, run, hrun⟩ := Option.bind_eq_some_iff.1 hrun
  obtain ⟨⟨r', s⟩, run', hrun⟩ := Option.map_eq_some_iff.1 hrun
  obtain ⟨ht, hu, hedges, htasks⟩ : _ ∧ _ ∧ _ ∧ s.graph.tasks = _ := by
    simpa only [Prod.mk.injEq] using hrun
  have hrequests := (Requests.start.require run).require run'
  obtain ⟨-, -, ⟨ended, hmoves, -, hneeds⟩, hacyclic, order, horder, hperm, -, hlisted⟩ :=
    buildOrder_of_requests hrequests
  have hedge : s.graph.Edge t u := TaskGraph.mem_edges_iff.1 (hedges ▸ List.mem_singleton.2 rfl)
  exact ⟨s, hrequests, ⟨_, ht⟩, ⟨_, hu⟩, hedges, ⟨ended, hmoves, (hneeds t u hedge).2⟩, hacyclic, order,
    horder, htasks ▸ hperm, hlisted t u hedge⟩

end Session

end ImportIndex
