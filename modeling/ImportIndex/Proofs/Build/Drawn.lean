import ImportIndex.Proofs.Build.Additions
import ImportIndex.Proofs.Build.History
import ImportIndex.Proofs.Build.Moves

/-!
# The graph of a session shows what the traces say

While a target is brought up to date, an edge is drawn to each target that it is granted, first for the check
of its old trace and then for its rule. If the rules are strict, the edges from a target that is done lead to
what its trace tells of and to nothing else (`Session.Drawn`, `Scope.requireAll_draws`).

That is clear where the old trace holds, and where there is none. If the check stops at some question, the
edges up to this one are there already. But what was asked before was answered as it was then, and a strict
rule that succeeds has but one way to go where every question has one answer (`Tracked.Steps.follow`). So the
rule asks for all of that again, and for what the check stopped at (`Tracked.Steps.asks_again`,
`Scope.Foreseen`).
-/

namespace ImportIndex

/-- Whether a world has one answer to each question: it refuses nothing, and a target has one content. -/
structure World.Definite (w : World) : Prop where
  /-- A target has one content. -/
  makes : ∀ {t c d}, w.makes t c → w.makes t d → c = d
  /-- Nothing is refused. -/
  refuses : ∀ {t cause}, ¬ w.refuses t cause

/-! ### Going the same way -/

namespace Tracked

variable {α : Type} {book : Rulebook} {w v : World} {n m : Nat} {x y z : Tracked (Except Failure α)}
  {ds es fs : List Dependency} {a b : α} {q : Question}

/-- On the way to success, a strict computation can take but one step where each question has one
    answer. -/
theorem Step.unique (hw : w.Definite) (hx : x.Strict) (h : Step book w n x ds y)
    (hy : Steps book w m y fs (.done (.ok a))) (h' : Step book w n x es z) : ds = es ∧ y = z := by
  cases h with
  | @readText path next found hfound =>
    cases h' with
    | @readText _ _ found' hfound' =>
      cases found with
      | error fault => exact absurd hy (hx.2 fault).not_steps_ok
      | ok c =>
        obtain rfl : found' = .ok c := Disk.toOption_eq_some_iff.1 (hfound'.trans hfound.symm)
        exact ⟨rfl, rfl⟩
  | isFile =>
    cases h'
    exact ⟨rfl, rfl⟩
  | need h =>
    cases h' with
    | need h' =>
      obtain rfl := hw.makes h h'
      exact ⟨rfl, rfl⟩
    | needRefused h' => exact absurd h' hw.refuses
  | needRefused h => exact absurd h hw.refuses
  | artifact h =>
    cases h' with
    | artifact h' =>
      obtain rfl := hw.makes h h'
      exact ⟨rfl, rfl⟩
    | artifactRefused h' => exact absurd h' hw.refuses
  | artifactRefused h => exact absurd h hw.refuses
  | count =>
    cases h'
    exact ⟨rfl, rfl⟩
  | tell =>
    cases h'
    exact ⟨rfl, rfl⟩

/-- Where each question has one answer, all steps of a strict computation that succeeds are on its way. -/
theorem Steps.follow (hw : w.Definite) (hx : x.Strict) (h : Steps book w n x ds (.done (.ok a)))
    (h' : Steps book w n x es y) :
    ∃ fs, ds = es ++ fs ∧ Steps book w (n + es.length) y fs (.done (.ok a)) := by
  induction h' generalizing ds with
  | refl => exact ⟨ds, rfl, h⟩
  | @head n x y z es es' first _ ih =>
    cases h with
    | refl => cases first
    | head first' rest =>
      obtain ⟨rfl, rfl⟩ := first'.unique hw hx rest first
      obtain ⟨fs, rfl, hrest⟩ := ih (hx.step first) rest
      refine ⟨fs, (List.append_assoc ..).symm, ?_⟩
      rwa [List.length_append, ← Nat.add_assoc]

/-- What a strict computation asks for on the way to success leaves a dependency. -/
theorem Steps.exists_of_question (hx : x.Strict) (h : Steps book w n x ds (.done (.ok a)))
    (hq : x.question? = some q) : ∃ d ∈ ds, d.question = q := by
  cases h with
  | refl => cases hq
  | head first rest =>
    -- Only a request that fails leaves none, and then the rest fails.
    cases first with
    | @readText path next found =>
      cases found with
      | error fault => exact absurd rest (hx.2 fault).not_steps_ok
      | ok c => exact ⟨_, List.mem_append_left _ List.mem_cons_self, Option.some.inj hq⟩
    | isFile => exact ⟨_, List.mem_append_left _ List.mem_cons_self, Option.some.inj hq⟩
    | need => exact ⟨_, List.mem_append_left _ List.mem_cons_self, Option.some.inj hq⟩
    | needRefused => exact absurd rest (hx.2 _).not_steps_ok
    | artifact => exact ⟨_, List.mem_append_left _ List.mem_cons_self, Option.some.inj hq⟩
    | artifactRefused => exact absurd rest (hx.2 _).not_steps_ok
    | count => cases hq
    | tell => cases hq

/-- A strict computation that once succeeded, and succeeds in a world where each question has one answer,
    asks there for all that it left then as far as this world agrees, and for what comes next. -/
theorem Steps.asks_again (hinj : Function.Injective book.digest) (hv : v.Definite) (hx : x.Strict)
    {pre post : List Dependency} {d : Dependency}
    (once : Steps book w n x (pre ++ d :: post) (.done (.ok a))) (hpre : ∀ e ∈ pre, v.Agrees book e)
    (now : Steps book v n x ds (.done (.ok b))) :
    ∀ e ∈ pre ++ [d], ∃ f ∈ ds, f.question = e.question := by
  obtain ⟨y, hy, hq⟩ :=
    (hx.refused_nothing once).asks hinj hx.heedsFaults (fun _ _ h => False.elim h) rfl hpre
  obtain ⟨fs, rfl, hrest⟩ := now.follow hv hx hy
  obtain ⟨f, hf, hfq⟩ := hrest.exists_of_question (hx.steps hy) hq
  intro e he
  rcases List.mem_append.1 he with he | he
  · exact ⟨e, List.mem_append_left _ he, rfl⟩
  · obtain rfl := List.mem_singleton.1 he
    exact ⟨f, List.mem_append_right _ hf, hfq⟩

end Tracked

/-- Whether some dependencies tell of a target. -/
def Dependency.Mention (deps : List Dependency) (u : Path) : Prop :=
  ∃ v digest, .artifact v digest ∈ deps ∧ v.Same u

open Dependency (Mention)

theorem Dependency.mention_append {ds es : List Dependency} {u : Path} :
    Mention (ds ++ es) u ↔ Mention ds u ∨ Mention es u := by
  simp only [Mention, List.mem_append, or_and_right, exists_or]

theorem Dependency.mention_artifact {u v : Path} {digest : String} :
    Mention [.artifact v digest] u ↔ v.Same u := by
  simp [Mention]

theorem TraceTable.needs_iff_of_get? {traces : TraceTable} {t u : Path} {trace : Trace}
    (h : traces.get? t = some trace) : traces.Needs t u ↔ Mention trace.deps u := by
  constructor
  · rintro ⟨trace', v, digest, hget, hd, hs⟩
    obtain rfl := Option.some.inj (hget.symm.trans h)
    exact ⟨v, digest, hd, hs⟩
  · rintro ⟨v, digest, hd, hs⟩
    exact ⟨trace, v, digest, h, hd, hs⟩

theorem TaskGraph.mem_tasks_addDependency {g : TaskGraph} {t u v : Path}
    (h : v ∈ (g.addDependency t u).tasks) : v ∈ g.tasks ∨ v = t ∨ v = u := by
  have hadd : ∀ {g : TaskGraph} {t : Path}, v ∈ (g.addTask t).tasks → v ∈ g.tasks ∨ v = t := by
    intro g t h
    exact (FirstSeen.mem_toList_add.1 h).imp_right And.left
  obtain ⟨a, b, -, -, -, -, he⟩ := addDependency_eq (g := g) t u
  rw [he] at h
  rcases hadd h with h | h
  · exact (hadd h).imp_right .inl
  · exact .inr (.inr h)

/-! ### Drawing the graph -/

namespace Session

variable {book : Rulebook} {allowed : Path → Prop} {s s₀ s₁ s' : Session} {t u : Path}
  {asked : List Dependency} {r : Except Failure String}

/-- Whether the graph says of every target that is done what its trace says, and says nothing of those that
    were not required. -/
structure Drawn (allowed : Path → Prop) (s : Session) : Prop where
  /-- The edges are between tasks. -/
  sane : s.graph.Sane
  /-- The tasks are targets that may be required. -/
  tasks : ∀ {u}, u ∈ s.graph.tasks → allowed u
  /-- No edge leads from a target that was not required. -/
  fresh : ∀ {v u}, s.progress.get? v = none → ¬ s.graph.Joins v u
  /-- The edges from a target that is done lead to what its trace says that it needed. -/
  done : ∀ {v u}, s.Done v → (s.graph.Joins v u ↔ s.traces.Needs v u)

/-- Whether a session has gone on to draw, with the edges from what was required before as they were. -/
structure Draws (allowed : Path → Prop) (s s' : Session) : Prop where
  /-- The graph says what the traces say. -/
  drawn : Drawn allowed s'
  /-- The progress of targets stays. -/
  progress : ∀ {v p}, s.progress.get? v = some p → s'.progress.get? v = some p
  /-- The edges from targets that were required stay. -/
  joins : ∀ {v u}, s.progress.get? v ≠ none → (s'.graph.Joins v u ↔ s.graph.Joins v u)

/-- Whether the edges from a target that was started after `s₀` lead to what the dependencies in `asked` tell
    of, and the rest has gone on to be drawn. -/
structure Drawing (allowed : Path → Prop) (s₀ : Session) (t : Path) (asked : List Dependency)
    (s : Session) : Prop where
  /-- The graph says what the traces say. -/
  drawn : Drawn allowed s
  /-- The target is being brought up to date. -/
  started : s.progress.get? t = some .started
  /-- The progress of targets stays. -/
  progress : ∀ {v p}, s₀.progress.get? v = some p → s.progress.get? v = some p
  /-- The edges from targets that were required before stay. -/
  others : ∀ {v u}, s₀.progress.get? v ≠ none → (s.graph.Joins v u ↔ s₀.graph.Joins v u)
  /-- The edges from the target. -/
  joins : ∀ {u}, s.graph.Joins t u ↔ Mention asked u

theorem Draws.refl (h : Drawn allowed s) : Draws allowed s s := ⟨h, id, fun _ => .rfl⟩

theorem Drawn.session {disk : Disk} {traces : TraceTable} : Drawn allowed { disk, traces } where
  sane := TaskGraph.sane_empty
  tasks := by simp [TaskGraph.tasks]
  fresh _ := by simp [TaskGraph.Joins, TaskGraph.Edge, TaskGraph.tasks]
  done := by simp [Done]

/-- Work that does not concern the graph, nor the traces of what is done, changes nothing. -/
theorem Drawn.work (h : Drawn allowed s) (hw : Works s s')
    (htraces : ∀ {v}, s.Done v → s'.traces.get? v = s.traces.get? v) : Drawn allowed s' where
  sane := hw.graph ▸ h.sane
  tasks := hw.graph ▸ h.tasks
  fresh {v u} := by
    rw [hw.graph, hw.progress]
    exact h.fresh
  done {v u} hv := by
    rw [Done, hw.progress] at hv
    rw [hw.graph, h.done hv]
    exact ⟨fun hn => hn.congr (htraces hv), fun hn => hn.congr (htraces hv).symm⟩

/-- When a target is started, no edge leads from it. -/
theorem Drawn.start (h : Drawn allowed s) (ht : allowed t) (hnew : s.progress.get? t = none) :
    Drawing allowed s t [] (start t s) where
  drawn := by
    constructor
    case sane => exact h.sane.addTask
    case tasks =>
      intro u hu
      rcases (FirstSeen.mem_toList_add.1 hu).imp_right And.left with hu | rfl
      · exact h.tasks hu
      · exact ht
    case fresh =>
      intro v u hv
      rw [Session.start, h.sane.joins_addTask]
      exact h.fresh (get?_eq_none_of_start hv)
    case done =>
      rintro v u ⟨digest, hv⟩
      rw [Session.start, h.sane.joins_addTask]
      exact h.done ⟨digest, done_of_start hv⟩
  started := get?_start_of_same rfl
  progress {v p} hv := by
    rwa [get?_start_of_not_same fun hs => ?_]
    simp [← PathTable.get?_congr hs, hnew] at hv
  others _ := h.sane.joins_addTask
  joins {u} := by
    rw [Session.start, h.sane.joins_addTask]
    refine ⟨fun hu => absurd hu (h.fresh hnew), ?_⟩
    rintro ⟨_, _, hd, -⟩
    cases hd

namespace Drawing

variable (h : Drawing allowed s₀ t asked s)

include h

/-- What is done is not the target. -/
theorem not_same {v : Path} (hv : s.Done v) : ¬ t.Same v := by
  obtain ⟨digest, hv⟩ := hv
  intro hs
  simp [← PathTable.get?_congr hs, h.started] at hv

/-- A request goes on to draw the rest. -/
theorem request (h' : Draws allowed s s') : Drawing allowed s₀ t asked s' where
  drawn := h'.drawn
  started := h'.progress h.started
  progress hv := h'.progress (h.progress hv)
  others {v u} hv := by
    obtain ⟨p, hp⟩ := Option.ne_none_iff_exists'.1 hv
    exact (h'.joins (by simp [h.progress hp])).trans (h.others hv)
  joins := (h'.joins (by simp [h.started])).trans h.joins

/-- Work that does not concern the graph, nor the traces of what is done, changes nothing. -/
theorem work (hw : Works s s') (htraces : ∀ {v}, s.Done v → s'.traces.get? v = s.traces.get? v) :
    Drawing allowed s₀ t asked s' where
  drawn := h.drawn.work hw htraces
  started := hw.progress ▸ h.started
  progress := hw.progress ▸ h.progress
  others := hw.graph ▸ h.others
  joins := hw.graph ▸ h.joins

/-- An edge from the target is one more that was asked for. -/
theorem need (hnew : s₀.progress.get? t = none) (ht : allowed t) (hu : allowed u) (digest : String) :
    Drawing allowed s₀ t (asked ++ [.artifact u digest])
      { s with graph := s.graph.addDependency t u } := by
  have hjoins : ∀ {v w}, (s.graph.addDependency t u).Joins v w ↔
      s.graph.Joins v w ∨ t.Same v ∧ u.Same w := h.drawn.sane.joins_addDependency
  have hother : ∀ {v w}, ¬ t.Same v →
      ((s.graph.addDependency t u).Joins v w ↔ s.graph.Joins v w) := fun hv => by
    rw [hjoins, or_iff_left fun hs => hv hs.1]
  constructor
  case drawn =>
    constructor
    case sane => exact h.drawn.sane.addDependency t u
    case tasks =>
      intro v hv
      rcases TaskGraph.mem_tasks_addDependency hv with hv | rfl | rfl
      · exact h.drawn.tasks hv
      · exact ht
      · exact hu
    case fresh =>
      intro v w hv
      rw [hother fun hs => by simp [← PathTable.get?_congr hs, h.started] at hv]
      exact h.drawn.fresh hv
    case done =>
      intro v w hv
      rw [hother (h.not_same hv)]
      exact h.drawn.done hv
  case started => exact h.started
  case progress => exact h.progress
  case others =>
    intro v w hv
    rw [hother fun hs => hv ((PathTable.get?_congr hs).symm.trans hnew)]
    exact h.others hv
  case joins =>
    intro w
    rw [hjoins, h.joins, Dependency.mention_append, Dependency.mention_artifact,
      and_iff_right (show t.Same t from rfl)]

/-- When the target ends, the graph is drawn, if the edges from the target lead to what its trace says. -/
theorem finish (hnew : s₀.progress.get? t = none)
    (hok : ∀ digest, r = .ok digest → ∀ u, Mention asked u ↔ s.traces.Needs t u) :
    Draws allowed s₀ (finish t r s) := by
  have hother : ∀ {v}, ¬ t.Same v → (Session.finish t r s).progress.get? v = s.progress.get? v :=
    get?_finish_of_not_same
  constructor
  case drawn =>
    constructor
    case sane =>
      rw [graph_finish]
      exact h.drawn.sane
    case tasks =>
      rw [graph_finish]
      exact h.drawn.tasks
    case fresh =>
      intro v u hv
      rw [graph_finish]
      by_cases hs : t.Same v
      · simp [get?_finish_of_same hs] at hv
      · exact h.drawn.fresh ((hother hs).symm.trans hv)
    case done =>
      rintro v u ⟨digest, hv⟩
      rw [graph_finish, traces_finish]
      by_cases hs : t.Same v
      · rw [get?_finish_of_same hs] at hv
        cases r with
        | error cause => cases hv
        | ok digest' =>
          rw [← TaskGraph.joins_congr hs, h.joins, hok digest' rfl]
          exact ⟨fun hn => hn.congr (PathTable.get?_congr hs).symm, fun hn => hn.congr (PathTable.get?_congr hs)⟩
      · exact h.drawn.done ⟨digest, (hother hs).symm.trans hv⟩
  case progress =>
    intro v p hv
    rw [hother fun hs => by simp [← PathTable.get?_congr hs, hnew] at hv]
    exact h.progress hv
  case joins =>
    intro v u hv
    rw [graph_finish]
    exact h.others hv

/-- A question about a file draws nothing. -/
theorem file {d : Dependency} (hd : ∀ u digest, d ≠ .artifact u digest) :
    Drawing allowed s₀ t (asked ++ [d]) s := by
  refine ⟨h.drawn, h.started, h.progress, h.others, fun {u} => ?_⟩
  rw [h.joins, Dependency.mention_append, or_iff_left]
  rintro ⟨v, digest, hmem, -⟩
  exact hd v digest (List.mem_singleton.1 hmem).symm

end Drawing

end Session

/-! ### Sessions draw the graph -/

namespace Scope

open Session

variable {scope : Scope} {s s₀ s' : Session} {t u : Path} {req : Session.Require} {can : Path → Prop}
  {asked : List Dependency}

/-- The world in which targets have the contents that they are done with in a session. -/
def answered (scope : Scope) (s : Session) : World where
  content := scope.world.content
  makes u c := scope.allowed u ∧ s.progress.get? u = some (.done (scope.book.digest c))
  refuses _ _ := False

theorem Lawful.definite_answered (hl : scope.Lawful) : (scope.answered s).Definite where
  makes h h' := hl.injective (Progress.done.inj (Option.some.inj (h.2.symm.trans h'.2)))
  refuses h := h

theorem Answered.agrees_answered {d : Dependency} (h : scope.Answered s d) (hi : scope.Inv s) :
    (scope.answered s).Agrees scope.book d := by
  cases d with
  | artifact u digest =>
    obtain ⟨c, -, rfl⟩ := hi.done h.1 h.2
    exact ⟨c, h, rfl⟩
  | content => exact h
  | presence => exact h

/-- Whether the rule of a target will ask for all that some dependencies tell of, should it succeed. -/
def Foreseen (scope : Scope) (s : Session) (t : Path) (asked : List Dependency) : Prop :=
  ∀ rule s' deps c, scope.book.find t = .ok rule → Later [] s s' → scope.Inv s' →
    (∀ d ∈ deps, scope.Answered s' d) →
    Tracked.Steps scope.book scope.world 0 (rule.recipe t).run deps (.done (.ok c)) →
    ∀ u, Mention asked u → Mention deps u

theorem foreseen_nil : scope.Foreseen s t [] := by
  rintro _ _ _ _ _ _ _ _ _ u ⟨v, digest, hd, -⟩
  cases hd

theorem Foreseen.later (h : scope.Foreseen s t asked) {kept : List Path} (hs : Later kept s s') :
    scope.Foreseen s' t asked :=
  fun rule s'' deps c hfind hlater => h rule s'' deps c hfind ((hs.mono (by simp)).trans hlater)

theorem Foreseen.mono {asked' : List Dependency} (h : scope.Foreseen s t asked)
    (hm : ∀ d ∈ asked', d ∈ asked) : scope.Foreseen s t asked' := by
  rintro rule s' deps c hfind hlater hi hdeps hsteps u ⟨v, digest, hd, hs⟩
  exact h rule s' deps c hfind hlater hi hdeps hsteps u ⟨v, digest, hm _ hd, hs⟩

/-- Whether targets are required so that the graph is drawn. -/
def Charts (scope : Scope) (req : Session.Require) : Prop :=
  ∀ s t, scope.Inv s → Drawn scope.allowed s → scope.allowed t →
    (∀ u ∈ s.stack.head?, scope.Needs u t) →
      (req t).Ends s False fun _ s' => Draws scope.allowed s s'

section

variable (hl : scope.Lawful)
  (hstrict : ∀ {t rule}, scope.allowed t → scope.book.find t = .ok rule → (rule.recipe t).run.Strict)
  (ht : scope.allowed t)

include hl hstrict ht

/-- A rule that ran before asks again for what it asked for as long as it is answered in the same way, and
    for what comes next. -/
theorem foreseen_of_answered {trace : Trace} {c : Content} {pre rest : List Dependency} {d : Dependency}
    (hg : trace.Genuine scope.book scope.refuses t c) (hdeps : trace.deps = pre ++ d :: rest)
    (hpre : ∀ e ∈ pre, scope.Answered s e) : scope.Foreseen s t (pre ++ [d]) := by
  rintro rule s' deps c' hfind hlater hi' hanswered hnow u ⟨v, digest, hmem, hs⟩
  obtain ⟨w, rule', hfind', -, -, honce⟩ := hg.steps
  obtain rfl := Except.ok.inj (hfind.symm.trans hfind')
  have hx := hstrict ht hfind
  rw [hdeps] at honce
  have hreplay := (hx.refused_nothing hnow).replay (v := scope.answered s') hl.injective
    hx.heedsFaults (fun _ _ h => False.elim h) fun d hd => (hanswered d hd).agrees_answered hi'
  obtain ⟨f, hf, hq⟩ := honce.asks_again hl.injective hl.definite_answered hx
    (fun e he => ((hpre e he).later hlater).agrees_answered hi') hreplay _ hmem
  cases f with
  | artifact v' digest' =>
    obtain rfl := Question.artifact.inj hq
    exact ⟨v', digest', hf, hs⟩
  | content => cases hq
  | presence => cases hq

end

section

variable (hl : scope.Lawful)
  (hstrict : ∀ {t rule}, scope.allowed t → scope.book.find t = .ok rule → (rule.recipe t).run.Strict)
  (hi : scope.Inv s) (hreq : scope.Serves req can) (hcharts : scope.Charts req)
  (ht : scope.allowed t) (htop : s.stack.head? = some t) (hnew : s₀.progress.get? t = none)
  (h : Drawing scope.allowed s₀ t asked s)

include hl hi hcharts ht htop h in
/-- A request goes on to draw the rest. -/
theorem request_draws (hasks : scope.Asks t (.artifact u)) :
    (req u).Ends s False fun _ s' => Drawing scope.allowed s₀ t asked s' :=
  have hneeds : ∀ v ∈ s.stack.head?, scope.Needs v u := by simpa [htop] using ⟨ht, hasks⟩
  (hcharts s u hi h.drawn (hl.closed ht hasks) hneeds).mono fun _ _ h' => h.request h'

include hl hi hcharts ht htop hnew h in
/-- A question that is asked again is drawn, unless a target is refused. -/
theorem holds_draws {d : Dependency} (hd : scope.Asks t d.question) :
    (holds scope.book req t d).Ends s False fun ok s' =>
      Drawing scope.allowed s₀ t (asked ++ [d]) s' ∨
        ok = false ∧ Drawing scope.allowed s₀ t asked s' := by
  cases d with
  | content p digest =>
    refine digestOf_ends.bind fun found s' hs => .pure (.inl ?_)
    exact hs.2 ▸ h.file (d := .content p digest) (by simp)
  | presence p found =>
    refine SessionM.Ends.bind .of_get fun s' s'' hs => .pure (.inl ?_)
    exact hs.2 ▸ h.file (d := .presence p found) (by simp)
  | artifact u digest =>
    have hu := hl.closed ht hd
    refine (request_draws hl hi hcharts ht htop h hd).bind fun r s' h' => ?_
    cases r with
    | ok current =>
      refine SessionM.Ends.bind .of_modify fun _ s'' hs => .pure (.inl ?_)
      exact hs ▸ h'.need hnew ht hu digest
    | error cause =>
      refine SessionM.Ends.bind .of_modify fun _ s'' hs => .pure (.inr ⟨rfl, ?_⟩)
      exact hs ▸ h'.work ⟨rfl, rfl, rfl⟩ fun _ => rfl

include hl hstrict hi hreq hcharts ht htop hnew in
/-- If all questions in a trace are answered as before, they are drawn. If not, the rule will ask again for
    all that is drawn. -/
theorem allHold_draws {trace : Trace} {c : Content} {pre rest : List Dependency}
    (hg : trace.Genuine scope.book scope.refuses t c) (hdeps : trace.deps = pre ++ rest)
    (hpre : ∀ d ∈ pre, scope.Answered s d) (h : Drawing scope.allowed s₀ t pre s) :
    (allHold scope.book req t rest).Ends s False fun ok s' => match ok with
      | true => Drawing scope.allowed s₀ t trace.deps s'
      | false => ∃ asked, Drawing scope.allowed s₀ t asked s' ∧ scope.Foreseen s' t asked := by
  induction rest generalizing s pre with
  | nil =>
    rw [List.append_nil] at hdeps
    exact .pure (hdeps ▸ h)
  | cons d rest ih =>
    have hasks : scope.Asks t d.question := asks_of_answered hl hi ht hg hdeps hpre
    refine ((holds_ends hl hi hreq ht htop False.elim hasks).and
      (holds_draws hl hi hcharts ht htop hnew h hasks)).bind fun ok s₁ h₁ => ?_
    obtain ⟨⟨hi₁, hlater, hok⟩, hdrawing⟩ := h₁
    have hpre₁ : ∀ e ∈ pre, scope.Answered s₁ e := fun e he => (hpre e he).later hlater
    cases ok with
    | true =>
      refine ih hi₁ (hlater.stack ▸ htop) (by simpa using hdeps) ?_
        (hdrawing.resolve_right fun h => by cases h.1)
      exact List.forall_mem_append.2 ⟨hpre₁, List.forall_mem_singleton.2 (hok rfl)⟩
    | false =>
      refine SessionM.Ends.bind .of_modify fun _ s₂ hs => .pure ?_
      subst hs
      have hall := foreseen_of_answered hl hstrict ht hg hdeps hpre₁
      have ha : Later [] s₁ { s₁ with told := .otherAnswer t d.path :: s₁.told } :=
        Alike.later ⟨rfl, rfl, rfl, rfl⟩
      have hwork : ∀ {asked}, Drawing scope.allowed s₀ t asked s₁ → Drawing scope.allowed s₀ t asked
          { s₁ with told := .otherAnswer t d.path :: s₁.told } := fun h =>
        h.work ⟨rfl, rfl, rfl⟩ fun _ => rfl
      rcases hdrawing with h | ⟨-, h⟩
      · exact ⟨_, hwork h, hall.later ha⟩
      · exact ⟨_, hwork h, (hall.mono fun _ => List.mem_append_left _).later ha⟩

include hl hstrict hi hreq hcharts ht htop hnew in
/-- If a target is found to be clean, all that its trace tells of is drawn. If not, its rule will ask again
    for all that is drawn. -/
theorem clean?_draws {rule : Rule} (h : Drawing scope.allowed s₀ t [] s) :
    (clean? scope.book req rule t).Ends s False fun found s' => match found with
      | some _ => ∃ trace, s'.traces.get? t = some trace ∧
          Drawing scope.allowed s₀ t trace.deps s'
      | none => ∃ asked, Drawing scope.allowed s₀ t asked s' ∧ scope.Foreseen s' t asked := by
  have hstop : ∀ {e : Event}, Drawing scope.allowed s₀ t [] { s with told := e :: s.told } ∧
      scope.Foreseen { s with told := e :: s.told } t [] :=
    ⟨h.work ⟨rfl, rfl, rfl⟩ fun _ => rfl, foreseen_nil⟩
  refine SessionM.Ends.bind .of_get fun _ _ hs => ?_
  obtain ⟨rfl, rfl⟩ := hs
  cases htrace : s.traces.get? t with
  | none => exact .pure ⟨[], h, foreseen_nil⟩
  | some trace =>
    obtain ⟨c, hg⟩ := hi.genuine ht htrace
    simp only
    split
    · exact SessionM.Ends.bind .of_modify fun _ s' hs => .pure ⟨[], hs ▸ hstop⟩
    · refine digestOf_ends.bind fun found s' hs => ?_
      obtain ⟨-, rfl⟩ := hs
      split
      · exact SessionM.Ends.bind .of_modify fun _ s' hs => .pure ⟨[], hs ▸ hstop⟩
      · have hnone : trace.deps = [] ++ trace.deps := rfl
        refine ((allHold_ends hl hi hreq ht htop False.elim hg hnone (by simp)).and
          (allHold_draws hl hstrict hi hreq hcharts ht htop hnew hg hnone (by simp)
            h)).bind fun ok s' h' => ?_
        obtain ⟨⟨-, hlater, -⟩, hdraws⟩ := h'
        cases ok with
        | false => exact .pure hdraws
        | true =>
          refine .pure ⟨trace, ?_, hdraws⟩
          rw [hlater.traces t (List.mem_of_mem_head? htop), htrace]

include hl hi hcharts ht htop hnew h in
/-- What a rule asks for is drawn, unless it is refused. -/
theorem needFor_draws (hasks : scope.Asks t (.artifact u)) :
    (needFor req t u).Ends s False fun r s' => match r with
      | .error _ => Drawing scope.allowed s₀ t asked s'
      | .ok d => Drawing scope.allowed s₀ t (asked ++ [d]) s' := by
  refine (request_draws hl hi hcharts ht htop h hasks).bind fun r s' h' => ?_
  cases r with
  | error cause => exact .pure h'
  | ok digest =>
    refine SessionM.Ends.bind .of_modify fun _ s'' hs => .pure ?_
    exact hs ▸ h'.need hnew ht (hl.closed ht hasks) digest

include hl hi hreq hcharts ht htop hnew h in
/-- All dependencies that a rule leaves are drawn. -/
theorem answer_draws {rule : Rule} (hfind : scope.book.find t = .ok rule) :
    (answer scope.book req t (rule.recipe t).run []).Ends s False fun r s' =>
      Drawing scope.allowed s₀ t (asked ++ r.2) s' := by
  have upholds : scope.Upholds req t False fun before s₁ => scope.Inv s₁ ∧
      s₁.stack.head? = some t ∧ Drawing scope.allowed s₀ t (asked ++ before.reverse) s₁ := by
    constructor
    case inv => exact fun h => h.1
    case tell =>
      rintro before s₁ e ⟨hi₁, htop₁, h₁⟩
      exact ⟨hi₁.of_alike ⟨rfl, rfl, rfl, rfl⟩, htop₁, h₁.work ⟨rfl, rfl, rfl⟩ fun _ => rfl⟩
    case file =>
      rintro before s₁ d - hd ⟨hi₁, htop₁, h₁⟩
      refine ⟨hi₁, htop₁, ?_⟩
      rw [List.reverse_cons, ← List.append_assoc]
      exact h₁.file hd
    case need =>
      rintro before s₁ u hasks ⟨hi₁, htop₁, h₁⟩
      refine ((needFor_ends hl hi₁ hreq ht htop₁ False.elim hasks).and
        (needFor_draws hl hi₁ hcharts ht htop₁ hnew h₁ hasks)).mono fun r s₂ h₂ => ?_
      obtain ⟨⟨hi₂, hlater, hr⟩, h₂⟩ := h₂
      have htop₂ : s₂.stack.head? = some t := hlater.stack ▸ htop₁
      cases r with
      | error cause => exact ⟨⟨hi₂, htop₂, h₂⟩, hr⟩
      | ok d =>
        obtain ⟨c, rfl, -, hmakes, hread⟩ := hr
        refine ⟨⟨hi₂, htop₂, ?_⟩, c, rfl, hmakes, hread⟩
        rw [List.reverse_cons, ← List.append_assoc]
        exact h₂
  have hstart : scope.Inv s ∧ s.stack.head? = some t ∧
      Drawing scope.allowed s₀ t (asked ++ [].reverse) s := ⟨hi, htop, by simpa using h⟩
  refine (upholds.answer hl ht hfind .refl hstart).mono fun r s' h' => ?_
  simpa using h'.1.2.2

include hl hi hreq hcharts ht htop hnew h in
/-- If a target is made by a rule that asks again for all that is drawn, its new trace tells of that. -/
theorem make_draws {rule : Rule} (hfind : scope.book.find t = .ok rule)
    (hforeseen : scope.Foreseen s t asked) :
    (make scope.book req rule t).Ends s False fun r s' =>
      ∃ asked, Drawing scope.allowed s₀ t asked s' ∧
        ∀ digest, r = .ok digest → ∀ u, Mention asked u ↔ s'.traces.Needs t u := by
  have hnone : Tracked.Steps scope.book scope.world 0 (rule.recipe t).run [].reverse
      (rule.recipe t).run := .refl
  refine ((answer_ends hl hi hreq ht htop False.elim hfind hnone (by simp)).and
    (answer_draws hl hi hreq hcharts ht htop hnew h hfind)).bind fun a s₁ h₁ => ?_
  obtain ⟨result, deps⟩ := a
  obtain ⟨⟨hi₁, hlater, hdeps, hsteps⟩, h₁⟩ := h₁
  cases result with
  | error cause => exact .pure ⟨_, h₁, by simp⟩
  | ok c =>
    have hagain : ∀ u, Mention (asked ++ deps) u ↔ Mention deps u := by
      intro u
      rw [Dependency.mention_append, or_iff_right_of_imp]
      exact hforeseen rule s₁ deps c hfind (hlater.mono (by simp)) hi₁ hdeps hsteps u
    have hwrite : (writeArtifact t c).Ends s₁ False fun _ s' =>
        Drawing scope.allowed s₀ t (asked ++ deps) s' :=
      .of_eq_some rfl (h₁.work ⟨rfl, rfl, rfl⟩ fun _ => rfl)
    refine hwrite.bind fun r s₂ h₂ => ?_
    cases r with
    | error fault => exact .pure ⟨_, h₂, by simp⟩
    | ok written =>
      refine SessionM.Ends.bind .of_modify fun _ s₃ hs => ?_
      have hkept : s₃.traces.get? t =
          some { rule := rule.name, output := scope.book.digest c, deps } := by
        rw [hs]
        exact PathTable.get?_insert_of_same rfl
      have h₃ : Drawing scope.allowed s₀ t (asked ++ deps) s₃ := by
        rw [hs]
        exact h₂.work ⟨rfl, rfl, rfl⟩ fun hv => PathTable.get?_insert_of_not_same (h₂.not_same hv)
      have hneeds : ∀ u, Mention (asked ++ deps) u ↔ s₃.traces.Needs t u := fun u =>
        (hagain u).trans (TraceTable.needs_iff_of_get? hkept).symm
      cases written with
      | true => exact .pure ⟨_, h₃, fun _ _ => hneeds⟩
      | false =>
        refine SessionM.Ends.bind .of_modify fun _ s₄ hs => .pure ?_
        subst hs
        exact ⟨_, h₃.work ⟨rfl, rfl, rfl⟩ fun _ => rfl, fun _ _ => hneeds⟩

include hl hstrict hi hreq hcharts ht htop hnew in
/-- If a target is brought up to date, its trace tells of all that is drawn. -/
theorem bringUpToDate_draws {rule : Rule} (hfind : scope.book.find t = .ok rule)
    (h : Drawing scope.allowed s₀ t [] s) :
    (bringUpToDate scope.book req rule t).Ends s False fun r s' =>
      ∃ asked, Drawing scope.allowed s₀ t asked s' ∧
        ∀ digest, r = .ok digest → ∀ u, Mention asked u ↔ s'.traces.Needs t u := by
  refine ((clean?_ends hl hi hreq ht htop False.elim).and
    (clean?_draws hl hstrict hi hreq hcharts ht htop hnew h)).bind fun found s₁ h₁ => ?_
  obtain ⟨⟨hi₁, hlater, -⟩, hdraws⟩ := h₁
  cases found with
  | some digest =>
    obtain ⟨trace, hkept, h₁⟩ := hdraws
    refine SessionM.Ends.bind .of_modify fun _ s₂ hs => SessionM.Ends.bind .of_modify
      fun _ s₃ hs' => .pure ?_
    subst hs hs'
    exact ⟨_, h₁.work ⟨rfl, rfl, rfl⟩ fun _ => rfl, fun _ _ u =>
      (TraceTable.needs_iff_of_get? hkept).symm⟩
  | none =>
    obtain ⟨asked, h₁, hforeseen⟩ := hdraws
    refine SessionM.Ends.bind .of_modify fun _ s₂ hs => ?_
    have ha : Alike s₁ s₂ := hs ▸ ⟨rfl, rfl, rfl, rfl⟩
    have h₂ : Drawing scope.allowed s₀ t asked s₂ := hs ▸ h₁.work ⟨rfl, rfl, rfl⟩ fun _ => rfl
    have hlater₂ : Later [] s₁ s₂ := ha.later
    exact make_draws hl (hi₁.of_alike ha) hreq hcharts ht
      (ha.stack.trans hlater.stack ▸ htop) hnew h₂ hfind (hforeseen.later hlater₂)

end

section

variable (hl : scope.Lawful)
  (hstrict : ∀ {t rule}, scope.allowed t → scope.book.find t = .ok rule → (rule.recipe t).run.Strict)

include hl hstrict

/-- A target that was not required before is drawn. -/
theorem visit_draws (hi : scope.Inv s) (hreq : scope.Serves req can) (hcharts : scope.Charts req)
    (ht : scope.allowed t) (hneeds : ∀ u ∈ s.stack.head?, scope.Needs u t)
    (hnew : s.progress.get? t = none) (h : Drawn scope.allowed s) :
    (visit scope.book req t).Ends s False fun _ s' => Draws scope.allowed s s' := by
  have hbegin := h.start ht hnew
  refine SessionM.Ends.bind .of_modify fun _ s₁ hs => ?_
  subst hs
  have hfinish : ∀ r s₂, (∃ asked, Drawing scope.allowed s t asked s₂ ∧
        ∀ digest, r = .ok digest → ∀ u, Mention asked u ↔ s₂.traces.Needs t u) →
      (do
        modify (finish t r)
        return r : SessionM (Except Failure String)).Ends s₂ False fun _ s' =>
          Draws scope.allowed s s' := by
    rintro r s₂ ⟨asked, h₂, hok⟩
    exact SessionM.Ends.bind .of_modify fun _ s₃ hs => .pure (hs ▸ h₂.finish hnew hok)
  cases hfind : scope.book.find t with
  | error cause => exact SessionM.Ends.bind (.pure ⟨[], hbegin, by simp⟩) hfinish
  | ok rule =>
    exact (bringUpToDate_draws hl hstrict (hi.start hl ht hneeds hnew) hreq hcharts ht rfl hnew hfind
      hbegin).bind hfinish

/-- Requests draw the graph, to whatever depth they are followed. -/
theorem require_draws (depth : Nat) : scope.Charts (Session.require scope.book depth) := by
  induction depth with
  | zero => exact fun s t _ _ _ _ => ⟨fun _ _ h => (by cases h), False.elim⟩
  | succ depth ih =>
    intro s t hi h ht hneeds
    refine SessionM.Ends.bind .of_get fun _ _ hs => ?_
    obtain ⟨rfl, rfl⟩ := hs
    cases hp : s.progress.get? t with
    | some p => cases p <;> exact .pure (.refl h)
    | none => exact visit_draws hl hstrict hi (require_ends hl depth) ih ht hneeds hp h

/-- The graph is drawn when several targets were required one after another. -/
theorem requireAll_draws {depth : Nat} {targets : List Path} (hi : scope.Inv s) (hstack : s.stack = [])
    (h : Drawn scope.allowed s) (ht : ∀ t ∈ targets, scope.allowed t) :
    (requireAll scope.book depth targets).Ends s False fun _ s' => Drawn scope.allowed s' := by
  induction targets generalizing s with
  | nil => exact .pure h
  | cons t targets ih =>
    have htail : ∀ u ∈ targets, scope.allowed u := fun u hu => ht u (List.mem_cons_of_mem _ hu)
    refine SessionM.Ends.bind .of_modify fun _ s₁ hs => ?_
    have ha : Alike s s₁ := hs ▸ ⟨rfl, rfl, rfl, rfl⟩
    have h₁ : Drawn scope.allowed s₁ := hs ▸ h.work ⟨rfl, rfl, rfl⟩ fun _ => rfl
    have hi₁ := hi.of_alike ha
    have hstack₁ : s₁.stack = [] := ha.stack.trans hstack
    have hneeds : ∀ u ∈ s₁.stack.head?, scope.Needs u t := by simp [hstack₁]
    have htop := ht t List.mem_cons_self
    have hserved := require_ends hl depth s₁ t hi₁ htop hneeds
    refine (SessionM.Ends.and hserved
      (require_draws hl hstrict depth s₁ t hi₁ h₁ htop hneeds)).bind fun r s₂ h₂ => ?_
    obtain ⟨⟨hi₂, hlater, -⟩, h₂⟩ := h₂
    have hstack₂ : s₂.stack = [] := hlater.stack.trans hstack₁
    cases r with
    | ok digest => exact ih hi₂ hstack₂ h₂.drawn htail
    | error cause =>
      refine SessionM.Ends.bind .of_modify fun _ s₃ hs => ?_
      have h₃ : Drawn scope.allowed s₃ := hs ▸ h₂.drawn.work ⟨rfl, rfl, rfl⟩ fun _ => rfl
      have ha₃ : Alike s₂ s₃ := hs ▸ ⟨rfl, rfl, rfl, rfl⟩
      exact (ih (hi₂.of_alike ha₃) (ha₃.stack.trans hstack₂) h₃ htail).bind fun _ _ h => .pure h

end

end Scope

end ImportIndex
