import ImportIndex.Proofs.Build.Stepwise

/-!
# The life of a target in a session

Whatever the rules are, whatever the traces and the files say, and whatever is done from outside: at every
moment of a session (`Session.Moment`),

* the frames are those of the targets on the stack, which are those that are started, none of them twice;
* each of them but the innermost waits for the next one;
* what has begun, a target or a rule, does not begin again.

One invariant says so (`Session.Orderly`), and every step keeps it. So a target is started once and ends
once, its rule runs at most once, and what its end was is the answer to all later requests for it. A
request that is refused as a cycle is one for a target on the stack, and the cycle leads from there to the
request, each target waiting for the next (`Session.lifecycle`).
-/

namespace ImportIndex

namespace Session

variable {book : Rulebook} {o : Outside} {s s' : Session} {t u : Path} {m m' : Moment}
  {marks more : List Mark} {frames : List (Path × Stage)} {stage stage' : Stage}
  {r : Except Failure String}

/-- How far a target can come at once. -/
inductive Advances : Option Progress → Option Progress → Prop
  | stay {p} : Advances p p
  | start : Advances none (some .started)
  | finish (r : Except Failure String) : Advances (some .started) (some (.ofResult r))

theorem Advances.eq_of_ended {p : Progress} {q : Option Progress} (h : Advances (some p) q)
    (hend : p ≠ .started) : q = some p := by
  cases h with
  | stay => rfl
  | finish r => exact absurd rfl hend

/-- What holds at any moment, after these have begun. -/
structure Orderly (marks : List Mark) (m : Moment) : Prop where
  /-- The frames are those of the targets on the stack. -/
  stack : m.session.stack = m.frames.map Prod.fst
  /-- The targets on the stack are those that are started. -/
  started : ∀ {t}, m.session.progress.get? t = some .started ↔ ∃ u ∈ m.session.stack, u.Same t
  /-- None is on the stack twice. -/
  distinct : m.session.stack.Pairwise fun t u => ¬ t.Same u
  /-- Each of them but the innermost waits for the next one. -/
  waiting : m.frames.IsChain fun inner outer => outer.2.Asks inner.1
  /-- The innermost waits for a request that is made. -/
  asking : ∀ {t}, m.now = .asking t → ∀ top ∈ m.frames.head?, top.2.Asks t
  /-- Nothing begins twice. -/
  once : marks.Pairwise fun a b => ¬ a.Same b
  /-- What has begun is about targets that were required. -/
  required : ∀ a ∈ marks, m.session.progress.get? a.target ≠ none
  /-- As long as a target is at an early stage, its rule has not run. -/
  early : ∀ e ∈ m.frames, e.2.IsEarly → ∀ t, .runs t ∈ marks → ¬ t.Same e.1

theorem Stage.Goes.progress (h : Stage.Goes book t s stage marks s' stage') :
    s'.progress = s.progress ∧ s'.stack = s.stack := by
  cases h <;> exact ⟨rfl, rfl⟩

/-- A stage goes on to early stages from early stages only, and runs the rule as it leaves them. -/
theorem Stage.Goes.marks_cases (h : Stage.Goes book t s stage marks s' stage') :
    (marks = [] ∧ (stage'.IsEarly → stage.IsEarly)) ∨
      (marks = [.runs t] ∧ stage.IsEarly ∧ ¬ stage'.IsEarly) := by
  cases h <;> simp [IsEarly]

theorem Stage.Resumes.isEarly (h : Stage.Resumes s r stage stage') (he : stage'.IsEarly) :
    stage.IsEarly := by
  cases h <;> simp_all [IsEarly]

namespace Orderly

theorem session {disk : Disk} {traces : TraceTable} : Orderly [] ⟨{ disk, traces }, [], .working⟩ where
  stack := rfl
  started := by simp
  distinct := .nil
  waiting := .nil
  asking := by simp
  once := .nil
  required := by simp
  early := by simp

/-- The innermost target may come to another stage, and its rule may run now if it is early. -/
theorem frame {now now' : Now} (h : Orderly marks ⟨s, (t, stage) :: frames, now⟩)
    (progress : s'.progress = s.progress) (stack : s'.stack = s.stack)
    (hmore : (more = [] ∧ (stage'.IsEarly → stage.IsEarly)) ∨
      (more = [.runs t] ∧ stage.IsEarly ∧ ¬ stage'.IsEarly))
    (asking : ∀ {u}, now' = .asking u → stage'.Asks u) :
    Orderly (marks ++ more) ⟨s', (t, stage') :: frames, now'⟩ where
  stack := stack.trans h.stack
  started := by
    simp only [progress, stack]
    exact h.started
  distinct := stack ▸ h.distinct
  waiting := List.isChain_cons.2 ⟨(List.isChain_cons.1 h.waiting).1, (List.isChain_cons.1 h.waiting).2⟩
  asking hnow top htop := by
    obtain rfl := Option.some.inj htop
    exact asking hnow
  once := by
    rcases hmore with ⟨rfl, -⟩ | ⟨rfl, hearly, -⟩
    · simpa using h.once
    · refine List.pairwise_append.2 ⟨h.once, List.pairwise_singleton _ _, fun a ha b hb => ?_⟩
      obtain rfl := List.mem_singleton.1 hb
      cases a with
      | starts u => exact not_false
      | runs u => exact h.early _ List.mem_cons_self hearly u ha
  required a ha := by
    rw [progress]
    rcases hmore with ⟨rfl, -⟩ | ⟨rfl, -, -⟩
    · exact h.required a (by simpa using ha)
    · rcases List.mem_append.1 ha with ha | ha
      · exact h.required a ha
      · obtain rfl := List.mem_singleton.1 ha
        have htop : t ∈ s.stack := h.stack ▸ List.mem_cons_self
        simp [Mark.target, h.started.2 ⟨t, htop, rfl⟩]
  early e he hearly u hu := by
    rcases List.mem_cons.1 he with rfl | he
    · rcases hmore with ⟨rfl, himp⟩ | ⟨rfl, -, hnot⟩
      · exact h.early _ List.mem_cons_self (himp hearly) u (by simpa using hu)
      · exact absurd hearly hnot
    · -- The others are other targets than the innermost.
      rcases List.mem_append.1 hu with hu | hu
      · exact h.early e (List.mem_cons_of_mem _ he) hearly u hu
      · have hut : u = t := by
          rcases hmore with ⟨rfl, -⟩ | ⟨rfl, -, -⟩
          · cases hu
          · exact Mark.runs.inj (List.mem_singleton.1 hu)
        have hstack : s.stack = t :: frames.map Prod.fst := h.stack
        have hdistinct := hstack ▸ h.distinct
        exact hut ▸ (List.pairwise_cons.1 hdistinct).1 e.1 (List.mem_map_of_mem he)

/-- A target that is started is on top, and was not on the stack. -/
theorem start (h : Orderly marks ⟨s, frames, .asking t⟩) (hnew : s.progress.get? t = none) :
    Orderly (marks ++ [.starts t]) ⟨Session.start t s, (t, .begun) :: frames, .working⟩ where
  stack := congrArg (t :: ·) h.stack
  started := by
    intro u
    by_cases hs : t.Same u
    · exact iff_of_true (get?_start_of_same hs) ⟨t, List.mem_cons_self, hs⟩
    · rw [get?_start_of_not_same hs]
      refine h.started.trans ⟨fun ⟨v, hv, hvu⟩ => ⟨v, List.mem_cons_of_mem _ hv, hvu⟩, ?_⟩
      rintro ⟨v, hv, hvu⟩
      rcases List.mem_cons.1 hv with rfl | hv
      · exact absurd hvu hs
      · exact ⟨v, hv, hvu⟩
  distinct := by
    refine List.pairwise_cons.2 ⟨fun u hu hs => ?_, h.distinct⟩
    rw [h.started.2 ⟨u, hu, hs.symm⟩] at hnew
    cases hnew
  waiting := List.isChain_cons.2 ⟨h.asking rfl, h.waiting⟩
  asking := by simp
  once := by
    refine List.pairwise_append.2 ⟨h.once, List.pairwise_singleton _ _, fun a ha b hb hs => ?_⟩
    obtain rfl := List.mem_singleton.1 hb
    exact h.required a ha ((PathTable.get?_congr hs.target).trans hnew)
  required a ha := by
    by_cases hs : t.Same a.target
    · simp [get?_start_of_same hs]
    · rw [get?_start_of_not_same hs]
      rcases List.mem_append.1 ha with ha | ha
      · exact h.required a ha
      · obtain rfl := List.mem_singleton.1 ha
        exact absurd rfl hs
  early e he hearly u hu hs := by
    replace hu : .runs u ∈ marks := by simpa using hu
    rcases List.mem_cons.1 he with rfl | he
    · exact h.required _ hu ((PathTable.get?_congr hs).trans hnew)
    · exact h.early e he hearly u hu hs

/-- The innermost target ends. -/
theorem finish (h : Orderly marks ⟨s, (t, .ending r) :: frames, .working⟩) :
    Orderly marks ⟨Session.finish t r s, frames, .answered r⟩ := by
  have hstack : s.stack = t :: frames.map Prod.fst := h.stack
  have hdistinct := hstack ▸ h.distinct
  constructor
  case stack => rw [stack_finish, hstack, List.tail_cons]
  case started =>
    intro u
    rw [stack_finish, hstack, List.tail_cons]
    by_cases hs : t.Same u
    · rw [get?_finish_of_same hs]
      refine iff_of_false (by cases r <;> simp [Progress.ofResult]) ?_
      rintro ⟨v, hv, hvu⟩
      exact (List.pairwise_cons.1 hdistinct).1 v hv (hs.trans hvu.symm)
    · rw [get?_finish_of_not_same hs]
      refine h.started.trans ?_
      rw [hstack]
      simp [hs]
  case distinct =>
    rw [stack_finish, hstack, List.tail_cons]
    exact (List.pairwise_cons.1 hdistinct).2
  case waiting => exact (List.isChain_cons.1 h.waiting).2
  case asking => simp
  case once => exact h.once
  case required =>
    intro a ha
    by_cases hs : t.Same a.target
    · simp [get?_finish_of_same hs]
    · rw [get?_finish_of_not_same hs]
      exact h.required a ha
  case early => exact fun e he => h.early e (List.mem_cons_of_mem _ he)

/-- Nothing but what is next changes. -/
theorem next {now now' : Now} (h : Orderly marks ⟨s, frames, now⟩) (progress : s'.progress = s.progress)
    (stack : s'.stack = s.stack)
    (asking : ∀ {u}, now' = .asking u → ∀ top ∈ frames.head?, top.2.Asks u) :
    Orderly marks ⟨s', frames, now'⟩ where
  stack := stack.trans h.stack
  started := by
    simp only [progress, stack]
    exact h.started
  distinct := stack ▸ h.distinct
  waiting := h.waiting
  asking := asking
  once := h.once
  required := progress ▸ h.required
  early := h.early

/-- All targets but the innermost wait for one. -/
theorem exists_asks {now : Now} (h : Orderly marks ⟨s, (t, stage) :: frames, now⟩) {f : Path × Stage}
    (hf : f ∈ frames) : ∃ u, f.2.Asks u := by
  obtain ⟨before, after, rfl⟩ := List.append_of_mem hf
  have hwaiting := h.waiting
  rw [← List.cons_append, List.isChain_append] at hwaiting
  obtain ⟨inner, hinner⟩ := List.getLast?_isSome.2 (List.cons_ne_nil (t, stage) before) |> Option.isSome_iff_exists.1
  exact ⟨inner.1, hwaiting.2.2 inner hinner f rfl⟩

/-- From the outermost of several frames on, each target waits for the next, and the innermost for a
    request. -/
theorem isChain_frames {l : List (Path × Stage)} (hl : ∀ e ∈ l, e ∈ frames)
    (hwaiting : l.IsChain fun inner outer => outer.2.Asks inner.1)
    (htop : ∀ top ∈ l.head?, top.2.Asks t) : (l.reverse.map Prod.fst ++ [t]).IsChain
      fun a b => ∃ stage, (a, stage) ∈ frames ∧ stage.Asks b := by
  induction l generalizing t with
  | nil => exact .singleton t
  | cons e l ih =>
    rw [List.forall_mem_cons] at hl
    rw [List.isChain_cons] at hwaiting
    rw [List.reverse_cons, List.map_append]
    refine (ih hl.2 hwaiting.2 hwaiting.1).append (.singleton t) fun a ha b hb => ?_
    obtain rfl : e.1 = a := by simpa using ha
    obtain rfl : t = b := by simpa using hb
    exact ⟨e.2, hl.1, htop e rfl⟩

/-- A request for a target that is started closes a cycle: it leads from that target on the stack to the
    request, without a repetition, and each target in it waits for the next. -/
theorem cycleTo (h : Orderly marks m) (hnow : m.now = .asking t)
    (hstarted : m.session.progress.get? t = some .started) :
    ∃ u inner, Session.cycleTo m.session.stack t = u :: inner ++ [t] ∧ u.Same t ∧
      (u :: inner).Pairwise (fun t u => ¬ t.Same u) ∧
      (u :: inner ++ [t]).IsChain fun a b => ∃ stage, (a, stage) ∈ m.frames ∧ stage.Asks b := by
  obtain ⟨u, hu, hut⟩ := h.started.1 hstarted
  obtain ⟨inner, outer, hsplit⟩ := List.append_of_mem hu
  obtain ⟨waiting, rest, hframes, hinner, hrest⟩ := List.map_eq_append_iff.1 (h.stack.symm.trans hsplit)
  obtain ⟨e, outside, rfl, rfl, -⟩ := List.map_eq_cons_iff.1 hrest
  have hdistinct := hsplit ▸ h.distinct
  refine ⟨e.1, inner.reverse, ?_, hut, ?_, ?_⟩
  · -- No target outside of it is the same, so that the cycle starts there.
    have houter : ∀ v ∈ outer.reverse, (!decide (v.Same t)) = true := by
      intro v hv
      have hne := (List.pairwise_cons.1 (List.pairwise_append.1 hdistinct).2.1).1 v (List.mem_reverse.1 hv)
      simpa using fun hvt => hne (hut.trans hvt.symm)
    rw [Session.cycleTo, hsplit, List.reverse_append, List.reverse_cons, List.append_assoc,
      List.dropWhile_append_of_pos houter, List.singleton_append, List.dropWhile_cons_of_neg (by simpa)]
  · have hrotate : (inner ++ [e.1]).Pairwise fun t u => ¬ t.Same u :=
      hdistinct.sublist (List.Sublist.append_left (List.singleton_sublist.2 List.mem_cons_self) inner)
    rw [← List.reverse_concat, List.pairwise_reverse]
    exact hrotate.imp fun hne hs => hne hs.symm
  · have hprefix : waiting ++ [e] <+: m.frames := by
      rw [hframes]
      exact ⟨outside, by simp⟩
    have hwaiting := List.IsChain.prefix h.waiting hprefix
    have hchain := isChain_frames (fun d hd => hprefix.subset hd) hwaiting
      fun top htop => h.asking hnow top ?_
    · rw [List.reverse_concat] at hchain
      simpa [← hinner] using hchain
    · rw [hframes]
      cases waiting <;> exact htop

/-- What holds at a moment holds after every step, with the rules that begin to run. -/
theorem step (h : Orderly marks m) (hstep : Step book o m more m') : Orderly (marks ++ more) m' := by
  cases hstep with
  | aside same => simpa using h.next same.progress same.stack fun hnow => h.asking hnow
  | change hchanges =>
    simpa using h.next (o.leaves hchanges).1 (o.leaves hchanges).2 fun hnow => h.asking hnow
  | request => simpa using h.next rfl rfl (by simp)
  | reply => simpa using h.next rfl rfl (by simp)
  | done => simpa using h.next rfl rfl (by simp)
  | failed => simpa using h.next rfl rfl (by simp)
  | cycle => simpa using h.next rfl rfl (by simp)
  | start hnew => exact h.start hnew
  | go hgoes => exact h.frame hgoes.progress.1 hgoes.progress.2 hgoes.marks_cases (by simp)
  | @ask s t stage u frames hasks =>
    have hasking : ∀ {v}, Now.asking u = .asking v → ∀ top ∈ ((t, stage) :: frames).head?,
        top.2.Asks v := by
      intro v hnow top htop
      obtain rfl := Option.some.inj htop
      obtain rfl := Now.asking.inj hnow
      exact hasks
    simpa using h.next rfl rfl hasking
  | resume hresumes => exact h.frame rfl rfl (.inl ⟨rfl, hresumes.isEarly⟩) (by simp)
  | finish => simpa using h.finish

/-- What holds at a moment holds wherever a walk leads. -/
theorem walk (h : Orderly marks m) (hwalk : Walk book o m more m') : Orderly (marks ++ more) m' := by
  induction hwalk with
  | refl => simpa using h
  | tail _ last ih =>
    rw [← List.append_assoc]
    exact ih.step last

/-- A step takes a target to its next state, or leaves it where it is. -/
theorem advances (h : Orderly marks m) (hstep : Step book o m more m') (t : Path) :
    Advances (m.session.progress.get? t) (m'.session.progress.get? t) := by
  cases hstep with
  | aside same => exact same.progress ▸ .stay
  | change hchanges => exact (o.leaves hchanges).1 ▸ .stay
  | @start s frames u hnew =>
    by_cases hs : u.Same t
    · rw [get?_start_of_same hs, ← PathTable.get?_congr hs, hnew]
      exact .start
    · rw [get?_start_of_not_same hs]
      exact .stay
  | go hgoes => exact hgoes.progress.1 ▸ .stay
  | @finish s u r frames =>
    by_cases hs : u.Same t
    · have hstarted : s.progress.get? t = some .started :=
        h.started.2 ⟨u, h.stack ▸ List.mem_cons_self, hs⟩
      rw [get?_finish_of_same hs, hstarted]
      exact .finish r
    · rw [get?_finish_of_not_same hs]
      exact .stay
  | request | reply | done | failed | cycle | ask | resume => exact .stay

/-- What has ended stays as it ended. -/
theorem ended (h : Orderly marks m) (hwalk : Walk book o m more m') {p : Progress}
    (hp : m.session.progress.get? t = some p) (hend : p ≠ .started) :
    m'.session.progress.get? t = some p := by
  induction hwalk with
  | refl => exact hp
  | tail before last ih =>
    have hadvances := (h.walk before).advances last t
    rw [ih] at hadvances
    exact hadvances.eq_of_ended hend

end Orderly

end Session

end ImportIndex
