import ImportIndex.Proofs.Build.Course
import ImportIndex.Proofs.Build.Evaluation

/-!
# What a session leaves as it is

Whatever the rules are, a session goes on: targets that were required keep their progress and their
traces, and nothing is written but the artifacts of those that are required for the first time
(`Session.Onward`). A target that is required is done after that, or it has failed, unless it is being
brought up to date already (`ended_of_require`).

* `Checks.keeps`, `Answers.keeps`: what every request keeps is kept by checking a trace and by running
  a rule;
* `Checks.narrow`, `Answers.narrow`: these make no other requests than what they ask for;
* `Checks.seen`, `Answers.seen`: the dependencies in a trace that holds, and those that a rule leaves,
  were answered in sessions that kept it (`Session.Seen`);
* `Session.Served`: requests that are made one after another.
-/

namespace ImportIndex

theorem Tracked.asksOnly_true {α : Type} (x : Tracked α) : x.AsksOnly fun _ => True := by
  induction x with
  | done => trivial
  | readText path next ih => exact ⟨trivial, ih⟩
  | isFile path next ih => exact ⟨trivial, ih⟩
  | need target next ih => exact ⟨trivial, ih⟩
  | artifact target next ih => exact ⟨trivial, ih⟩
  | count next ih => exact ih
  | tell event next ih => exact ih

/-- How far a target has come that was brought up to date with this result. -/
def Progress.ofResult : Except Failure String → Progress
  | .ok digest => .done digest
  | .error _ => .failed

namespace Session

variable {book : Rulebook} {ends : Ending} {s s₁ s₂ s' s'' : Session} {t u : Path}
  {r : Except Failure String} {d : Dependency} {deps before : List Dependency} {digest : String}

/-- Whether a session goes on from another one. -/
structure Onward (s s' : Session) : Prop where
  /-- The progress of targets that were required stays. -/
  progress : ∀ {u p}, s.progress.get? u = some p → s'.progress.get? u = some p
  /-- What was begun is ended. -/
  started : ∀ {u}, s'.progress.get? u = some .started → s.progress.get? u = some .started
  /-- The same targets are being brought up to date. -/
  stack : s'.stack = s.stack
  /-- The traces of targets stay, unless these are done now and were not required before. -/
  traces : ∀ {u}, s.progress.get? u ≠ none ∨ ¬ s'.Done u → s'.traces.get? u = s.traces.get? u
  /-- Nothing is written but targets that were not required before. -/
  disk : s.disk.Rewritten (fun u => s.progress.get? u = none ∧ s'.progress.get? u ≠ none) s'.disk
  /-- The tasks stay. -/
  added : ∀ {u}, s.graph.added.contains u = true → s'.graph.added.contains u = true
  /-- Targets that were not required before become tasks. -/
  tasks : ∀ {u}, s.progress.get? u = none → s'.progress.get? u ≠ none →
    s'.graph.added.contains u = true

/-- Whether a request has ended as every request does. -/
def Ended (s : Session) (t : Path) (r : Except Failure String) (s' : Session) : Prop :=
  Onward s s' ∧ match r with
    | .ok digest => s'.progress.get? t = some (.done digest)
    | .error cause =>
      (s' = s ∧ s.progress.get? t = some .started ∧ cause = .cycle (cycleTo s.stack t)) ∨
        s'.progress.get? t = some .failed ∧ cause.isCycle = false

/-! ### Going on -/

namespace Onward

theorem refl : Onward s s where
  progress := id
  started := id
  stack := rfl
  traces _ := rfl
  disk := .start
  added := id
  tasks hn hs := absurd hn hs

theorem ne_none (h : Onward s s') (hu : s.progress.get? u ≠ none) : s'.progress.get? u ≠ none := by
  obtain ⟨p, hp⟩ := Option.ne_none_iff_exists'.1 hu
  simp [h.progress hp]

theorem done (h : Onward s s') (hu : s.Done u) : s'.Done u := by
  obtain ⟨digest, hd⟩ := hu
  exact ⟨digest, h.progress hd⟩

theorem trans (h : Onward s s') (h' : Onward s' s'') : Onward s s'' where
  progress hu := h'.progress (h.progress hu)
  started hu := h.started (h'.started hu)
  stack := h'.stack.trans h.stack
  traces hu := by
    rcases hu with hu | hu
    · rw [h'.traces (.inl (h.ne_none hu)), h.traces (.inl hu)]
    · rw [h'.traces (.inr hu), h.traces (.inr fun hd => hu (h'.done hd))]
  disk := by
    refine (h.disk.mono fun u hu => ⟨hu.1, h'.ne_none hu.2⟩).trans (h'.disk.mono fun u hu => ?_)
    refine ⟨?_, hu.2⟩
    by_contra hne
    exact h.ne_none hne hu.1
  added hu := h'.added (h.added hu)
  tasks {u} hn hs := by
    by_cases hu : s'.progress.get? u = none
    · exact h'.tasks hu hs
    · exact h'.added (h.tasks hn hu)

end Onward

theorem Aside.onward (h : Aside s s') : Onward s s' where
  progress := h.progress ▸ id
  started := h.progress ▸ id
  stack := h.stack
  traces _ := by rw [h.traces]
  disk := h.disk ▸ .start
  added := h.added
  tasks hn hs := absurd hn (h.progress ▸ hs)

/-- What every request keeps is kept by checking a trace, which requires nothing but the targets that
    it is about. -/
theorem Checks.keeps {found : Bool} {P : Session → Prop} (h : Checks book ends s deps found s')
    (hs : P s) (aside : ∀ {s s'}, P s → Aside s s' → P s')
    (request : ∀ {s u digest r s'}, P s → .artifact u digest ∈ deps → ends s u r s' → P s') :
    P s' := by
  induction h with
  | nil => exact hs
  | content _ _ ih => exact ih hs fun hs hu => request hs (List.mem_cons_of_mem _ hu)
  | presence _ _ ih => exact ih hs fun hs hu => request hs (List.mem_cons_of_mem _ hu)
  | artifact required ha _ ih =>
    exact ih (aside (request hs List.mem_cons_self required) ha) fun hs hu =>
      request hs (List.mem_cons_of_mem _ hu)
  | differs ha => exact aside hs ha
  | differsAfter required ha => exact aside (request hs List.mem_cons_self required) ha

/-- What every request keeps is kept by running a rule, which requires nothing but the targets that it
    asks for. -/
theorem Answers.keeps {α : Type} {x : Tracked α} {a : α × List Dependency} {P : Session → Prop}
    {asks : Question → Prop} (h : Answers book ends s x before a s') (hx : x.AsksOnly asks) (hs : P s)
    (aside : ∀ {s s'}, P s → Aside s s' → P s')
    (request : ∀ {s u r s'}, P s → asks (.artifact u) → ends s u r s' → P s') : P s' := by
  induction h with
  | done => exact hs
  | readText _ ih => exact ih (hx.2 _) hs
  | isFile _ ih => exact ih (hx.2 _) hs
  | need required ha _ ih => exact ih (hx.2 _) (aside (request hs hx.1 required) ha)
  | needRefused required _ ih => exact ih (hx.2 _) (request hs hx.1 required)
  | artifact required ha _ ih => exact ih (hx.2 _) (aside (request hs hx.1 required) ha)
  | artifactRefused required _ ih => exact ih (hx.2 _) (request hs hx.1 required)
  | count _ ih => exact ih (hx _) hs
  | tell ha _ ih => exact ih hx (aside hs ha)

/-- What every request keeps is kept when a target turns out not to be clean. -/
theorem Unclean.keeps {rule : Rule} {P : Session → Prop} (h : Unclean book ends t rule s s')
    (hs : P s) (aside : ∀ {s s'}, P s → Aside s s' → P s')
    (request : ∀ {s₁ u digest r s₂ trace}, P s₁ → s.traces.get? t = some trace →
      .artifact u digest ∈ trace.deps → ends s₁ u r s₂ → P s₂) : P s' := by
  rcases h with ha | ⟨trace, s₁, hkept, -, hchecks, ha⟩
  · exact aside hs ha
  · exact aside (hchecks.keeps hs aside fun hs hu => request hs hkept hu) ha

section

variable {ends' : Ending} {P : Session → Prop} {asked : Path → Prop} (hs : P s)
  (aside : ∀ {s s'}, P s → Aside s s' → P s')
  (request : ∀ {s u r s'}, P s → asked u → ends s u r s' → P s' ∧ ends' s u r s')

include hs aside request

/-- Checking a trace makes requests only for the targets that it is about, and in sessions that keep
    what every request keeps. -/
theorem Checks.narrow {found : Bool} (h : Checks book ends s deps found s')
    (hdeps : ∀ u digest, .artifact u digest ∈ deps → asked u) :
    Checks book ends' s deps found s' := by
  induction h with
  | nil => exact .nil
  | content same _ ih =>
    exact .content same (ih hs fun u digest hu => hdeps u digest (List.mem_cons_of_mem _ hu))
  | presence same _ ih =>
    exact .presence same (ih hs fun u digest hu => hdeps u digest (List.mem_cons_of_mem _ hu))
  | artifact required ha _ ih =>
    obtain ⟨hs₁, hr⟩ := request hs (hdeps _ _ List.mem_cons_self) required
    exact .artifact hr ha (ih (aside hs₁ ha)
      fun u digest hu => hdeps u digest (List.mem_cons_of_mem _ hu))
  | differs ha => exact .differs ha
  | differsAfter required ha =>
    exact .differsAfter (request hs (hdeps _ _ List.mem_cons_self) required).2 ha

/-- A rule makes requests only for the targets that it asks for, and in sessions that keep what every
    request keeps. -/
theorem Answers.narrow {α : Type} {x : Tracked α} {a : α × List Dependency}
    (h : Answers book ends s x before a s')
    (hx : x.AsksOnly fun q => ∀ u, q = .artifact u → asked u) :
    Answers book ends' s x before a s' := by
  induction h with
  | done => exact .done
  | readText _ ih => exact .readText (ih hs (hx.2 _))
  | isFile _ ih => exact .isFile (ih hs (hx.2 _))
  | need required ha _ ih =>
    obtain ⟨hs₁, hr⟩ := request hs (hx.1 _ rfl) required
    exact .need hr ha (ih (aside hs₁ ha) (hx.2 _))
  | needRefused required _ ih =>
    obtain ⟨hs₁, hr⟩ := request hs (hx.1 _ rfl) required
    exact .needRefused hr (ih hs₁ (hx.2 _))
  | artifact required ha _ ih =>
    obtain ⟨hs₁, hr⟩ := request hs (hx.1 _ rfl) required
    exact .artifact hr ha (ih (aside hs₁ ha) (hx.2 _))
  | artifactRefused required _ ih =>
    obtain ⟨hs₁, hr⟩ := request hs (hx.1 _ rfl) required
    exact .artifactRefused hr (ih hs₁ (hx.2 _))
  | count _ ih => exact .count (ih hs (hx _))
  | tell ha _ ih => exact .tell ha (ih (aside hs ha) hx)

end

/-- A target is brought up to date by requests of some kind if checking its trace and running its rule
    make no others. -/
theorem Visits.narrow {ends' : Ending} (h : Visits book ends t s r s')
    (checking : ∀ {rule trace found s₁}, book.find t = .ok rule → s.traces.get? t = some trace →
      trace.rule = rule.name → Checks book ends s trace.deps found s₁ →
        Checks book ends' s trace.deps found s₁)
    (answering : ∀ {rule s₁ a s₂}, book.find t = .ok rule → Unclean book ends t rule s s₁ →
      Answers book ends s₁ (rule.recipe t).run [] a s₂ →
        Answers book ends' s₁ (rule.recipe t).run [] a s₂) : Visits book ends' t s r s' := by
  have hunclean : ∀ {rule s₁}, book.find t = .ok rule → Unclean book ends t rule s s₁ →
      Unclean book ends' t rule s s₁ := fun hfind h =>
    h.imp_right fun ⟨trace, s₀, hkept, hname, hchecks, ha⟩ =>
      ⟨trace, s₀, hkept, hname, checking hfind hkept hname hchecks, ha⟩
  cases h with
  | unruled find => exact .unruled find
  | clean find kept name output checks aside =>
    exact .clean find kept name output (checking find kept name checks) aside
  | failed find unclean answers =>
    exact .failed find (hunclean find unclean) (answering find unclean answers)
  | unwritten find unclean answers write =>
    exact .unwritten find (hunclean find unclean) (answering find unclean answers) write
  | made find unclean answers write aside =>
    exact .made find (hunclean find unclean) (answering find unclean answers) write aside

/-! ### Requests end -/

theorem progress_finish : (finish t r s).progress = s.progress.insert t (.ofResult r) := by
  cases r <;> rfl

theorem get?_start_of_same (h : t.Same u) : (start t s).progress.get? u = some .started :=
  PathTable.get?_insert_of_same h

theorem get?_start_of_not_same (h : ¬ t.Same u) :
    (start t s).progress.get? u = s.progress.get? u :=
  PathTable.get?_insert_of_not_same h

theorem get?_finish_of_same (h : t.Same u) :
    (finish t r s).progress.get? u = some (.ofResult r) := by
  rw [progress_finish, PathTable.get?_insert_of_same h]

theorem get?_finish_of_not_same (h : ¬ t.Same u) :
    (finish t r s).progress.get? u = s.progress.get? u := by
  rw [progress_finish, PathTable.get?_insert_of_not_same h]

/-- What was not required when a target is started was not required before. -/
theorem get?_eq_none_of_start (h : (start t s).progress.get? u = none) :
    s.progress.get? u = none := by
  by_cases hs : t.Same u
  · rw [get?_start_of_same hs] at h
    cases h
  · rwa [get?_start_of_not_same hs] at h

/-- What is done when a target is started was done before. -/
theorem done_of_start (h : (start t s).progress.get? u = some (.done digest)) :
    s.progress.get? u = some (.done digest) := by
  by_cases hs : t.Same u
  · rw [get?_start_of_same hs] at h
    cases h
  · rwa [get?_start_of_not_same hs] at h

/-- When a target is started that was not required before, what is done stays so. -/
theorem done_start_iff (hnew : s.progress.get? t = none) :
    (start t s).progress.get? u = some (.done digest) ↔ s.progress.get? u = some (.done digest) := by
  refine ⟨done_of_start, fun h => ?_⟩
  have hother : ¬ t.Same u := fun hs => by simp [← PathTable.get?_congr hs, hnew] at h
  rwa [get?_start_of_not_same hother]

@[simp] theorem stack_finish : (finish t r s).stack = s.stack.tail := by
  cases r <;> rfl

@[simp] theorem traces_finish : (finish t r s).traces = s.traces := by
  cases r <;> rfl

@[simp] theorem disk_finish : (finish t r s).disk = s.disk := by
  cases r <;> rfl

@[simp] theorem graph_finish : (finish t r s).graph = s.graph := by
  cases r <;> rfl

/-- A session has gone on when it ends to bring a target up to date, of which it may have changed the
    trace and the artifact. -/
theorem onward_finish (hnew : s.progress.get? t = none) (h : Onward (start t s) s₁)
    (hprogress : s₂.progress = s₁.progress) (hstack : s₂.stack = s₁.stack)
    (hadded : ∀ {u}, s₁.graph.added.contains u = true → s₂.graph.added.contains u = true)
    (htraces : ∀ {u}, ¬ t.Same u ∨ (∃ cause, r = .error cause) →
      s₂.traces.get? u = s₁.traces.get? u)
    (hdisk : s₁.disk.Rewritten (· = t) s₂.disk) : Onward s (finish t r s₂) := by
  have hfinish : ∀ {u}, ¬ t.Same u →
      (finish t r s₂).progress.get? u = s₁.progress.get? u := fun hu => by
    rw [get?_finish_of_not_same hu, hprogress]
  have hnone : ∀ {u}, t.Same u → s.progress.get? u = none := fun hu =>
    (PathTable.get?_congr hu).symm.trans hnew
  -- What was required before is another target, and what happens to this one does not matter to it.
  have hother : ∀ {u}, s.progress.get? u ≠ none → ¬ t.Same u := fun hu hs => hu (hnone hs)
  constructor
  case progress =>
    intro u p hu
    have hne : ¬ t.Same u := hother (by simp [hu])
    rw [hfinish hne]
    exact h.progress ((get?_start_of_not_same hne).trans hu)
  case started =>
    intro u hu
    by_cases hs : t.Same u
    · rw [get?_finish_of_same hs] at hu
      cases r <;> cases hu
    · rw [hfinish hs] at hu
      exact (get?_start_of_not_same hs).symm.trans (h.started hu)
  case stack => rw [stack_finish, hstack, h.stack]; rfl
  case traces =>
    intro u hu
    rw [traces_finish]
    by_cases hs : t.Same u
    · -- The target is not done now, so it has failed and its trace is the one of before.
      have hr : ∃ cause, r = .error cause := by
        cases r with
        | ok digest =>
          have hdone : (finish t (.ok digest) s₂).Done u := ⟨digest, get?_finish_of_same hs⟩
          exact absurd hdone (hu.resolve_left fun hne => hne (hnone hs))
        | error cause => exact ⟨cause, rfl⟩
      rw [htraces (.inr hr)]
      exact h.traces (.inl (by simp [get?_start_of_same hs]))
    · rw [htraces (.inl hs)]
      refine h.traces (hu.imp (fun hu => (get?_start_of_not_same hs).symm ▸ hu) fun hu hd => hu ?_)
      obtain ⟨digest, hd⟩ := hd
      exact ⟨digest, (hfinish hs).trans hd⟩
  case disk =>
    rw [disk_finish]
    refine (h.disk.mono fun u hu => ?_).trans (hdisk.mono ?_)
    · have hne : ¬ t.Same u := fun hs => by simp [get?_start_of_same hs] at hu
      exact ⟨(get?_start_of_not_same hne).symm.trans hu.1, (hfinish hne).symm ▸ hu.2⟩
    · rintro _ rfl
      exact ⟨hnew, by simp [get?_finish_of_same rfl]⟩
  case added =>
    intro u hu
    rw [graph_finish]
    refine hadded (h.added ?_)
    rw [start, TaskGraph.addTask, FirstSeen.contains_add, hu, Bool.or_true]
  case tasks =>
    intro u hn hu
    rw [graph_finish]
    refine hadded ?_
    by_cases hs : t.Same u
    · refine h.added ?_
      rw [start, TaskGraph.addTask, FirstSeen.contains_add, decide_eq_true hs, Bool.true_or]
    · exact h.tasks ((get?_start_of_not_same hs).trans hn) (hfinish hs ▸ hu)

section

variable (hends : ∀ {s u r s'}, ends s u r s' → Ended s u r s')

include hends

theorem Checks.onward {found : Bool} (h : Checks book ends s deps found s') : Onward s s' :=
  h.keeps (P := Onward s) .refl (fun h ha => h.trans ha.onward) fun h _ hr => h.trans (hends hr).1

theorem Answers.onward {α : Type} {x : Tracked α} {a : α × List Dependency}
    (h : Answers book ends s x before a s') : Onward s s' :=
  h.keeps (P := Onward s) x.asksOnly_true .refl (fun h ha => h.trans ha.onward) fun h _ hr =>
    h.trans (hends hr).1

theorem Unclean.onward {rule : Rule} (h : Unclean book ends t rule s s') : Onward s s' :=
  h.keeps (P := Onward s) .refl (fun h ha => h.trans ha.onward) fun h _ _ hr => h.trans (hends hr).1

/-- Bringing a target up to date ends as every request does. -/
theorem Visits.ended (hnew : s.progress.get? t = none)
    (h : Visits book ends t (start t s) r s') : Ended s t r (finish t r s') := by
  have hsame : (finish t r s').progress.get? t = some (.ofResult r) := get?_finish_of_same rfl
  have hdone : ∀ {s₁}, Onward (start t s) s₁ → s₁ = s' → Onward s (finish t r s') := by
    rintro _ honward rfl
    exact onward_finish hnew honward rfl rfl id (fun _ => rfl) .start
  have hwrite : ∀ {disk : Disk} {c : Content},
      disk.Rewritten (fun u => u = t) (Disk.writeIfChanged t c disk).2 := by
    intro disk c
    refine .write .start ?_ c
    rfl
  cases h with
  | unruled find => exact ⟨hdone .refl rfl, .inr ⟨hsame, Rulebook.isCycle_of_find find⟩⟩
  | clean _ _ _ _ checks aside =>
    exact ⟨hdone ((checks.onward hends).trans aside.onward) rfl, hsame⟩
  | failed _ unclean answers =>
    exact ⟨hdone ((unclean.onward hends).trans (answers.onward hends)) rfl, .inr ⟨hsame, rfl⟩⟩
  | unwritten _ unclean answers =>
    have honward := (unclean.onward hends).trans (answers.onward hends)
    exact ⟨onward_finish hnew honward rfl rfl id (fun _ => rfl) hwrite,
      .inr ⟨hsame, rfl⟩⟩
  | made _ unclean answers _ aside =>
    have honward := (unclean.onward hends).trans (answers.onward hends)
    refine ⟨onward_finish hnew honward aside.progress aside.stack aside.added (fun hu => ?_) ?_, hsame⟩
    · rw [aside.traces]
      exact PathTable.get?_insert_of_not_same (hu.resolve_right fun ⟨_, h⟩ => by cases h)
    · rw [aside.disk]
      exact hwrite

end

/-- A target that is required is done after that or has failed, or it is being brought up to date
    already. -/
theorem ended_of_require (n : Nat) (s : Session) (t : Path) :
    (require book n t).Ends s False (Ended s t) :=
  ends_of_require (fun h => ⟨.refl, h⟩) (fun h => ⟨.refl, .inr ⟨h, rfl⟩⟩)
    (fun h => ⟨.refl, .inl ⟨rfl, h, rfl⟩⟩) (fun hnew h => h.ended id hnew) n s t

/-- What holds of requests that end as every request does, if it holds of those below, holds of all
    requests. -/
theorem ends_of_ended (post : Ending)
    (done : ∀ {s t digest}, s.progress.get? t = some (.done digest) → post s t (.ok digest) s)
    (failed : ∀ {s t}, s.progress.get? t = some .failed →
      post s t (.error (.dependencyFailed t)) s)
    (started : ∀ {s t}, s.progress.get? t = some .started →
      post s t (.error (.cycle (cycleTo s.stack t))) s)
    (visits : ∀ {s t r s'}, s.progress.get? t = none → Ended s t r (finish t r s') →
      Visits book (fun s t r s' => Ended s t r s' ∧ post s t r s') t (start t s) r s' →
        post s t r (finish t r s'))
    (n : Nat) (s : Session) (t : Path) :
    (require book n t).Ends s False fun r s' => Ended s t r s' ∧ post s t r s' :=
  ends_of_require (fun h => ⟨⟨.refl, h⟩, done h⟩) (fun h => ⟨⟨.refl, .inr ⟨h, rfl⟩⟩, failed h⟩)
    (fun h => ⟨⟨.refl, .inl ⟨rfl, h, rfl⟩⟩, started h⟩)
    (fun hnew h =>
      have hended := h.ended And.left hnew
      ⟨hended, visits hnew hended h⟩) n s t

/-! ### What was answered -/

/-- Whether a dependency was answered in a session of some kind, if it is about a file, or is done, if
    it is about a target. -/
def Seen (book : Rulebook) (P : Session → Prop) (s : Session) : Dependency → Prop
  | .content p digest => ∃ s₁, P s₁ ∧ (s₁.disk.read p).toOption.map book.digest = digest
  | .presence p found => ∃ s₁, P s₁ ∧ s₁.disk.isFile p = found
  | .artifact u digest => s.progress.get? u = some (.done digest)

theorem Seen.onward {P : Session → Prop} (h : Seen book P s d) (h' : Onward s s') :
    Seen book P s' d := by
  cases d with
  | content p digest => exact h
  | presence p found => exact h
  | artifact u digest => exact h'.progress h

theorem Seen.mono {P Q : Session → Prop} (h : Seen book P s d) (hP : ∀ {s}, P s → Q s) :
    Seen book Q s d := by
  cases d with
  | content p digest => exact h.imp fun _ h => ⟨hP h.1, h.2⟩
  | presence p found => exact h.imp fun _ h => ⟨hP h.1, h.2⟩
  | artifact u digest => exact h

section

variable {P : Session → Prop} (hends : ∀ {s u r s'}, ends s u r s' → Ended s u r s') (hs : P s)
  (aside : ∀ {s s'}, P s → Aside s s' → P s')

include hends hs aside

/-- A trace that is found to hold is one whose questions were all answered as it says. -/
theorem Checks.seen (h : Checks book ends s deps true s')
    (request : ∀ {s u digest r s'}, P s → .artifact u digest ∈ deps → ends s u r s' → P s') :
    ∀ d ∈ deps, Seen book P s' d := by
  generalize hfound : true = found at h
  induction h with
  | nil => simp
  | content same _ ih =>
    exact List.forall_mem_cons.2 ⟨⟨_, hs, same⟩,
      ih hs (fun hs hu => request hs (List.mem_cons_of_mem _ hu)) hfound⟩
  | presence same _ ih =>
    exact List.forall_mem_cons.2 ⟨⟨_, hs, same⟩,
      ih hs (fun hs hu => request hs (List.mem_cons_of_mem _ hu)) hfound⟩
  | artifact required ha after ih =>
    refine List.forall_mem_cons.2 ⟨?_, ih (aside (request hs List.mem_cons_self required) ha)
      (fun hs hu => request hs (List.mem_cons_of_mem _ hu)) hfound⟩
    exact (ha.onward.trans (after.onward hends)).progress (hends required).2
  | differs => cases hfound
  | differsAfter => cases hfound

/-- The dependencies that a computation leaves are those that were there before and those that were
    answered. -/
theorem Answers.seen {α : Type} {x : Tracked α} {a : α × List Dependency} {asks : Question → Prop}
    (h : Answers book ends s x before a s') (hx : x.AsksOnly asks)
    (request : ∀ {s u r s'}, P s → asks (.artifact u) → ends s u r s' → P s')
    (hbefore : ∀ d ∈ before, Seen book P s d) : ∀ d ∈ a.2, Seen book P s' d := by
  induction h with
  | done => exact fun d hd => hbefore d (List.mem_reverse.1 hd)
  | @readText s s' p next before r after ih =>
    refine ih hs (hx.2 _) fun d hd => ?_
    rcases List.mem_append.1 hd with hd | hd
    · obtain rfl := contentRead?_eq_some (Option.mem_toList.1 hd)
      exact ⟨s, hs, rfl⟩
    · exact hbefore d hd
  | isFile after ih => exact ih hs (hx.2 _) (List.forall_mem_cons.2 ⟨⟨_, hs, rfl⟩, hbefore⟩)
  | need required ha _ ih =>
    refine ih (aside (request hs hx.1 required) ha) (hx.2 _) (List.forall_mem_cons.2 ⟨?_, ?_⟩)
    · exact ha.onward.progress (hends required).2
    · exact fun d hd => (hbefore d hd).onward ((hends required).1.trans ha.onward)
  | needRefused required _ ih =>
    exact ih (request hs hx.1 required) (hx.2 _) fun d hd => (hbefore d hd).onward (hends required).1
  | artifact required ha _ ih =>
    refine ih (aside (request hs hx.1 required) ha) (hx.2 _) (List.forall_mem_cons.2 ⟨?_, ?_⟩)
    · exact ha.onward.progress (hends required).2
    · exact fun d hd => (hbefore d hd).onward ((hends required).1.trans ha.onward)
  | artifactRefused required _ ih =>
    exact ih (request hs hx.1 required) (hx.2 _) fun d hd => (hbefore d hd).onward (hends required).1
  | count _ ih => exact ih hs (hx _) hbefore
  | tell ha _ ih => exact ih (aside hs ha) hx fun d hd => (hbefore d hd).onward ha.onward

end

/-- The dependencies that a computation leaves are about what it asks for, and those on targets are what
    requests have ended with. -/
theorem Answers.asked {α : Type} {x : Tracked α} {a : α × List Dependency} {asks : Question → Prop}
    (h : Answers book ends s x before a s') (hx : x.AsksOnly asks) (hd : d ∈ a.2) :
    d ∈ before ∨ asks d.question ∧
      ∀ u digest, d = .artifact u digest → ∃ s s', ends s u (.ok digest) s' := by
  have hneeded : ∀ {u : Path} {digest : String} {before : List Dependency} {s s'},
      asks (.artifact u) → ends s u (.ok digest) s' → (d ∈ .artifact u digest :: before ∨
        asks d.question ∧ ∀ u digest, d = .artifact u digest → ∃ s s', ends s u (.ok digest) s') →
      d ∈ before ∨ asks d.question ∧
        ∀ u digest, d = .artifact u digest → ∃ s s', ends s u (.ok digest) s' := by
    intro u digest before s s' hasks required h
    rcases h with hd | h
    · rcases List.mem_cons.1 hd with rfl | hd
      · refine .inr ⟨hasks, fun v digest' he => ?_⟩
        obtain ⟨rfl, rfl⟩ := Dependency.artifact.inj he
        exact ⟨s, s', required⟩
      · exact .inl hd
    · exact .inr h
  induction h with
  | done => exact .inl (List.mem_reverse.1 hd)
  | readText _ ih =>
    rcases ih (hx.2 _) hd with hd | h
    · rcases List.mem_append.1 hd with hd | hd
      · obtain rfl := contentRead?_eq_some (Option.mem_toList.1 hd)
        exact .inr ⟨hx.1, by simp⟩
      · exact .inl hd
    · exact .inr h
  | isFile _ ih =>
    rcases ih (hx.2 _) hd with hd | h
    · rcases List.mem_cons.1 hd with rfl | hd
      · exact .inr ⟨hx.1, by simp⟩
      · exact .inl hd
    · exact .inr h
  | need required _ _ ih => exact hneeded hx.1 required (ih (hx.2 _) hd)
  | needRefused _ _ ih => exact ih (hx.2 _) hd
  | artifact required _ _ ih => exact hneeded hx.1 required (ih (hx.2 _) hd)
  | artifactRefused _ _ ih => exact ih (hx.2 _) hd
  | count _ ih => exact ih (hx _) hd
  | tell _ _ ih => exact ih hx hd

/-! ### Requests one after another -/

/-- The sessions that requests lead to which are made one after another, for targets that are
    `asked` for. -/
inductive Served (book : Rulebook) (asked : Path → Prop) (s : Session) : Session → Prop
  | start : Served book asked s s
  | require {s₁ s₂ : Session} {t : Path} {n : Nat} {r : Except Failure String}
      (h : Served book asked s s₁) (ht : asked t)
      (run : Session.require book n t s₁ = some (r, s₂)) : Served book asked s s₂
  | aside {s₁ s₂ : Session} (h : Served book asked s s₁) (ha : Aside s₁ s₂) :
      Served book asked s s₂

theorem Served.onward {asked : Path → Prop} (h : Served book asked s s') : Onward s s' := by
  induction h with
  | start => exact .refl
  | require _ _ run ih => exact ih.trans ((ended_of_require _ _ _).1 _ _ run).1
  | aside _ ha ih => exact ih.trans ha.onward

theorem Served.mono {asked asked' : Path → Prop} (h : Served book asked s s')
    (ha : ∀ t, asked t → asked' t) : Served book asked' s s' := by
  induction h with
  | start => exact .start
  | require _ ht run ih => exact ih.require (ha _ ht) run
  | aside _ ha' ih => exact ih.aside ha'

theorem Served.trans {asked : Path → Prop} (h : Served book asked s s')
    (h' : Served book asked s' s'') : Served book asked s s'' := by
  induction h' with
  | start => exact h
  | require _ ht run ih => exact ih.require ht run
  | aside _ ha ih => exact ih.aside ha

/-- Several targets are required one after another. Each of them is done after that, or it is among
    those that failed. -/
theorem requireAll_served {n : Nat} {ts : List Path} :
    (requireAll book n ts).Ends s False fun failed s' => Served book (· ∈ ts) s s' ∧
      ∀ t ∈ ts, (∃ cause, (t, cause) ∈ failed) ∨ s'.Done t := by
  induction ts generalizing s with
  | nil => exact .pure ⟨.start, by simp⟩
  | cons t ts ih =>
    refine SessionM.Ends.bind .of_modify fun _ s₁ h => ?_
    have ha : Aside s s₁ := h ▸ ⟨⟨rfl, rfl, rfl, rfl⟩, id⟩
    have hrun : (require book n t).Ends s₁ False fun r s₂ =>
        Session.require book n t s₁ = some (r, s₂) := ⟨fun _ _ h => h, fun h => h.elim⟩
    refine hrun.bind fun r s₂ run => ?_
    have hfirst : Served book (· ∈ t :: ts) s s₂ :=
      (Served.start.aside ha).require List.mem_cons_self run
    have hmore : ∀ {s₃ s₄}, Served book (· ∈ ts) s₃ s₄ → Served book (· ∈ t :: ts) s₃ s₄ :=
      fun h => h.mono fun u hu => List.mem_cons_of_mem _ hu
    cases r with
    | ok digest =>
      refine ih.mono fun failed s₃ h => ⟨hfirst.trans (hmore h.1), ?_⟩
      have hdone : s₂.Done t := ⟨digest, ((ended_of_require _ _ _).1 _ _ run).2⟩
      exact List.forall_mem_cons.2 ⟨.inr (h.1.onward.done hdone), h.2⟩
    | error cause =>
      refine tell_aside.bind fun _ s₃ ha' => ih.bind fun failed s₄ h => .pure ⟨?_, ?_⟩
      · exact (hfirst.aside ha').trans (hmore h.1)
      · refine List.forall_mem_cons.2 ⟨.inl ⟨cause, List.mem_cons_self⟩, fun u hu => ?_⟩
        exact (h.2 u hu).imp_left fun ⟨c, hc⟩ => ⟨c, List.mem_cons_of_mem _ hc⟩

end Session

end ImportIndex
