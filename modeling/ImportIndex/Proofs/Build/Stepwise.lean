import ImportIndex.Proofs.Build.Moves

/-!
# A session step by step

Requests are nested: while a target is brought up to date, its trace is checked and its rule is run, and
both may require other targets, whatever comes of that. Here a session goes on in single steps
(`Session.Step`), with the targets that are being brought up to date in *frames*, the innermost first,
each at the stage it has come to (`Session.Stage`), so that one can stop at any moment
(`Session.Moment`) and look. The rules, the traces and the files are arbitrary. What is done from outside
meanwhile is a parameter (`Session.Outside`): which targets may be required, and what may be changed.

All that a session does is done in such steps:

* `leads_of_require`: a request that is answered is a walk from the question to the answer. One that is
  not, as it was not followed deep enough, is a walk to a moment with that many more frames;
* `leads_of_requireAll`, `Requests.leads`: so are requests that are made one after another.

A moment that is not at rest has a next one, which can be computed (`Moment.next?`).
-/

namespace ImportIndex

namespace Session

/-- How far bringing a target up to date has come. -/
inductive Stage where
  /-- Nothing was done yet. -/
  | begun
  /-- Its trace, with this digest of the artifact, is checked. These questions are still to be asked. -/
  | checking (rule : Rule) (output : String) (deps : List Dependency)
  /-- It is not clean, and its rule is to be run. -/
  | unclean (rule : Rule)
  /-- Its rule runs: this is what it still has to do, after these dependencies. -/
  | running (rule : Rule) (x : Tracked (Except Failure Content)) (before : List Dependency)
  /-- It ends with this result. -/
  | ending (r : Except Failure String)

/-- What begins in a step. -/
inductive Mark where
  /-- A target is started. -/
  | starts (t : Path)
  /-- The rule of a target begins to run. -/
  | runs (t : Path)

namespace Mark

/-- The target that a mark is about. -/
def target : Mark → Path
  | starts t => t
  | runs t => t

/-- Whether the same begins. -/
def Same : Mark → Mark → Prop
  | starts t, starts u => t.Same u
  | runs t, runs u => t.Same u
  | _, _ => False

theorem Same.target {a b : Mark} (h : a.Same b) : a.target.Same b.target := by
  cases a <;> cases b <;> first | exact h | exact h.elim

end Mark

/-- Whether a trace says how the artifact of a target is, by this rule. -/
def Fits (book : Rulebook) (s : Session) (t : Path) (rule : Rule) (trace : Trace) : Prop :=
  s.traces.get? t = some trace ∧ trace.rule = rule.name ∧
    (s.disk.read t).toOption.map book.digest = some trace.output

namespace Stage

/-- Whether it takes the answer to a request for this target to go on. -/
inductive Asks : Stage → Path → Prop
  | check {rule output u digest rest} :
      Asks (.checking rule output (.artifact u digest :: rest)) u
  | need {rule u next before} : Asks (.running rule (.need u next) before) u
  | artifact {rule u next before} : Asks (.running rule (.artifact u next) before) u

/-- Whether the rule of the target has not run yet. -/
def IsEarly : Stage → Prop
  | begun | checking .. | unclean _ => True
  | running .. | ending _ => False

/-- How a stage of a target goes on by itself, with what begins. -/
inductive Goes (book : Rulebook) (t : Path) :
    Session → Stage → List Mark → Session → Stage → Prop
  | unruled {s cause} (find : book.find t = .error cause) :
      Goes book t s .begun [] s (.ending (.error cause))
  | look {s rule trace} (find : book.find t = .ok rule) (fits : s.Fits book t rule trace) :
      Goes book t s .begun [] s (.checking rule trace.output trace.deps)
  | changed {s rule} (find : book.find t = .ok rule) (fits : ∀ trace, ¬ s.Fits book t rule trace) :
      Goes book t s .begun [] s (.unclean rule)
  | content {s rule output p digest rest}
      (same : (s.disk.read p).toOption.map book.digest = digest) :
      Goes book t s (.checking rule output (.content p digest :: rest)) []
        s (.checking rule output rest)
  | otherContent {s rule output p digest rest}
      (differs : (s.disk.read p).toOption.map book.digest ≠ digest) :
      Goes book t s (.checking rule output (.content p digest :: rest)) [] s (.unclean rule)
  | presence {s rule output p found rest} (same : s.disk.isFile p = found) :
      Goes book t s (.checking rule output (.presence p found :: rest)) []
        s (.checking rule output rest)
  | otherPresence {s rule output p found rest} (differs : s.disk.isFile p ≠ found) :
      Goes book t s (.checking rule output (.presence p found :: rest)) [] s (.unclean rule)
  | clean {s rule output} : Goes book t s (.checking rule output []) [] s (.ending (.ok output))
  | run {s rule} : Goes book t s (.unclean rule) [.runs t] s (.running rule (rule.recipe t).run [])
  | readText {s rule p next before} : Goes book t s (.running rule (.readText p next) before) []
      s (.running rule (next ((s.disk.read p).bind textOf))
        ((contentRead? book p (s.disk.read p)).toList ++ before))
  | isFile {s rule p next before} : Goes book t s (.running rule (.isFile p next) before) []
      s (.running rule (next (s.disk.isFile p)) (.presence p (s.disk.isFile p) :: before))
  | count {s rule next before} : Goes book t s (.running rule (.count next) before) []
      s (.running rule (next before.length) before)
  | tell {s rule event next before} : Goes book t s (.running rule (.tell event next) before) []
      s (.running rule next before)
  | failed {s rule cause before} : Goes book t s (.running rule (.done (.error cause)) before) []
      s (.ending (.error (.ruleFailed t cause)))
  | unwritten {s rule content before fault}
      (write : (Disk.writeIfChanged t content s.disk).1 = .error fault) :
      Goes book t s (.running rule (.done (.ok content)) before) []
        { s with disk := (Disk.writeIfChanged t content s.disk).2 }
        (.ending (.error (.writeArtifact t fault)))
  | made {s rule content before written}
      (write : (Disk.writeIfChanged t content s.disk).1 = .ok written) :
      Goes book t s (.running rule (.done (.ok content)) before) []
        { s with
          disk := (Disk.writeIfChanged t content s.disk).2
          traces := s.traces.insert t
            { rule := rule.name, output := book.digest content, deps := before.reverse } }
        (.ending (.ok (book.digest content)))

/-- How a stage goes on with the answer to its request. -/
inductive Resumes (s : Session) : Except Failure String → Stage → Stage → Prop
  | same {rule output u digest rest} :
      Resumes s (.ok digest) (.checking rule output (.artifact u digest :: rest))
        (.checking rule output rest)
  | differs {r rule output u digest rest} (differs : r ≠ .ok digest) :
      Resumes s r (.checking rule output (.artifact u digest :: rest)) (.unclean rule)
  | need {rule u digest next before} : Resumes s (.ok digest) (.running rule (.need u next) before)
      (.running rule (next (.ok ())) (.artifact u digest :: before))
  | needRefused {rule u cause next before} :
      Resumes s (.error cause) (.running rule (.need u next) before)
        (.running rule (next (.error cause)) before)
  | artifact {rule u digest next before} :
      Resumes s (.ok digest) (.running rule (.artifact u next) before)
        (.running rule (next ((s.disk.readText u).mapError (.readArtifact u)))
          (.artifact u digest :: before))
  | artifactRefused {rule u cause next before} :
      Resumes s (.error cause) (.running rule (.artifact u next) before)
        (.running rule (next (.error cause)) before)

end Stage

/-- What a session is about to do. -/
inductive Now where
  /-- The innermost target goes on, or nothing is under way. -/
  | working
  /-- This target is required. -/
  | asking (t : Path)
  /-- A request is answered. -/
  | answered (r : Except Failure String)

/-- A moment of a session. -/
structure Moment where
  /-- The session. -/
  session : Session
  /-- The targets that are being brought up to date, the innermost first, each with its stage. -/
  frames : List (Path × Stage)
  /-- What is next. -/
  now : Now

/-- What may be done to a session from outside. -/
structure Outside where
  /-- Whether a target may be required. -/
  requires : Path → Prop
  /-- Whether the session may be changed so, at any moment. -/
  changes : Session → Session → Prop
  /-- How far the targets have come is not changed. -/
  leaves : ∀ {s s'}, changes s s' → s'.progress = s.progress ∧ s'.stack = s.stack

/-- These targets may be required, and nothing is changed. -/
def Outside.requests (targets : List Path) : Outside where
  requires t := t ∈ targets
  changes _ _ := False
  leaves := False.elim

/-- A step of a session, with what begins. -/
inductive Step (book : Rulebook) (o : Outside) : Moment → List Mark → Moment → Prop
  | aside {s s' frames now} (same : Alike s s') : Step book o ⟨s, frames, now⟩ [] ⟨s', frames, now⟩
  | change {s s' frames now} (h : o.changes s s') : Step book o ⟨s, frames, now⟩ [] ⟨s', frames, now⟩
  | request {s t} (h : o.requires t) : Step book o ⟨s, [], .working⟩ [] ⟨s, [], .asking t⟩
  | reply {s r} : Step book o ⟨s, [], .answered r⟩ [] ⟨s, [], .working⟩
  | done {s frames t digest} (h : s.progress.get? t = some (.done digest)) :
      Step book o ⟨s, frames, .asking t⟩ [] ⟨s, frames, .answered (.ok digest)⟩
  | failed {s frames t} (h : s.progress.get? t = some .failed) :
      Step book o ⟨s, frames, .asking t⟩ [] ⟨s, frames, .answered (.error (.dependencyFailed t))⟩
  | cycle {s frames t} (h : s.progress.get? t = some .started) :
      Step book o ⟨s, frames, .asking t⟩ []
        ⟨s, frames, .answered (.error (.cycle (cycleTo s.stack t)))⟩
  | start {s frames t} (h : s.progress.get? t = none) : Step book o ⟨s, frames, .asking t⟩ [.starts t]
      ⟨Session.start t s, (t, .begun) :: frames, .working⟩
  | go {s s' t stage stage' marks frames} (h : Stage.Goes book t s stage marks s' stage') :
      Step book o ⟨s, (t, stage) :: frames, .working⟩ marks ⟨s', (t, stage') :: frames, .working⟩
  | ask {s t stage u frames} (h : Stage.Asks stage u) :
      Step book o ⟨s, (t, stage) :: frames, .working⟩ [] ⟨s, (t, stage) :: frames, .asking u⟩
  | resume {s t stage stage' r frames} (h : Stage.Resumes s r stage stage') :
      Step book o ⟨s, (t, stage) :: frames, .answered r⟩ [] ⟨s, (t, stage') :: frames, .working⟩
  | finish {s t r frames} : Step book o ⟨s, (t, .ending r) :: frames, .working⟩ []
      ⟨Session.finish t r s, frames, .answered r⟩

/-- Steps one after another, with what begins on the way. -/
inductive Walk (book : Rulebook) (o : Outside) (m : Moment) : List Mark → Moment → Prop
  | refl : Walk book o m [] m
  | tail {marks more m₁ m₂} (before : Walk book o m marks m₁) (last : Step book o m₁ more m₂) :
      Walk book o m (marks ++ more) m₂

/-- Whether a walk leads from one moment to another. -/
def Leads (book : Rulebook) (o : Outside) (m m' : Moment) : Prop := ∃ marks, Walk book o m marks m'

variable {book : Rulebook} {o : Outside} {s s' : Session} {t : Path} {rule : Rule}
  {m m' m₁ m₂ : Moment} {marks more : List Mark} {frames : List (Path × Stage)} {stage : Stage}

theorem Walk.single (h : Step book o m marks m') : Walk book o m marks m' := by
  simpa using Walk.refl.tail h

theorem Walk.trans (h : Walk book o m marks m₁) (h' : Walk book o m₁ more m₂) :
    Walk book o m (marks ++ more) m₂ := by
  induction h' with
  | refl => simpa using h
  | tail _ last ih =>
    rw [← List.append_assoc]
    exact ih.tail last

namespace Leads

theorem refl : Leads book o m m := ⟨_, .refl⟩

theorem step (h : Leads book o m m₁) (last : Step book o m₁ marks m₂) : Leads book o m m₂ := by
  obtain ⟨before, h⟩ := h
  exact ⟨_, h.tail last⟩

theorem trans (h : Leads book o m m₁) (h' : Leads book o m₁ m₂) : Leads book o m m₂ := by
  obtain ⟨before, h⟩ := h
  obtain ⟨after, h'⟩ := h'
  exact ⟨_, h.trans h'⟩

end Leads

/-! ### Sessions walk -/

section

variable {req : Require} {must : Prop}

/-- The requests that are made while a target is brought up to date go on with a walk to them. -/
structure Serves (book : Rulebook) (o : Outside) (m : Moment) (req : Require) (t : Path)
    (frames : List (Path × Stage)) (must : Prop) : Prop where
  /-- They lead from the question to the answer. -/
  request : ∀ {s stage} u, Leads book o m ⟨s, (t, stage) :: frames, .asking u⟩ →
    (req u).Ends s must fun r s' => Leads book o m ⟨s', (t, stage) :: frames, .answered r⟩

/-- What is told, counted and drawn is aside. -/
theorem Leads.aside {α : Type} {x : SessionM α} {now : Now}
    (h : Leads book o m ⟨s, frames, now⟩) (hx : x.Ends s must fun _ s' => Alike s s') :
    x.Ends s must fun _ s' => Leads book o m ⟨s', frames, now⟩ :=
  hx.mono fun _ _ same => h.step (.aside same)

namespace Serves

variable (h : Serves book o m req t frames must)

include h

/-- A target is required, and the stage that asked for it is given the answer. -/
theorem ask {u : Path} (hs : Leads book o m ⟨s, (t, stage) :: frames, .working⟩) (hasks : stage.Asks u) :
    (req u).Ends s must fun r s' => Leads book o m ⟨s', (t, stage) :: frames, .answered r⟩ :=
  h.request u (hs.step (.ask hasks))

theorem holds {output : String} {d : Dependency} {rest : List Dependency}
    (hs : Leads book o m ⟨s, (t, .checking rule output (d :: rest)) :: frames, .working⟩) :
    (holds book req t d).Ends s must fun ok s' => Leads book o m
      ⟨s', (t, if ok then .checking rule output rest else .unclean rule) :: frames, .working⟩ := by
  cases d with
  | content p digest =>
    refine digestOf_course.bind fun found _ hfound => .pure ?_
    obtain ⟨hfound, rfl⟩ := hfound
    by_cases hd : found = digest
    · rw [if_pos (beq_iff_eq.2 hd)]
      exact hs.step (.go (.content (hfound.trans hd)))
    · rw [if_neg (by simpa using hd)]
      exact hs.step (.go (.otherContent (hfound ▸ hd)))
  | presence p there =>
    refine SessionM.Ends.bind .of_get fun _ _ hget => .pure ?_
    obtain ⟨rfl, rfl⟩ := hget
    by_cases hd : s.disk.isFile p = there
    · rw [if_pos (beq_iff_eq.2 hd)]
      exact hs.step (.go (.presence hd))
    · rw [if_neg (by simpa using hd)]
      exact hs.step (.go (.otherPresence hd))
  | artifact u digest =>
    refine (h.ask hs .check).bind fun r s₁ hr => ?_
    cases r with
    | error cause =>
      have hdiffers := hr.step (.resume (.differs (by simp)))
      exact (Leads.aside hdiffers tell_ends).bind fun _ _ h => .pure h
    | ok current =>
      refine (Leads.aside hr addNeed_ends).bind fun _ s₂ hr => .pure ?_
      by_cases hd : current = digest
      · rw [if_pos (beq_iff_eq.2 hd)]
        exact hr.step (.resume (hd ▸ .same))
      · rw [if_neg (by simpa using hd)]
        exact hr.step (.resume (.differs (by simpa using hd)))

theorem allHold {output : String} {deps : List Dependency}
    (hs : Leads book o m ⟨s, (t, .checking rule output deps) :: frames, .working⟩) :
    (allHold book req t deps).Ends s must fun ok s' => Leads book o m
      ⟨s', (t, if ok then .checking rule output [] else .unclean rule) :: frames, .working⟩ := by
  induction deps generalizing s with
  | nil => exact .pure hs
  | cons d deps ih =>
    refine (h.holds hs).bind fun ok s₁ hs₁ => ?_
    cases ok with
    | true => exact ih hs₁
    | false => exact (Leads.aside hs₁ tell_ends).bind fun _ _ h => .pure h

theorem clean? (hfind : book.find t = .ok rule)
    (hs : Leads book o m ⟨s, (t, .begun) :: frames, .working⟩) :
    (clean? book req rule t).Ends s must fun found s' => Leads book o m
      ⟨s', (t, match found with
        | some digest => .ending (.ok digest)
        | none => .unclean rule) :: frames, .working⟩ := by
  refine SessionM.Ends.bind .of_get fun _ _ hget => ?_
  obtain ⟨rfl, rfl⟩ := hget
  -- A trace that does not fit is none.
  have hchanged : (∀ trace, ¬ s.Fits book t rule trace) →
      Leads book o m ⟨s, (t, .unclean rule) :: frames, .working⟩ := fun hfits =>
    hs.step (.go (.changed hfind hfits))
  cases htrace : s.traces.get? t with
  | none => exact .pure (hchanged fun trace hfits => by simp [hfits.1] at htrace)
  | some trace =>
    have honly : ∀ {trace'}, s.Fits book t rule trace' → trace' = trace := fun hfits =>
      Option.some.inj (hfits.1.symm.trans htrace)
    simp only
    split
    · next hname =>
      refine (Leads.aside (hchanged fun _ hfits => hname ?_) tell_ends).bind fun _ _ h => .pure h
      exact honly hfits ▸ hfits.2.1
    · next hname =>
      refine digestOf_course.bind fun found _ hfound => ?_
      obtain ⟨rfl, rfl⟩ := hfound
      split
      · next houtput =>
        refine (Leads.aside (hchanged fun _ hfits => houtput ?_) tell_ends).bind fun _ _ h => .pure h
        exact honly hfits ▸ hfits.2.2
      · next houtput =>
        have hlook := hs.step (.go (.look hfind ⟨htrace, not_not.1 hname, not_not.1 houtput⟩))
        refine (h.allHold hlook).bind fun ok s₁ hs₁ => ?_
        cases ok with
        | true => exact .pure (hs₁.step (.go .clean))
        | false => exact .pure hs₁

theorem answer {x : Tracked (Except Failure Content)} {before : List Dependency}
    (hs : Leads book o m ⟨s, (t, .running rule x before) :: frames, .working⟩) :
    (answer book req t x before).Ends s must fun a s' => Leads book o m
      ⟨s', (t, .running rule (.done a.1) a.2.reverse) :: frames, .working⟩ := by
  -- A request leaves its dependency, or the cause why there is none.
  have hneed : ∀ {s stage u}, Leads book o m ⟨s, (t, stage) :: frames, .working⟩ → stage.Asks u →
      (needFor req t u).Ends s must fun r s' => match r with
        | .ok d => ∃ digest, d = .artifact u digest ∧
            Leads book o m ⟨s', (t, stage) :: frames, .answered (.ok digest)⟩
        | .error cause => Leads book o m ⟨s', (t, stage) :: frames, .answered (.error cause)⟩ := by
    intro s stage u hs hasks
    refine (h.ask hs hasks).bind fun r s₁ hr => ?_
    cases r with
    | error cause => exact .pure hr
    | ok digest => exact (Leads.aside hr addNeed_ends).bind fun _ _ hr => .pure ⟨digest, rfl, hr⟩
  induction x generalizing s before with
  | done a => exact .pure (by simpa using hs)
  | readText p next ih =>
    refine SessionM.Ends.bind .of_get fun _ _ hget => ?_
    obtain ⟨rfl, rfl⟩ := hget
    exact ih _ (hs.step (.go .readText))
  | isFile p next ih =>
    refine SessionM.Ends.bind .of_get fun _ _ hget => ?_
    obtain ⟨rfl, rfl⟩ := hget
    exact ih _ (hs.step (.go .isFile))
  | need u next ih =>
    rw [Session.answer]
    refine (hneed hs .need).bind fun r s₁ hr => ?_
    cases r with
    | error cause => exact ih _ (hr.step (.resume .needRefused))
    | ok d =>
      obtain ⟨digest, rfl, hr⟩ := hr
      exact ih _ (hr.step (.resume .need))
  | artifact u next ih =>
    rw [Session.answer]
    refine (hneed hs .artifact).bind fun r s₁ hr => ?_
    cases r with
    | error cause => exact ih _ (hr.step (.resume .artifactRefused))
    | ok d =>
      obtain ⟨digest, rfl, hr⟩ := hr
      refine SessionM.Ends.bind .of_get fun _ _ hget => ?_
      obtain ⟨rfl, rfl⟩ := hget
      exact ih _ (hr.step (.resume .artifact))
  | count next ih => exact ih _ (hs.step (.go .count))
  | tell event next ih =>
    exact (Leads.aside (hs.step (.go .tell)) tell_ends).bind fun _ _ h => ih h

theorem make (hs : Leads book o m ⟨s, (t, .unclean rule) :: frames, .working⟩) :
    (make book req rule t).Ends s must fun r s' =>
      Leads book o m ⟨s', (t, .ending r) :: frames, .working⟩ := by
  refine (h.answer (hs.step (.go .run))).bind fun a s₁ hs₁ => ?_
  obtain ⟨result, deps⟩ := a
  cases result with
  | error cause => exact .pure (hs₁.step (.go .failed))
  | ok content =>
    have hwrite : (writeArtifact t content).Ends s₁ must fun r s' =>
        (Disk.writeIfChanged t content s₁.disk).1 = r ∧
          s' = { s₁ with disk := (Disk.writeIfChanged t content s₁.disk).2 } :=
      .of_eq_some rfl ⟨rfl, rfl⟩
    refine hwrite.bind fun r s₂ hs₂ => ?_
    obtain ⟨hr, rfl⟩ := hs₂
    cases r with
    | error fault => exact .pure (hs₁.step (.go (.unwritten hr)))
    | ok written =>
      have hmade := hs₁.step (.go (.made hr))
      rw [List.reverse_reverse] at hmade
      refine SessionM.Ends.bind .of_modify fun _ s₃ heq => ?_
      have hs₃ : Leads book o m ⟨s₃, (t, .ending (.ok (book.digest content))) :: frames, .working⟩ :=
        hmade.step (.aside (heq ▸ ⟨rfl, rfl, rfl, rfl⟩))
      cases written with
      | true => exact .pure hs₃
      | false => exact (Leads.aside hs₃ tell_ends).bind fun _ _ h => .pure h

theorem bringUpToDate (hfind : book.find t = .ok rule)
    (hs : Leads book o m ⟨s, (t, .begun) :: frames, .working⟩) :
    (bringUpToDate book req rule t).Ends s must fun r s' =>
      Leads book o m ⟨s', (t, .ending r) :: frames, .working⟩ := by
  refine (h.clean? hfind hs).bind fun found s₁ hs₁ => ?_
  cases found with
  | none => exact (Leads.aside hs₁ tell_ends).bind fun _ _ hs₂ => h.make hs₂
  | some digest =>
    refine SessionM.Ends.bind .of_modify fun _ s₂ hs₂ => ?_
    exact (Leads.aside (hs₁.step (.aside (hs₂ ▸ ⟨rfl, rfl, rfl, rfl⟩))) tell_ends).bind
      fun _ _ h => .pure h

end Serves

end

/-- All that a session does when a target is required is made of steps, whether the request is answered
    or not: where no walk leads to more than this many frames, it is. -/
theorem leads_of_require (n : Nat) (h : Leads book o m ⟨s, frames, .asking t⟩) :
    (require book n t).Ends s (∀ m', Leads book o m m' → m'.frames.length < frames.length + n)
      fun r s' => Leads book o m ⟨s', frames, .answered r⟩ := by
  induction n generalizing s frames t with
  | zero => exact ⟨fun _ _ h => (by cases h), fun hfew => absurd (hfew _ h) (Nat.lt_irrefl _)⟩
  | succ n ih =>
    refine SessionM.Ends.bind .of_get fun _ _ hget => ?_
    obtain ⟨rfl, rfl⟩ := hget
    cases hp : s.progress.get? t with
    | some p =>
      cases p with
      | done digest => exact .pure (h.step (.done hp))
      | failed => exact .pure (h.step (.failed hp))
      | started => exact .pure (h.step (.cycle hp))
    | none =>
      -- The requests below are followed one level less, with one frame more.
      have hserves : Serves book o m (require book n) t frames
          (∀ m', Leads book o m m' → m'.frames.length < frames.length + (n + 1)) := by
        refine ⟨fun {s stage} u hu => ?_⟩
        have hbelow := ih hu
        rw [List.length_cons, Nat.succ_add_eq_add_succ] at hbelow
        exact hbelow
      refine SessionM.Ends.bind .of_modify fun _ s₁ hs₁ => ?_
      subst hs₁
      have hbegun := h.step (.start hp)
      have hfinish : ∀ r s₂, Leads book o m ⟨s₂, (t, .ending r) :: frames, .working⟩ →
          (do
            modify (finish t r)
            return r : SessionM (Except Failure String)).Ends s₂
              (∀ m', Leads book o m m' → m'.frames.length < frames.length + (n + 1))
              fun r s' => Leads book o m ⟨s', frames, .answered r⟩ := fun r s₂ hs₂ =>
        SessionM.Ends.bind .of_modify fun _ s₃ hs₃ => .pure (hs₃ ▸ hs₂.step .finish)
      cases hfind : book.find t with
      | error cause => exact SessionM.Ends.bind (.pure (hbegun.step (.go (.unruled hfind)))) hfinish
      | ok rule => exact (hserves.bringUpToDate hfind hbegun).bind hfinish

/-- All that a session does when these targets are required one after another is made of steps. -/
theorem leads_of_requireAll {n : Nat} {targets : List Path} (ht : ∀ t ∈ targets, o.requires t)
    (h : Leads book o m ⟨s, [], .working⟩) :
    (requireAll book n targets).Ends s (∀ m', Leads book o m m' → m'.frames.length < n)
      fun _ s' => Leads book o m ⟨s', [], .working⟩ := by
  induction targets generalizing s with
  | nil => exact .pure h
  | cons t targets ih =>
    rw [List.forall_mem_cons] at ht
    refine SessionM.Ends.bind .of_modify fun _ s₁ hs₁ => ?_
    have hs₁ : Leads book o m ⟨s₁, [], .working⟩ := h.step (.aside (hs₁ ▸ ⟨rfl, rfl, rfl, rfl⟩))
    have hrequire := leads_of_require n (hs₁.step (.request ht.1))
    rw [List.length_nil, Nat.zero_add] at hrequire
    refine hrequire.bind fun r s₂ hs₂ => ?_
    cases r with
    | ok digest => exact ih ht.2 (hs₂.step .reply)
    | error cause =>
      refine (Leads.aside (hs₂.step .reply) tell_ends).bind fun _ s₃ hs₃ => ?_
      exact (ih ht.2 hs₃).bind fun _ _ hs₄ => .pure hs₄

/-- The target whose answer a stage takes to go on, if it takes one. -/
def Stage.asks? : Stage → Option Path
  | .checking _ _ (.artifact u _ :: _) => some u
  | .running _ (.need u _) _ => some u
  | .running _ (.artifact u _) _ => some u
  | _ => none

/-- How a stage of a target goes on by itself, if it does. -/
def Stage.next? (book : Rulebook) (t : Path) (s : Session) : Stage → Option (Session × Stage)
  | .begun =>
    match book.find t with
    | .error cause => some (s, .ending (.error cause))
    | .ok rule =>
      match s.traces.get? t with
      | none => some (s, .unclean rule)
      | some trace =>
        if trace.rule = rule.name ∧ (s.disk.read t).toOption.map book.digest = some trace.output then
          some (s, .checking rule trace.output trace.deps)
        else some (s, .unclean rule)
  | .checking _ output [] => some (s, .ending (.ok output))
  | .checking rule output (.content p digest :: rest) =>
    some (s, if (s.disk.read p).toOption.map book.digest = digest then .checking rule output rest
      else .unclean rule)
  | .checking rule output (.presence p found :: rest) =>
    some (s, if s.disk.isFile p = found then .checking rule output rest else .unclean rule)
  | .checking _ _ (.artifact _ _ :: _) => none
  | .unclean rule => some (s, .running rule (rule.recipe t).run [])
  | .running rule x before =>
    match x with
    | .done (.error cause) => some (s, .ending (.error (.ruleFailed t cause)))
    | .done (.ok content) =>
      let written := Disk.writeIfChanged t content s.disk
      match written.1 with
      | .error fault => some ({ s with disk := written.2 }, .ending (.error (.writeArtifact t fault)))
      | .ok _ =>
        let trace := { rule := rule.name, output := book.digest content, deps := before.reverse }
        some ({ s with disk := written.2, traces := s.traces.insert t trace },
          .ending (.ok (book.digest content)))
    | .readText p next => some (s, .running rule (next ((s.disk.read p).bind textOf))
        ((contentRead? book p (s.disk.read p)).toList ++ before))
    | .isFile p next => some (s, .running rule (next (s.disk.isFile p))
        (.presence p (s.disk.isFile p) :: before))
    | .count next => some (s, .running rule (next before.length) before)
    | .tell _ next => some (s, .running rule next before)
    | .need _ _ => none
    | .artifact _ _ => none
  | .ending _ => none

/-- How a stage goes on with the answer to its request, if it has made one. -/
def Stage.resume? (s : Session) (r : Except Failure String) : Stage → Option Stage
  | .checking rule output (.artifact _ digest :: rest) =>
    some (if r = .ok digest then .checking rule output rest else .unclean rule)
  | .running rule (.need u next) before =>
    some (match r with
      | .ok digest => .running rule (next (.ok ())) (.artifact u digest :: before)
      | .error cause => .running rule (next (.error cause)) before)
  | .running rule (.artifact u next) before =>
    some (match r with
      | .ok digest => .running rule (next ((s.disk.readText u).mapError (.readArtifact u)))
          (.artifact u digest :: before)
      | .error cause => .running rule (next (.error cause)) before)
  | _ => none

/-- The next moment, unless the session is at rest. -/
def Moment.next? (book : Rulebook) : Moment → Option Moment
  | ⟨s, frames, .asking t⟩ =>
    match s.progress.get? t with
    | some (.done digest) => some ⟨s, frames, .answered (.ok digest)⟩
    | some .failed => some ⟨s, frames, .answered (.error (.dependencyFailed t))⟩
    | some .started => some ⟨s, frames, .answered (.error (.cycle (cycleTo s.stack t)))⟩
    | none => some ⟨start t s, (t, .begun) :: frames, .working⟩
  | ⟨_, [], .working⟩ => none
  | ⟨s, [], .answered _⟩ => some ⟨s, [], .working⟩
  | ⟨s, (t, stage) :: frames, .answered r⟩ =>
    (stage.resume? s r).map fun stage => ⟨s, (t, stage) :: frames, .working⟩
  | ⟨s, (t, .ending r) :: frames, .working⟩ => some ⟨finish t r s, frames, .answered r⟩
  | ⟨s, (t, stage) :: frames, .working⟩ =>
    match stage.asks? with
    | some u => some ⟨s, (t, stage) :: frames, .asking u⟩
    | none => (stage.next? book t s).map fun n => ⟨n.1, (t, n.2) :: frames, .working⟩

/-- The moment after this many steps, or the one at rest that is reached before. -/
def Moment.after (book : Rulebook) : Nat → Moment → Moment
  | 0, m => m
  | n + 1, m => (m.next? book).elim m (after book n)

end Session

end ImportIndex
