import ImportIndex.Proofs.Build.RootCause

/-!
# With what requests are refused

A request is refused for a reason that comes from somewhere: there is no rule for the target, the target
closes a cycle or has failed before, its artifact cannot be written, or its rule fails. A rule fails on its
own account or for a request of its own. So what is known of the failures of the rules where their requests
are refused in certain ways (`Tracked.FailsAs`) is known of every request, to whatever depth they are
followed (`Refusals.require`), and of all that a build reports (`Refusals.build`).
-/

namespace ImportIndex

namespace Tracked

variable {α β : Type} {refuses : Path → Failure → Prop} {own own' : Failure → Prop}

/-- Whether a computation fails in none but some ways, if its requests are refused in none but some. An
    artifact that was brought up to date may still be refused for not being a text that can be read. -/
def FailsAs (refuses : Path → Failure → Prop) (own : Failure → Prop) :
    Tracked (Except Failure α) → Prop
  | done (.ok _) => True
  | done (.error cause) => own cause
  | readText _ next => ∀ answer, (next answer).FailsAs refuses own
  | isFile _ next => ∀ answer, (next answer).FailsAs refuses own
  | need t next => (∀ a, (next (.ok a)).FailsAs refuses own) ∧
    ∀ cause, refuses t cause → (next (.error cause)).FailsAs refuses own
  | artifact t next => (∀ a, (next (.ok a)).FailsAs refuses own) ∧
    (∀ fault, (next (.error (.readArtifact t fault))).FailsAs refuses own) ∧
    ∀ cause, refuses t cause → (next (.error cause)).FailsAs refuses own
  | count next => ∀ answer, (next answer).FailsAs refuses own
  | tell _ next => next.FailsAs refuses own

/-- What follows a computation has its failures to deal with, and adds its own. -/
theorem FailsAs.bind {x : Tracked (Except Failure α)}
    {next : Except Failure α → Tracked (Except Failure β)} (hx : x.FailsAs refuses own)
    (hok : ∀ a, (next (.ok a)).FailsAs refuses own')
    (herror : ∀ cause, own cause → (next (.error cause)).FailsAs refuses own') :
    (x.bind next).FailsAs refuses own' := by
  induction x with
  | done r =>
    cases r with
    | ok a => exact hok a
    | error cause => exact herror cause hx
  | readText p f ih => exact fun answer => ih answer (hx answer)
  | isFile p f ih => exact fun answer => ih answer (hx answer)
  | need t f ih => exact ⟨fun a => ih _ (hx.1 a), fun cause h => ih _ (hx.2 cause h)⟩
  | artifact t f ih =>
    exact ⟨fun a => ih _ (hx.1 a), fun fault => ih _ (hx.2.1 fault),
      fun cause h => ih _ (hx.2.2 cause h)⟩
  | count f ih => exact fun answer => ih answer (hx answer)
  | tell e f ih => exact ih hx

end Tracked

/-- A recipe fails in none but some ways if its parts do. -/
theorem Recipe.failsAs_bind {α β : Type} {refuses : Path → Failure → Prop} {own : Failure → Prop}
    {x : Recipe α} {f : α → Recipe β} (hx : x.run.FailsAs refuses own)
    (hf : ∀ a, (f a).run.FailsAs refuses own) : (x >>= f).run.FailsAs refuses own :=
  hx.bind hf fun _ h => h

/-! ### Requests -/

namespace Session

variable {book : Rulebook} {ends : Ending} {refuses : Path → Failure → Prop} {own : Failure → Prop}
  {s s' : Session} {t : Path} {r : Except Failure String}

/-- A computation that is answered in a session fails as it does where its requests are refused so. -/
theorem Answers.failsAs {α : Type} {x : Tracked (Except Failure α)} {before deps : List Dependency}
    {cause : Failure} (h : Answers book ends s x before (.error cause, deps) s')
    (hx : x.FailsAs refuses own)
    (hends : ∀ {s u cause s'}, ends s u (.error cause) s' → refuses u cause) : own cause := by
  generalize ha : ((.error cause : Except Failure α), deps) = a at h
  induction h with
  | done =>
    obtain ⟨rfl, -⟩ := Prod.mk.inj ha
    exact hx
  | readText _ ih => exact ih (hx _) ha
  | isFile _ ih => exact ih (hx _) ha
  | need _ _ _ ih => exact ih (hx.1 _) ha
  | needRefused required _ ih => exact ih (hx.2 _ (hends required)) ha
  | @artifact s s₁ s₂ s' u digest next before r _ _ _ ih =>
    refine ih ?_ ha
    -- The artifact is read from the disk as the request left it, and that may fail.
    cases s₂.disk.readText u with
    | ok text => exact hx.1 text
    | error fault => exact hx.2.1 fault
  | artifactRefused required _ ih => exact ih (hx.2.2 _ (hends required)) ha
  | count _ ih => exact ih (hx _) ha
  | tell _ _ ih => exact ih hx ha

/-- A target is refused for lack of a rule, with what its rule fails with, or because its artifact cannot be
    written. -/
theorem Visits.refused {cause : Failure} (h : Visits book ends t s (.error cause) s') :
    book.find t = .error cause ∨
    (∃ rule cause' s₁ deps, book.find t = .ok rule ∧
      Answers book ends s₁ (rule.recipe t).run [] (.error cause', deps) s' ∧
      cause = .ruleFailed t cause') ∨
    ∃ fault, cause = .writeArtifact t fault := by
  cases h with
  | unruled find => exact .inl find
  | failed find _ answers => exact .inr (.inl ⟨_, _, _, _, find, answers, rfl⟩)
  | unwritten _ _ _ write => exact .inr (.inr ⟨_, rfl⟩)

end Session

/-- What is known of the ways in which requests are refused, and of those in which rules fail on their own
    account: enough to know it of all requests, whatever happens in a session. -/
structure Refusals (book : Rulebook) (refuses : Path → Failure → Prop) (own : Failure → Prop) : Prop where
  /-- The target failed before. -/
  before : ∀ t, refuses t (.dependencyFailed t)
  /-- The target closes a cycle. -/
  cycle : ∀ t chain, refuses t (.cycle chain)
  /-- There is no rule for the target. -/
  unruled : ∀ {t cause}, book.find t = .error cause → refuses t cause
  /-- The rule of the target fails. -/
  failed : ∀ t {cause}, own cause → refuses t (.ruleFailed t cause)
  /-- The artifact cannot be written. -/
  unwritten : ∀ t fault, refuses t (.writeArtifact t fault)
  /-- The rules. -/
  rules : ∀ {t rule}, book.find t = .ok rule → (rule.recipe t).run.FailsAs refuses own

namespace Refusals

open Session

variable {book : Rulebook} {refuses : Path → Failure → Prop} {own : Failure → Prop}

/-- Every request is refused so. -/
theorem require (h : Refusals book refuses own) (n : Nat) (s : Session) (t : Path) :
    (Session.require book n t).Ends s False fun r _ => ∀ cause, r = .error cause → refuses t cause := by
  refine @ends_of_require book (fun _ t r _ => ∀ cause, r = .error cause → refuses t cause)
    (fun _ _ hr => by cases hr) (fun _ _ hr => Except.error.inj hr ▸ h.before _)
    (fun _ _ hr => Except.error.inj hr ▸ h.cycle _ _) (fun _ hvisits cause hr => ?_) n s t
  subst hr
  rcases hvisits.refused with hfind | ⟨rule, cause', _, _, hfind, hanswers, rfl⟩ | ⟨fault, rfl⟩
  · exact h.unruled hfind
  · exact h.failed _ (hanswers.failsAs (h.rules hfind) fun hr => hr _ rfl)
  · exact h.unwritten _ _

theorem requireAll (h : Refusals book refuses own) {n : Nat} {ts : List Path} {s : Session} :
    (Session.requireAll book n ts).Ends s False fun failed _ =>
      ∀ e ∈ failed, e.1 ∈ ts ∧ refuses e.1 e.2 := by
  induction ts generalizing s with
  | nil => exact .pure (by simp)
  | cons t ts ih =>
    have hlater : ∀ {s}, (Session.requireAll book n ts).Ends s False fun failed _ =>
        ∀ e ∈ failed, e.1 ∈ t :: ts ∧ refuses e.1 e.2 :=
      ih.mono fun _ _ hfailed e he => ⟨List.mem_cons_of_mem _ (hfailed e he).1, (hfailed e he).2⟩
    refine SessionM.Ends.bind .of_modify fun _ s₁ _ => (h.require n s₁ t).bind fun r s₂ hr => ?_
    cases r with
    | ok digest => exact hlater
    | error cause =>
      exact tell_aside.bind fun _ s₃ _ => hlater.bind fun failed s₄ hfailed =>
        .pure (List.forall_mem_cons.2 ⟨⟨List.mem_cons_self, hr cause rfl⟩, hfailed⟩)

/-- All that a build reports was asked for and refused so. -/
theorem build {engine : Engine} {depth : Nat} {ts : List Path} {disk : Disk} {built : Built}
    (h : Refusals engine.book refuses own) (run : engine.build depth ts disk = some built) :
    ∀ e ∈ built.report.failed, e.1 ∈ ts ∧ refuses e.1 e.2 := by
  obtain ⟨failed, s, hrun, -, hfailed, -⟩ := Engine.exists_of_build_eq_some run
  exact hfailed ▸ h.requireAll.1 _ _ hrun

end Refusals

end ImportIndex
