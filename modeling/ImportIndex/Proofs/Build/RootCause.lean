import ImportIndex.Proofs.Build.History
import ImportIndex.Proofs.Build.Moves

/-!
# Why a build failed

A failure that is passed on holds the one that it came from, down to its root (`Failure.root`). A target
that failed before is refused with no more than that it did (`Failure.Named`), so the root has to be told
where the target fails first.

Rules may be expected to pass on why their requests fail (`Tracked.Candid`). Then the first failure of a
build has a named root, wherever it comes up. If a rule asks for the target, the failure of the rule has
the same root, and so on up to what the build was asked for. If the target is required because a trace
tells of it, its failure is told as an event and goes no further (`Session.Swallowed`): the target that
the trace is about is made anew, and all that its rule is told then is that the other one failed before.

* `Session.blames_of_require`: as long as no failure was swallowed, a request that fails is refused with
  a named one;
* `Engine.named_of_candid`: a build that fails reports a named failure, or it has swallowed one.
-/

namespace ImportIndex

namespace Failure

/-- The failure that this one came from in the end. -/
def root : Failure → Failure
  | ruleFailed _ cause => cause.root
  | needed cause => cause.root
  | cause => cause

/-- Whether the root of the failure is more than that a target failed before. -/
def Named (cause : Failure) : Prop := ∀ t, cause.root ≠ .dependencyFailed t

theorem named_of_isCycle {cause : Failure} (h : cause.isCycle = true) : cause.Named := by
  cases cause <;> simp_all [isCycle, Named, root]

theorem Named.of_root {cause cause' : Failure} (h : cause.Named) (hroot : cause'.root = cause.root) :
    cause'.Named := fun t => hroot ▸ h t

end Failure

/-- Finding no rule has a named cause. -/
theorem Rulebook.named_of_find {book : Rulebook} {t : Path} {cause : Failure}
    (h : book.find t = .error cause) : cause.Named := by
  rw [find] at h
  split at h <;> cases h <;> simp [Failure.Named, Failure.root]

/-! ### Rules that pass failures on -/

namespace Tracked

variable {α β : Type}

/-- Whether a computation is over and has failed with this root. -/
def FailsWith (root : Failure) (x : Tracked (Except Failure α)) : Prop :=
  ∃ cause, x = .done (.error cause) ∧ cause.root = root

/-- Whether a computation tells why it fails. Its own failures are named ones. A request that fails ends
    it with a failure that has the same root, unless it closes a cycle, without which the computation
    may go on. -/
def Candid : Tracked (Except Failure α) → Prop
  | done (.ok _) => True
  | done (.error cause) => cause.Named
  | readText _ next => ∀ answer, (next answer).Candid
  | isFile _ next => ∀ answer, (next answer).Candid
  | need _ next =>
    (∀ a, (next (.ok a)).Candid) ∧ ∀ cause,
      if cause.isCycle then (next (.error cause)).Candid else (next (.error cause)).FailsWith cause.root
  | artifact _ next =>
    (∀ a, (next (.ok a)).Candid) ∧ ∀ cause,
      if cause.isCycle then (next (.error cause)).Candid else (next (.error cause)).FailsWith cause.root
  | count next => ∀ answer, (next answer).Candid
  | tell _ next => next.Candid

theorem FailsWith.candid {cause : Failure} {x : Tracked (Except Failure α)}
    (h : x.FailsWith cause.root) (hcause : cause.Named) : x.Candid := by
  obtain ⟨cause', rfl, hroot⟩ := h
  exact hcause.of_root hroot

/-- A candid computation stays so if it is followed by another one that passes its failures on. -/
theorem Candid.bind {x : Tracked (Except Failure α)}
    {next : Except Failure α → Tracked (Except Failure β)} (hx : x.Candid)
    (hok : ∀ a, (next (.ok a)).Candid)
    (herror : ∀ cause, (next (.error cause)).FailsWith cause.root) : (x.bind next).Candid := by
  have hfails : ∀ {root : Failure} {x : Tracked (Except Failure α)}, x.FailsWith root →
      (x.bind next).FailsWith root := by
    rintro _ _ ⟨cause, rfl, rfl⟩
    exact herror cause
  -- What a failed request leads to is followed in both cases, whether it closes a cycle or not.
  have hrefused : ∀ {γ : Type} {f : Except Failure γ → Tracked (Except Failure α)},
      (∀ answer, (f answer).Candid → ((f answer).bind next).Candid) → (∀ cause,
        if cause.isCycle then (f (.error cause)).Candid else (f (.error cause)).FailsWith cause.root) →
      ∀ cause, if cause.isCycle then ((f (.error cause)).bind next).Candid
        else ((f (.error cause)).bind next).FailsWith cause.root := by
    intro γ f ih h cause
    have hcause := h cause
    split at hcause
    · next hcycle => rw [if_pos hcycle]; exact ih _ hcause
    · next hcycle => rw [if_neg hcycle]; exact hfails hcause
  induction x with
  | done r =>
    cases r with
    | ok a => exact hok a
    | error cause => exact (herror cause).candid hx
  | readText p f ih => exact fun answer => ih answer (hx answer)
  | isFile p f ih => exact fun answer => ih answer (hx answer)
  | need u f ih => exact ⟨fun a => ih _ (hx.1 a), hrefused ih hx.2⟩
  | artifact u f ih => exact ⟨fun a => ih _ (hx.1 a), hrefused ih hx.2⟩
  | count f ih => exact fun answer => ih answer (hx answer)
  | tell e f ih => exact ih hx

end Tracked

/-- A recipe is candid if its parts are. -/
theorem Recipe.candid_bind {α β : Type} {x : Recipe α} {f : α → Recipe β} (hx : x.run.Candid)
    (hf : ∀ a, (f a).run.Candid) : (x >>= f).run.Candid :=
  hx.bind hf fun cause => ⟨cause, rfl, rfl⟩

/-! ### Failures in a session -/

namespace Session

variable {book : Rulebook} {req : Require} {traces : TraceTable} {s s' : Session} {t u : Path}
  {r : Except Failure String} {deps before : List Dependency} {e : Event}

/-- Whether no target has failed. -/
def Flawless (s : Session) : Prop := ∀ t, s.progress.get? t ≠ some .failed

/-- Whether a failure with a named root was met while one of these traces was checked. -/
def Swallowed (traces : TraceTable) (s : Session) : Prop :=
  ∃ t trace u digest cause, traces.get? t = some trace ∧ .artifact u digest ∈ trace.deps ∧
    .neededFailed u cause ∈ s.told ∧ cause.isCycle = false ∧ cause.Named

/-- Whether targets that were not required have the traces of this table. -/
def Untouched (traces : TraceTable) (s : Session) : Prop :=
  ∀ t, s.progress.get? t = none → s.traces.get? t = traces.get? t

/-- Whether a result is accounted for: no target has failed so far or, if it is a failure, it is a named
    one. It may be otherwise if one was swallowed. -/
def Blames {α : Type} (traces : TraceTable) (r : Except Failure α) (s : Session) : Prop :=
  Swallowed traces s ∨ match r with
    | .ok _ => Flawless s
    | .error cause => cause.Named

/-- What holds in a session that may go on: targets that were not required are untouched, and no target
    has failed unless a failure was swallowed. -/
structure Accounted (traces : TraceTable) (s : Session) : Prop where
  /-- The targets that were not required. -/
  untouched : Untouched traces s
  /-- Those that were. -/
  failures : Flawless s ∨ Swallowed traces s

/-- Whether a request has ended as it should. -/
structure Responds (traces : TraceTable) (r : Except Failure String) (s : Session) : Prop where
  /-- The targets that were not required. -/
  untouched : Untouched traces s
  /-- The result. -/
  blames : Blames traces r s
  /-- A request that closes a cycle leaves all as it was. -/
  cycle : ∀ cause, r = .error cause → cause.isCycle = true → Flawless s ∨ Swallowed traces s

theorem Swallowed.of_subset (h : Swallowed traces s) (ht : s.told ⊆ s'.told) :
    Swallowed traces s' := by
  obtain ⟨t, trace, u, digest, cause, hget, hd, htold, hcause⟩ := h
  exact ⟨t, trace, u, digest, cause, hget, hd, ht htold, hcause⟩

theorem Untouched.onward (h : Untouched traces s) (hs : Onward s s') : Untouched traces s' := by
  intro t hnone
  have hbefore : s.progress.get? t = none := by
    by_contra hne
    exact hs.ne_none hne hnone
  rw [hs.traces (.inr fun ⟨_, hdone⟩ => by simp [hnone] at hdone)]
  exact h t hbefore

theorem Accounted.start (h : Accounted traces s) : Accounted traces (Session.start t s) where
  untouched u hnone := h.untouched u (get?_eq_none_of_start hnone)
  failures := by
    refine h.failures.imp (fun hs u => ?_) fun hs => hs.of_subset fun _ he => he
    by_cases hsame : t.Same u
    · simp [get?_start_of_same hsame]
    · rw [get?_start_of_not_same hsame]
      exact hs u

theorem Accounted.responds (h : Accounted traces s) (hend : Ended s t r s') (hr : Blames traces r s') :
    Responds traces r s' where
  untouched := h.untouched.onward hend.1
  blames := hr
  cycle := by
    rintro cause rfl hcycle
    rcases hend.2 with ⟨rfl, -⟩ | ⟨-, hother⟩
    · exact h.failures
    · simp [hcycle] at hother

theorem Responds.accounted {digest : String} (h : Responds traces (.ok digest) s) :
    Accounted traces s := ⟨h.untouched, h.blames.symm⟩

theorem Blames.finish (h : Blames traces r s) : Blames traces r (Session.finish t r s) := by
  have htold : (Session.finish t r s).told = s.told := by cases r <;> rfl
  refine h.imp (fun hs => hs.of_subset (htold ▸ fun _ he => he)) fun hs => ?_
  cases r with
  | error cause => exact hs
  | ok digest =>
    intro u
    by_cases hsame : t.Same u
    · simp [get?_finish_of_same hsame, Progress.ofResult]
    · rw [get?_finish_of_not_same hsame]
      exact hs u

/-- Work that tells more and changes neither traces nor progress. -/
theorem Accounted.of_eq (h : Accounted traces s) (hp : s'.progress = s.progress)
    (ht : s'.traces = s.traces) (htold : s.told ⊆ s'.told) : Accounted traces s' where
  untouched u hnone := ht ▸ h.untouched u (hp ▸ hnone)
  failures := h.failures.imp (fun hs u => hp ▸ hs u) fun hs => hs.of_subset htold

theorem Accounted.tell (h : Accounted traces s) :
    (tell e).Ends s False fun _ s' => Accounted traces s' :=
  .mono .of_modify fun _ _ hs => hs ▸ h.of_eq rfl rfl fun _ he => List.mem_cons_of_mem _ he

theorem Accounted.addNeed (h : Accounted traces s) :
    (addNeed t u).Ends s False fun _ s' => Accounted traces s' :=
  .mono .of_modify fun _ _ hs => hs ▸ h.of_eq rfl rfl fun _ he => he

/-- What a computation is told of a failed request ends it, or the request closes a cycle. -/
theorem answer_refused {α γ : Type} {next : Except Failure γ → Tracked (Except Failure α)}
    {cause : Failure} (hr : Responds traces (.error cause) s)
    (hnext : if cause.isCycle then (next (.error cause)).Candid
      else (next (.error cause)).FailsWith cause.root)
    (ih : (next (.error cause)).Candid → Accounted traces s →
      (answer book req t (next (.error cause)) before).Ends s False fun a s' =>
        Blames traces a.1 s') :
    (answer book req t (next (.error cause)) before).Ends s False fun a s' =>
      Blames traces a.1 s' := by
  -- A rule may go on where a request closes a cycle, and has to give up where it fails otherwise.
  split at hnext
  · next hcycle => exact ih hnext ⟨hr.untouched, hr.cycle cause rfl hcycle⟩
  · obtain ⟨cause', hdone, hroot⟩ := hnext
    rw [hdone]
    exact .pure (hr.blames.imp_right fun h => Failure.Named.of_root h hroot)

section

variable (hreq : ∀ s u, Accounted traces s → (req u).Ends s False (Responds traces))

include hreq

/-- A failure that is met while a trace is checked is swallowed, unless it closes a cycle. -/
theorem holds_accounted {d : Dependency} {trace : Trace} (hget : traces.get? t = some trace)
    (hd : d ∈ trace.deps) (h : Accounted traces s) :
    (holds book req t d).Ends s False fun _ s' => Accounted traces s' := by
  cases d with
  | content p digest => exact digestOf_course.bind fun _ _ hs => .pure (hs.2 ▸ h)
  | presence p found =>
    refine SessionM.Ends.bind .of_get fun _ _ hs => ?_
    obtain ⟨rfl, rfl⟩ := hs
    exact .pure h
  | artifact u digest =>
    refine (hreq s u h).bind fun r s₁ hr => ?_
    cases r with
    | ok current => exact hr.accounted.addNeed.bind fun _ _ hs => .pure hs
    | error cause =>
      refine SessionM.Ends.bind .of_modify fun _ s₂ hs => .pure ?_
      have htold : s₁.told ⊆ s₂.told := hs ▸ fun _ he => List.mem_cons_of_mem _ he
      refine ⟨hs ▸ hr.untouched, ?_⟩
      -- A request that closes a cycle has not made any target fail.
      cases hcycle : cause.isCycle with
      | true =>
        exact (hr.cycle cause rfl hcycle).imp (fun hs₁ => hs ▸ hs₁) fun hs₁ => hs₁.of_subset htold
      | false =>
        refine .inr (hr.blames.elim (fun hs₁ => hs₁.of_subset htold) fun hnamed => ?_)
        exact ⟨t, trace, u, digest, cause, hget, hd, hs ▸ List.mem_cons_self, hcycle, hnamed⟩

theorem allHold_accounted {trace : Trace} (hget : traces.get? t = some trace)
    (hdeps : deps ⊆ trace.deps) (h : Accounted traces s) :
    (allHold book req t deps).Ends s False fun _ s' => Accounted traces s' := by
  induction deps generalizing s with
  | nil => exact .pure h
  | cons d deps ih =>
    rw [List.cons_subset] at hdeps
    refine (holds_accounted hreq hget hdeps.1 h).bind fun ok s₁ h₁ => ?_
    cases ok with
    | true => exact ih hdeps.2 h₁
    | false => exact h₁.tell.bind fun _ _ h => .pure h

theorem clean?_accounted {rule : Rule} (htraces : s.traces.get? t = traces.get? t)
    (h : Accounted traces s) :
    (clean? book req rule t).Ends s False fun _ s' => Accounted traces s' := by
  refine SessionM.Ends.bind .of_get fun _ _ hs => ?_
  obtain ⟨rfl, rfl⟩ := hs
  cases hget : s.traces.get? t with
  | none => exact .pure h
  | some trace =>
    simp only
    split
    · exact h.tell.bind fun _ _ h => .pure h
    · refine digestOf_course.bind fun found s₁ hs => ?_
      obtain ⟨-, rfl⟩ := hs
      split
      · exact h.tell.bind fun _ _ h => .pure h
      · refine (allHold_accounted hreq (htraces ▸ hget) (fun _ hd => hd) h).bind fun ok s₂ h => ?_
        cases ok <;> exact .pure h

/-- A candid computation fails with a named failure, if none was swallowed. -/
theorem answer_blames {α : Type} {x : Tracked (Except Failure α)} (hx : x.Candid)
    (h : Accounted traces s) :
    (answer book req t x before).Ends s False fun a s' => Blames traces a.1 s' := by
  have hneed : ∀ {s u}, Accounted traces s → (needFor req t u).Ends s False fun r s' => match r with
      | .ok _ => Accounted traces s'
      | .error cause => Responds traces (.error cause) s' := by
    intro s u h
    refine (hreq s u h).bind fun r s₁ hr => ?_
    cases r with
    | error cause => exact .pure hr
    | ok digest => exact hr.accounted.addNeed.bind fun _ _ h => .pure h
  induction x generalizing s before with
  | done r =>
    refine .pure (h.failures.symm.imp_right fun hs => ?_)
    cases r with
    | ok a => exact hs
    | error cause => exact hx
  | readText p next ih =>
    refine SessionM.Ends.bind .of_get fun _ _ hs => ?_
    obtain ⟨rfl, rfl⟩ := hs
    exact ih _ (hx _) h
  | isFile p next ih =>
    refine SessionM.Ends.bind .of_get fun _ _ hs => ?_
    obtain ⟨rfl, rfl⟩ := hs
    exact ih _ (hx _) h
  | need u next ih =>
    rw [answer]
    refine (hneed h).bind fun r s₁ hs => ?_
    cases r with
    | ok dependency => exact ih _ (hx.1 _) hs
    | error cause => exact answer_refused hs (hx.2 cause) (ih _)
  | artifact u next ih =>
    rw [answer]
    refine (hneed h).bind fun r s₁ hs => ?_
    cases r with
    | error cause => exact answer_refused hs (hx.2 cause) (ih _)
    | ok dependency =>
      refine SessionM.Ends.bind .of_get fun _ _ hget => ?_
      obtain ⟨rfl, rfl⟩ := hget
      refine ih _ ?_ hs
      -- That an artifact cannot be read is told by the failure itself.
      cases s₁.disk.readText u with
      | ok text => exact hx.1 text
      | error fault =>
        exact (hx.2 (.readArtifact u fault)).candid (by simp [Failure.Named, Failure.root])
  | count next ih => exact ih _ (hx _) h
  | tell event next ih => exact h.tell.bind fun _ _ h => ih hx h

theorem make_blames {rule : Rule} (hx : (rule.recipe t).run.Candid) (h : Accounted traces s) :
    (make book req rule t).Ends s False (Blames traces) := by
  refine (answer_blames hreq hx h).bind fun a s₁ hs => ?_
  obtain ⟨result, deps⟩ := a
  cases result with
  | error cause => exact .pure hs
  | ok content =>
    have hwrite : (writeArtifact t content).Ends s₁ False fun _ s' =>
        s'.progress = s₁.progress ∧ s'.told = s₁.told := .of_eq_some rfl ⟨rfl, rfl⟩
    refine hwrite.bind fun r s₂ hs₂ => ?_
    have hs₂ : Swallowed traces s₂ ∨ Flawless s₂ :=
      hs.imp (fun hs => hs.of_subset (hs₂.2 ▸ fun _ he => he)) fun hs u => hs₂.1 ▸ hs u
    cases r with
    | error fault => exact .pure (.inr (by simp [Failure.Named, Failure.root]))
    | ok written =>
      refine SessionM.Ends.bind .of_modify fun _ s₃ h => ?_
      have hs₃ : Swallowed traces s₃ ∨ Flawless s₃ := h ▸ hs₂
      cases written with
      | true => exact .pure hs₃
      | false =>
        refine SessionM.Ends.bind .of_modify fun _ s₄ h => .pure ?_
        have htold : s₃.told ⊆ s₄.told := h ▸ fun _ he => List.mem_cons_of_mem _ he
        exact hs₃.imp (fun hs => hs.of_subset htold) fun hs => h ▸ hs

theorem bringUpToDate_blames {rule : Rule} (hx : (rule.recipe t).run.Candid)
    (htraces : s.traces.get? t = traces.get? t) (h : Accounted traces s) :
    (bringUpToDate book req rule t).Ends s False (Blames traces) := by
  refine (clean?_accounted hreq htraces h).bind fun found s₁ h₁ => ?_
  cases found with
  | none => exact h₁.tell.bind fun _ _ h => make_blames hreq hx h
  | some digest =>
    refine SessionM.Ends.bind .of_modify fun _ s₂ hs => ?_
    have h₂ : Accounted traces s₂ := h₁.of_eq (hs ▸ rfl) (hs ▸ rfl) (hs ▸ fun _ he => he)
    exact h₂.tell.bind fun _ _ h => .pure h.failures.symm

end

section

variable (hbook : ∀ {t rule}, book.find t = .ok rule → (rule.recipe t).run.Candid)

include hbook

/-- Where rules are candid, a request that fails is refused with a named failure, as long as no failure
    was swallowed. -/
theorem blames_of_require (n : Nat) (s : Session) (t : Path) (h : Accounted traces s) :
    (require book n t).Ends s False (Blames traces) := by
  induction n generalizing s t with
  | zero => exact ⟨fun _ _ h => (by cases h), False.elim⟩
  | succ n ih =>
    have hreq : ∀ s u, Accounted traces s → (require book n u).Ends s False (Responds traces) :=
      fun s u h => ((ended_of_require n s u).and (ih s u h)).mono fun _ _ hr => h.responds hr.1 hr.2
    refine SessionM.Ends.bind .of_get fun _ _ hs => ?_
    obtain ⟨rfl, rfl⟩ := hs
    cases hp : s.progress.get? t with
    | some p =>
      cases p with
      | done digest => exact .pure h.failures.symm
      | started => exact .pure (.inr (Failure.named_of_isCycle rfl))
      | failed => exact .pure (h.failures.symm.imp_right fun hs => absurd hp (hs t))
    | none =>
      refine SessionM.Ends.bind .of_modify fun _ s₁ hs => ?_
      subst hs
      have hfinish : ∀ r s₂, Blames traces r s₂ →
          (do
            modify (finish t r)
            return r : SessionM (Except Failure String)).Ends s₂ False (Blames traces) :=
        fun r s₂ hr => SessionM.Ends.bind .of_modify fun _ s₃ hs => .pure (hs ▸ hr.finish)
      cases hfind : book.find t with
      | error cause => exact SessionM.Ends.bind (.pure (.inr (Rulebook.named_of_find hfind))) hfinish
      | ok rule =>
        have htraces : (start t s).traces.get? t = traces.get? t := h.untouched t hp
        exact (bringUpToDate_blames hreq (hbook hfind) htraces h.start).bind hfinish

/-- Where rules are candid, requests one after another fail with a named failure among others, as long
    as no failure was swallowed. -/
theorem requireAll_blames {n : Nat} {ts : List Path} (h : Accounted traces s) :
    (requireAll book n ts).Ends s False fun failed s' => Swallowed traces s' ∨
      (failed = [] ∧ Flawless s') ∨ ∃ t cause, (t, cause) ∈ failed ∧ cause.Named := by
  induction ts generalizing s with
  | nil => exact .pure (h.failures.symm.imp_right fun hs => .inl ⟨rfl, hs⟩)
  | cons t ts ih =>
    refine SessionM.Ends.bind .of_modify fun _ s₁ hs => ?_
    have h₁ : Accounted traces s₁ := h.of_eq (hs ▸ rfl) (hs ▸ rfl) (hs ▸ fun _ he => he)
    refine ((ended_of_require n s₁ t).and (blames_of_require hbook n s₁ t h₁)).bind fun r s₂ hr => ?_
    have hresponds : Responds traces r s₂ := h₁.responds hr.1 hr.2
    cases r with
    | ok digest => exact ih hresponds.accounted
    | error cause =>
      by_cases hnamed : cause.Named
      · exact tell_aside.bind fun _ s₃ _ => requireAll_served.bind fun failed s₄ _ =>
          .pure (.inr (.inr ⟨t, cause, List.mem_cons_self, hnamed⟩))
      · -- The target has failed, which is not forgotten by those that follow.
        have hfailed : s₂.progress.get? t = some .failed := by
          rcases hr.1.2 with ⟨-, -, rfl⟩ | ⟨hfailed, -⟩
          · exact absurd (Failure.named_of_isCycle rfl) hnamed
          · exact hfailed
        have h₂ : Accounted traces s₂ := ⟨hresponds.untouched, .inr (hr.2.resolve_right hnamed)⟩
        refine (tell_aside.and h₂.tell).bind fun _ s₃ h₃ => ?_
        refine (requireAll_served.and (ih h₃.2)).bind fun failed s₄ h₄ => .pure ?_
        refine h₄.2.imp_right fun hrest => .inr ?_
        rcases hrest with ⟨-, hflawless⟩ | ⟨u, cause', hmem, hcause'⟩
        · exact absurd ((h₃.1.onward.trans h₄.1.1.onward).progress hfailed) (hflawless t)
        · exact ⟨u, cause', List.mem_cons_of_mem _ hmem, hcause'⟩

end

end Session

/-! ### Failures in a build -/

namespace Engine

variable {engine : Engine} {depth : Nat} {ts : List Path} {disk : Disk} {built : Built}

/-- A build that fails reports a failure with a named root, or it has met one while it checked a trace
    that the engine had before. -/
theorem named_of_candid
    (hbook : ∀ {t rule}, engine.book.find t = .ok rule → (rule.recipe t).run.Candid)
    (run : engine.build depth ts disk = some built) (hfailed : built.report.failed ≠ []) :
    (∃ t cause, (t, cause) ∈ built.report.failed ∧ cause.Named) ∨
      ∃ t trace u digest cause, engine.traces.get? t = some trace ∧ .artifact u digest ∈ trace.deps ∧
        .neededFailed u cause ∈ built.events ∧ cause.isCycle = false ∧ cause.Named := by
  obtain ⟨failed, s, hrun, -⟩ := exists_of_build_eq_some run
  obtain rfl := Option.some.inj ((build_of_requireAll hrun).symm.trans run)
  have h : Session.Accounted engine.traces (engine.session disk) :=
    ⟨fun _ _ => rfl, .inl fun t => by simp [session]⟩
  rcases (Session.requireAll_blames hbook h).1 _ _ hrun with hswallowed | ⟨hnone, -⟩ | hnamed
  · right
    simpa [Session.Swallowed] using hswallowed
  · exact absurd hnone hfailed
  · exact .inl hnamed

end Engine

end ImportIndex
