import ImportIndex.Proofs.Build.Invariant

/-!
# The course of a session

What a session does when it requires a target, as a relation between the session before, the result
and the session after. It is told in terms of how the requests below may end (`Session.Ending`), so
that what is closed under it holds of every request, to whatever depth requests are followed
(`ends_of_require`). Nothing is known of the rules here.

* `Session.Checks`: the questions in a trace are asked again;
* `Session.Answers`: the requests of a rule are answered;
* `Session.Visits`: a target that was not required before is brought up to date;
* `Session.Onward`: what any part of a session leaves as it is;
* `ended_of_require`: a target that is required is done, has failed, or is being brought up to date
  already, and the rest goes on.
-/

namespace ImportIndex

/-- A task that is added leaves those that are there. -/
theorem TaskGraph.contains_addDependency {g : TaskGraph} {t u v : Path}
    (h : g.added.contains v = true) : (g.addDependency t u).added.contains v = true := by
  have hadd : ∀ {g : TaskGraph} {t : Path}, g.added.contains v = true →
      (g.addTask t).added.contains v = true := by
    intro g t h
    rw [addTask, FirstSeen.contains_add, h, Bool.or_true]
  rw [addDependency]
  split <;> exact hadd (hadd h)

/-- An edge between tasks adds none. -/
theorem TaskGraph.added_addDependency {g : TaskGraph} {t u : Path}
    (ht : g.added.contains t = true) (hu : g.added.contains u = true) :
    (g.addDependency t u).added = g.added := by
  have hadd : ∀ {g : TaskGraph} {t : Path}, g.added.contains t = true → g.addTask t = g := by
    intro g t h
    simp [addTask, FirstSeen.add, h]
  rw [addDependency, hadd ht, hadd hu]
  split <;> rfl

namespace Session

/-- How requests may end: the session in which a target is required, the target, the result, and the
    session afterwards. -/
abbrev Ending := Session → Path → Except Failure String → Session → Prop

/-- Whether sessions differ in nothing but what they count and tell, and in what they know of the
    needs of tasks. -/
structure Aside (s s' : Session) : Prop extends Alike s s' where
  /-- The tasks stay. -/
  added : ∀ {u}, s.graph.added.contains u = true → s'.graph.added.contains u = true

section

variable (book : Rulebook) (ends : Ending) (t : Path)

/-- How checking a trace of a target may end: with all questions answered as before, or with one that
    was not. -/
inductive Checks : Session → List Dependency → Bool → Session → Prop
  | nil {s} : Checks s [] true s
  | content {s s' p digest rest found}
      (same : (s.disk.read p).toOption.map book.digest = digest) (after : Checks s rest found s') :
      Checks s (.content p digest :: rest) found s'
  | presence {s s' p there rest found}
      (same : s.disk.isFile p = there) (after : Checks s rest found s') :
      Checks s (.presence p there :: rest) found s'
  | artifact {s s₁ s₂ s' u digest rest found} (required : ends s u (.ok digest) s₁)
      (aside : Aside s₁ s₂) (after : Checks s₂ rest found s') :
      Checks s (.artifact u digest :: rest) found s'
  | differs {s s' d rest} (aside : Aside s s') : Checks s (d :: rest) false s'
  | differsAfter {s s₁ s' u digest rest r} (required : ends s u r s₁) (aside : Aside s₁ s') :
      Checks s (.artifact u digest :: rest) false s'

/-- How a computation that is run for a target may end, after the dependencies in `before`, the last
    one first: with a result and with all dependencies that it left. -/
inductive Answers {α : Type} :
    Session → Tracked α → List Dependency → α × List Dependency → Session → Prop
  | done {s a before} : Answers s (.done a) before (a, before.reverse) s
  | readText {s s' p next before r}
      (after : Answers s (next ((s.disk.read p).bind textOf))
        ((contentRead? book p (s.disk.read p)).toList ++ before) r s') :
      Answers s (.readText p next) before r s'
  | isFile {s s' p next before r}
      (after : Answers s (next (s.disk.isFile p)) (.presence p (s.disk.isFile p) :: before) r s') :
      Answers s (.isFile p next) before r s'
  | need {s s₁ s₂ s' u digest next before r} (required : ends s u (.ok digest) s₁)
      (aside : Aside s₁ s₂) (after : Answers s₂ (next (.ok ())) (.artifact u digest :: before) r s') :
      Answers s (.need u next) before r s'
  | needRefused {s s₁ s' u cause next before r} (required : ends s u (.error cause) s₁)
      (after : Answers s₁ (next (.error cause)) before r s') : Answers s (.need u next) before r s'
  | artifact {s s₁ s₂ s' u digest next before r} (required : ends s u (.ok digest) s₁)
      (aside : Aside s₁ s₂)
      (after : Answers s₂ (next ((s₂.disk.readText u).mapError (.readArtifact u)))
        (.artifact u digest :: before) r s') : Answers s (.artifact u next) before r s'
  | artifactRefused {s s₁ s' u cause next before r} (required : ends s u (.error cause) s₁)
      (after : Answers s₁ (next (.error cause)) before r s') :
      Answers s (.artifact u next) before r s'
  | count {s s' next before r} (after : Answers s (next before.length) before r s') :
      Answers s (.count next) before r s'
  | tell {s s₁ s' event next before r} (aside : Aside s s₁) (after : Answers s₁ next before r s') :
      Answers s (.tell event next) before r s'

/-- How looking at the trace of a target may end if the target is not clean. -/
def Unclean (rule : Rule) (s s' : Session) : Prop :=
  Aside s s' ∨ ∃ trace s₁, s.traces.get? t = some trace ∧ trace.rule = rule.name ∧
    Checks book ends s trace.deps false s₁ ∧ Aside s₁ s'

/-- How bringing a target up to date may end: there is no rule for it, it is clean, its rule fails,
    its artifact cannot be written, or it is made anew. -/
inductive Visits : Session → Except Failure String → Session → Prop
  | unruled {s cause} (find : book.find t = .error cause) : Visits s (.error cause) s
  | clean {s s₁ s' rule trace} (find : book.find t = .ok rule)
      (kept : s.traces.get? t = some trace) (name : trace.rule = rule.name)
      (output : (s.disk.read t).toOption.map book.digest = some trace.output)
      (checks : Checks book ends s trace.deps true s₁) (aside : Aside s₁ s') :
      Visits s (.ok trace.output) s'
  | failed {s s₁ s' rule cause deps} (find : book.find t = .ok rule)
      (unclean : Unclean book ends t rule s s₁)
      (answers : Answers book ends s₁ (rule.recipe t).run [] (.error cause, deps) s') :
      Visits s (.error (.ruleFailed t cause)) s'
  | unwritten {s s₁ s₂ rule content deps fault} (find : book.find t = .ok rule)
      (unclean : Unclean book ends t rule s s₁)
      (answers : Answers book ends s₁ (rule.recipe t).run [] (.ok content, deps) s₂)
      (write : (Disk.writeIfChanged t content s₂.disk).1 = .error fault) :
      Visits s (.error (.writeArtifact t fault))
        { s₂ with disk := (Disk.writeIfChanged t content s₂.disk).2 }
  | made {s s₁ s₂ s' rule content deps written} (find : book.find t = .ok rule)
      (unclean : Unclean book ends t rule s s₁)
      (answers : Answers book ends s₁ (rule.recipe t).run [] (.ok content, deps) s₂)
      (write : (Disk.writeIfChanged t content s₂.disk).1 = .ok written)
      (aside : Aside { s₂ with
        disk := (Disk.writeIfChanged t content s₂.disk).2
        traces := s₂.traces.insert t { rule := rule.name, output := book.digest content, deps } } s') :
      Visits s (.ok (book.digest content)) s'

end

/-! ### Sessions take their course -/

section

variable {book : Rulebook} {require : Require} {ends : Ending} {s s' s'' : Session} {t u : Path}

theorem Aside.refl : Aside s s := ⟨⟨rfl, rfl, rfl, rfl⟩, id⟩

theorem Aside.trans (h : Aside s s') (h' : Aside s' s'') : Aside s s'' where
  disk := h'.disk.trans h.disk
  traces := h'.traces.trans h.traces
  progress := h'.progress.trans h.progress
  stack := h'.stack.trans h.stack
  added hu := h'.added (h.added hu)

theorem tell_aside {e : Event} : (tell e).Ends s False fun _ s' => Aside s s' :=
  SessionM.Ends.mono .of_modify fun _ _ h => h ▸ ⟨⟨rfl, rfl, rfl, rfl⟩, id⟩

theorem addNeed_aside : (addNeed t u).Ends s False fun _ s' => Aside s s' :=
  SessionM.Ends.mono .of_modify fun _ _ h =>
    h ▸ ⟨⟨rfl, rfl, rfl, rfl⟩, TaskGraph.contains_addDependency⟩

theorem digestOf_course {must : Prop} {p : Path} : (digestOf book p).Ends s must fun found s' =>
    (s.disk.read p).toOption.map book.digest = found ∧ s = s' :=
  .bind .of_get fun _ _ h => by
    obtain ⟨rfl, rfl⟩ := h
    exact .pure ⟨rfl, rfl⟩

variable (hreq : ∀ s u, (require u).Ends s False (ends s u))

include hreq

theorem allHold_course {deps : List Dependency} :
    (allHold book require t deps).Ends s False (Checks book ends s deps) := by
  induction deps generalizing s with
  | nil => exact .pure .nil
  | cons d deps ih =>
    rw [allHold]
    -- The first answer that differs ends the check.
    have hstop : ∀ {s₁}, (∀ s', Aside s₁ s' → Checks book ends s (d :: deps) false s') →
        (do
          tell (.otherAnswer t d.path)
          return false : SessionM Bool).Ends s₁ False (Checks book ends s (d :: deps)) :=
      fun h => tell_aside.bind fun _ s' ha => .pure (h s' ha)
    cases d with
    | content p digest =>
      have hholds : (holds book require t (.content p digest)).Ends s False fun ok s' =>
          s = s' ∧ (ok = true → (s.disk.read p).toOption.map book.digest = digest) :=
        digestOf_course.bind fun found s' h => .pure ⟨h.2, fun hok => h.1.trans (beq_iff_eq.1 hok)⟩
      refine hholds.bind fun ok s₁ h => ?_
      obtain ⟨rfl, hok⟩ := h
      cases ok with
      | true => exact ih.mono fun found s' h => .content (hok rfl) h
      | false => exact hstop fun s' ha => .differs ha
    | presence p there =>
      have hholds : (holds book require t (.presence p there)).Ends s False fun ok s' =>
          s = s' ∧ (ok = true → s.disk.isFile p = there) :=
        SessionM.Ends.bind .of_get fun _ _ h => .pure ⟨h.2, fun hok => h.1 ▸ beq_iff_eq.1 hok⟩
      refine hholds.bind fun ok s₁ h => ?_
      obtain ⟨rfl, hok⟩ := h
      cases ok with
      | true => exact ih.mono fun found s' h => .presence (hok rfl) h
      | false => exact hstop fun s' ha => .differs ha
    | artifact u digest =>
      have hholds : (holds book require t (.artifact u digest)).Ends s False fun ok s' =>
          ∃ r s₁, ends s u r s₁ ∧ Aside s₁ s' ∧ (ok = true → r = .ok digest) := by
        refine SessionM.Ends.bind (hreq s u) fun r s₁ hr => ?_
        cases r with
        | ok current =>
          refine addNeed_aside.bind fun _ s' ha => .pure ⟨_, s₁, hr, ha, fun hok => ?_⟩
          rw [beq_iff_eq.1 hok]
        | error cause => exact tell_aside.bind fun _ s' ha => .pure ⟨_, s₁, hr, ha, by simp⟩
      refine hholds.bind fun ok s₂ h => ?_
      obtain ⟨r, s₁, hr, ha, hok⟩ := h
      cases ok with
      | true =>
        obtain rfl := hok rfl
        exact ih.mono fun found s' h => .artifact hr ha h
      | false => exact hstop fun s' ha' => .differsAfter hr (ha.trans ha')

theorem answer_course {α : Type} {x : Tracked α} {before : List Dependency} :
    (answer book require t x before).Ends s False (Answers book ends s x before) := by
  have hneed : ∀ {s u}, (needFor require t u).Ends s False fun r s' => match r with
      | .ok d => ∃ digest s₁, d = .artifact u digest ∧ ends s u (.ok digest) s₁ ∧ Aside s₁ s'
      | .error cause => ends s u (.error cause) s' := by
    intro s u
    refine SessionM.Ends.bind (hreq s u) fun r s₁ hr => ?_
    cases r with
    | ok digest => exact addNeed_aside.bind fun _ s' ha => .pure ⟨digest, s₁, rfl, hr, ha⟩
    | error cause => exact .pure hr
  induction x generalizing s before with
  | done a => exact .pure .done
  | readText p next ih =>
    refine SessionM.Ends.bind .of_get fun _ _ h => ?_
    obtain ⟨rfl, rfl⟩ := h
    exact (ih _).mono fun _ _ h => .readText h
  | isFile p next ih =>
    refine SessionM.Ends.bind .of_get fun _ _ h => ?_
    obtain ⟨rfl, rfl⟩ := h
    exact (ih _).mono fun _ _ h => .isFile h
  | need u next ih =>
    rw [answer]
    refine hneed.bind fun r s₂ hr => ?_
    cases r with
    | error cause => exact (ih _).mono fun _ _ h => .needRefused hr h
    | ok d =>
      obtain ⟨digest, s₁, rfl, hr, ha⟩ := hr
      exact (ih _).mono fun _ _ h => .need hr ha h
  | artifact u next ih =>
    rw [answer]
    refine hneed.bind fun r s₂ hr => ?_
    cases r with
    | error cause => exact (ih _).mono fun _ _ h => .artifactRefused hr h
    | ok d =>
      obtain ⟨digest, s₁, rfl, hr, ha⟩ := hr
      refine SessionM.Ends.bind .of_get fun _ _ h => ?_
      obtain ⟨rfl, rfl⟩ := h
      exact (ih _).mono fun _ _ h => .artifact hr ha h
  | count next ih => exact (ih _).mono fun _ _ h => .count h
  | tell event next ih =>
    exact tell_aside.bind fun _ s₁ ha => ih.mono fun _ _ h => .tell ha h

theorem make_course {rule : Rule} (hfind : book.find t = .ok rule) {s₀ : Session}
    (hunclean : Unclean book ends t rule s₀ s) :
    (make book require rule t).Ends s False (Visits book ends t s₀) := by
  refine (answer_course hreq).bind fun r s₂ h => ?_
  obtain ⟨result, deps⟩ := r
  cases result with
  | error cause => exact .pure (.failed hfind hunclean h)
  | ok content =>
    have hwrite : (writeArtifact t content).Ends s₂ False fun r s' =>
        r = (Disk.writeIfChanged t content s₂.disk).1 ∧
          s' = { s₂ with disk := (Disk.writeIfChanged t content s₂.disk).2 } :=
      .of_eq_some rfl ⟨rfl, rfl⟩
    refine hwrite.bind fun r s₃ hr => ?_
    obtain ⟨hr, rfl⟩ := hr
    cases r with
    | error fault => exact .pure (.unwritten hfind hunclean h hr.symm)
    | ok written =>
      refine SessionM.Ends.bind .of_modify fun _ s₃ hs => ?_
      have ha : Aside { s₂ with
          disk := (Disk.writeIfChanged t content s₂.disk).2
          traces := s₂.traces.insert t { rule := rule.name, output := book.digest content, deps } }
          s₃ := hs ▸ ⟨⟨rfl, rfl, rfl, rfl⟩, id⟩
      cases written with
      | true => exact .pure (.made hfind hunclean h hr.symm ha)
      | false =>
        exact tell_aside.bind fun _ s₄ ha' => .pure (.made hfind hunclean h hr.symm (ha.trans ha'))

/-- Looking at the trace of a target ends with the digest of its artifact if the trace holds. -/
theorem clean?_course {rule : Rule} :
    (clean? book require rule t).Ends s False fun found s' => match found with
      | none => Unclean book ends t rule s s'
      | some digest => ∃ trace, s.traces.get? t = some trace ∧ trace.rule = rule.name ∧
          (s.disk.read t).toOption.map book.digest = some trace.output ∧
            Checks book ends s trace.deps true s' ∧ digest = trace.output := by
  refine SessionM.Ends.bind .of_get fun _ _ h => ?_
  obtain ⟨rfl, rfl⟩ := h
  cases htrace : s.traces.get? t with
  | none => exact .pure (.inl .refl)
  | some trace =>
    simp only
    split
    · exact tell_aside.bind fun _ s' ha => .pure (.inl ha)
    · next hname =>
      refine digestOf_course.bind fun found s' h => ?_
      obtain ⟨rfl, rfl⟩ := h
      split
      · exact tell_aside.bind fun _ s' ha => .pure (.inl ha)
      · next houtput =>
        refine (allHold_course hreq).bind fun ok s' h => ?_
        cases ok with
        | true => exact .pure ⟨trace, rfl, not_not.1 hname, not_not.1 houtput, h, rfl⟩
        | false => exact .pure (.inr ⟨trace, s', htrace, not_not.1 hname, h, .refl⟩)

theorem bringUpToDate_course {rule : Rule} (hfind : book.find t = .ok rule) :
    (bringUpToDate book require rule t).Ends s False (Visits book ends t s) := by
  refine (clean?_course hreq).bind fun found s₁ h => ?_
  cases found with
  | some digest =>
    obtain ⟨trace, hkept, hname, houtput, hchecks, rfl⟩ := h
    refine SessionM.Ends.bind .of_modify fun _ s₂ hs => tell_aside.bind fun _ s₃ ha => .pure ?_
    have ha' : Aside s₁ s₂ := hs ▸ ⟨⟨rfl, rfl, rfl, rfl⟩, id⟩
    exact .clean hfind hkept hname houtput hchecks (ha'.trans ha)
  | none =>
    refine tell_aside.bind fun _ s₂ ha => make_course hreq hfind ?_
    rcases h with h | ⟨trace, s₀, hkept, hname, hchecks, h⟩
    · exact .inl (h.trans ha)
    · exact .inr ⟨trace, s₀, hkept, hname, hchecks, h.trans ha⟩

end

/-- What holds of targets that were required before, and of those that are brought up to date by
    requests of which it holds, holds of all requests. -/
theorem ends_of_require {book : Rulebook} {ends : Ending}
    (done : ∀ {s t digest}, s.progress.get? t = some (.done digest) → ends s t (.ok digest) s)
    (failed : ∀ {s t}, s.progress.get? t = some .failed →
      ends s t (.error (.dependencyFailed t)) s)
    (started : ∀ {s t}, s.progress.get? t = some .started →
      ends s t (.error (.cycle (cycleTo s.stack t))) s)
    (visits : ∀ {s t r s'}, s.progress.get? t = none → Visits book ends t (start t s) r s' →
      ends s t r (finish t r s'))
    (n : Nat) (s : Session) (t : Path) : (require book n t).Ends s False (ends s t) := by
  induction n generalizing s t with
  | zero => exact ⟨fun _ _ h => (by cases h), fun h => h.elim⟩
  | succ n ih =>
    refine SessionM.Ends.bind .of_get fun _ _ h => ?_
    obtain ⟨rfl, rfl⟩ := h
    cases hp : s.progress.get? t with
    | some p =>
      cases p with
      | done digest => exact .pure (done hp)
      | failed => exact .pure (failed hp)
      | started => exact .pure (started hp)
    | none =>
      refine SessionM.Ends.bind .of_modify fun _ s₁ h => ?_
      subst h
      have hfinish : ∀ r s₂, Visits book ends t (start t s) r s₂ →
          (do
            modify (finish t r)
            return r : SessionM (Except Failure String)).Ends s₂ False (ends s t) := fun r s₂ h =>
        SessionM.Ends.bind .of_modify fun _ s₃ hs => .pure (hs ▸ visits hp h)
      cases hfind : book.find t with
      | error cause => exact SessionM.Ends.bind (.pure (.unruled hfind)) hfinish
      | ok rule => exact (bringUpToDate_course ih hfind).bind hfinish

end Session

end ImportIndex
