import ImportIndex.Proofs.Build.Cutoff

/-!
# Traces that sessions leave

Targets are made while a rule runs, so that files may change from one question of it to the next, and
there need be no world that answers as the session does. There is one if the rule asks for no target, as
nothing changes then, and if it asks for targets only, as what is done stays (`Answers.steps`). If this is
so for all rules of some targets, a session that starts from genuine traces leaves genuine ones
(`Visits.attested`).

Most refusals that a rule is told of end it. If that is so for all but some (`Tracked.Heeds`), a trace of
it tells of no others: there is a world that refuses nothing else in which the rule comes to the same
(`Trace.Genuine.heeded`).
-/

namespace ImportIndex

/-! ### Rules that heed refusals -/

namespace Tracked

variable {α β : Type} {book : Rulebook} {w : World} {may : Path → Failure → Prop} {n : Nat} {a : α}
  {ds : List Dependency}

/-- Whether a computation fails when a target is refused, apart from refusals that it may get over. -/
def Heeds (may : Path → Failure → Prop) : Tracked (Except Failure α) → Prop
  | done _ => True
  | readText _ next => ∀ answer, (next answer).Heeds may
  | isFile _ next => ∀ answer, (next answer).Heeds may
  | need t next =>
    (∀ answer, (next answer).Heeds may) ∧ ∀ cause, ¬ may t cause → (next (.error cause)).Fails
  | artifact t next =>
    (∀ answer, (next answer).Heeds may) ∧ ∀ cause, ¬ may t cause → (next (.error cause)).Fails
  | count next => ∀ answer, (next answer).Heeds may
  | tell _ next => next.Heeds may

/-- A computation that asks for no target is told of no refusal. -/
theorem Alone.heeds {x : Tracked (Except Failure α)} (hx : x.Alone) : x.Heeds may := by
  induction x with
  | done a => trivial
  | readText path next ih => exact fun answer => ih answer (hx answer)
  | isFile path next ih => exact fun answer => ih answer (hx answer)
  | need target next ih => exact hx.elim
  | artifact target next ih => exact hx.elim
  | count next ih => exact fun answer => ih answer (hx answer)
  | tell event next ih => exact ih hx.2

theorem Fails.bind {x : Tracked (Except Failure α)}
    {f : Except Failure α → Tracked (Except Failure β)} (hx : x.Fails)
    (hf : ∀ cause, (f (.error cause)).Fails) : (x.bind f).Fails := by
  induction x with
  | done r =>
    cases r with
    | ok a => cases hx
    | error cause => exact hf cause
  | readText path next ih => exact fun answer => ih answer (hx answer)
  | isFile path next ih => exact fun answer => ih answer (hx answer)
  | need target next ih => exact fun answer => ih answer (hx answer)
  | artifact target next ih => exact fun answer => ih answer (hx answer)
  | count next ih => exact fun answer => ih answer (hx answer)
  | tell event next ih => exact ih hx

/-- A computation that heeds refusals does so if it is followed by another one that fails if it fails. -/
theorem Heeds.bind {x : Tracked (Except Failure α)}
    {f : Except Failure α → Tracked (Except Failure β)} (hx : x.Heeds may)
    (hf : ∀ r, (f r).Heeds may) (herror : ∀ cause, (f (.error cause)).Fails) :
    (x.bind f).Heeds may := by
  induction x with
  | done r => exact hf r
  | readText path next ih => exact fun answer => ih answer (hx answer)
  | isFile path next ih => exact fun answer => ih answer (hx answer)
  | need target next ih =>
    exact ⟨fun answer => ih answer (hx.1 answer), fun cause h => (hx.2 cause h).bind herror⟩
  | artifact target next ih =>
    exact ⟨fun answer => ih answer (hx.1 answer), fun cause h => (hx.2 cause h).bind herror⟩
  | count next ih => exact fun answer => ih answer (hx answer)
  | tell event next ih => exact ih hx

theorem Heeds.step {x y : Tracked (Except Failure α)} (hx : x.Heeds may)
    (h : Step book w n x ds y) : y.Heeds may := by
  cases h <;> first | exact hx.1 _ | exact hx _ | exact hx

/-- A computation that succeeds was refused nothing but what it may get over. -/
theorem Steps.heeded {x : Tracked (Except Failure α)} (hx : x.Heeds may)
    (h : Steps book w n x ds (.done (.ok a))) :
    Steps book { w with refuses := may } n x ds (.done (.ok a)) := by
  generalize hz : Tracked.done (Except.ok a) = z at h
  induction h with
  | refl => exact .refl
  | head first rest ih =>
    subst hz
    refine .head ?_ (ih (hx.step first) rfl)
    cases first with
    | readText h => exact .readText h
    | isFile => exact .isFile
    | need h => exact .need h
    | artifact h => exact .artifact h
    | count => exact .count
    | tell => exact .tell
    | needRefused =>
      refine .needRefused ?_
      by_contra hnot
      exact (hx.2 _ hnot).not_steps_ok rest
    | artifactRefused =>
      refine .artifactRefused ?_
      by_contra hnot
      exact (hx.2 _ hnot).not_steps_ok rest

end Tracked

/-- A recipe heeds refusals if its parts do. -/
theorem Recipe.heeds_bind {α β : Type} {may : Path → Failure → Prop} {x : Recipe α}
    {f : α → Recipe β} (hx : x.run.Heeds may) (hf : ∀ a, (f a).run.Heeds may) :
    (x >>= f).run.Heeds may := by
  refine hx.bind (fun r => ?_) fun cause => rfl
  cases r with
  | ok a => exact hf a
  | error cause => trivial

/-- A genuine trace tells of no refusals but those that its rule may get over. -/
theorem Trace.Genuine.heeded {book : Rulebook} {refuses may : Path → Failure → Prop} {t : Path}
    {c : Content} {trace : Trace} (h : trace.Genuine book refuses t c)
    (hx : ∀ rule, book.find t = .ok rule → (rule.recipe t).run.Heeds may) :
    trace.Genuine book may t c := by
  obtain ⟨w, rule, hfind, hname, -, hsteps⟩ := h.steps
  exact ⟨h.output, _, rule, hfind, hname, fun _ _ => id, hsteps.heeded (hx rule hfind)⟩

/-! ### Rules that run in a session -/

namespace Session

variable {book : Rulebook} {ends : Ending} {targets : Path → Prop} {disk : Disk} {s s' : Session}
  {t : Path} {r : Except Failure String} {before : List Dependency}

/-- A computation that is answered in a session takes the same steps in a world that answers so. -/
theorem Answers.steps {α : Type} {x : Tracked α} {a : α × List Dependency} {w : World}
    {asks : Question → Prop} {P : Session → Prop} (h : Answers book ends s x before a s')
    (hx : x.AsksOnly asks) (hs : P s) (aside : ∀ {s s'}, P s → Aside s s' → P s')
    (files : ∀ {s p}, P s → asks (.content p) ∨ asks (.presence p) →
      (s.disk.read p).toOption = w.content p)
    (request : ∀ {s u r s'}, P s → asks (.artifact u) → ends s u r s' → P s' ∧ match r with
      | .ok digest => ∃ c, s'.disk.read u = .ok c ∧ w.makes u c ∧ book.digest c = digest
      | .error cause => w.refuses u cause) :
    ∃ ds, a.2 = before.reverse ++ ds ∧ Tracked.Steps book w before.length x ds (.done a.1) := by
  have hhead : ∀ {x y : Tracked α} {ds before : List Dependency} {a : α × List Dependency},
      Tracked.Step book w before.length x ds y →
      (∃ es, a.2 = (ds.reverse ++ before).reverse ++ es ∧
        Tracked.Steps book w (ds.reverse ++ before).length y es (.done a.1)) →
      ∃ es, a.2 = before.reverse ++ es ∧ Tracked.Steps book w before.length x es (.done a.1) := by
    rintro x y ds before a first ⟨es, ha, hsteps⟩
    refine ⟨ds ++ es, by simpa using ha, .head first ?_⟩
    rwa [List.length_append, List.length_reverse, Nat.add_comm] at hsteps
  induction h with
  | done => exact ⟨[], by simp, .refl⟩
  | @readText s s' p next before r after ih =>
    refine hhead (.readText (files hs (.inl hx.1))) ?_
    have hreverse : (contentRead? book p (s.disk.read p)).toList.reverse =
        (contentRead? book p (s.disk.read p)).toList := by
      cases contentRead? book p (s.disk.read p) <;> rfl
    rw [hreverse]
    exact ih (hx.2 _) hs
  | @isFile s s' p next before r after ih =>
    have hfound : w.isFile p = s.disk.isFile p := by
      rw [World.isFile, Disk.isFile_eq_isSome_read, files hs (.inr hx.1)]
    refine hhead .isFile ?_
    rw [hfound]
    exact ih (hx.2 _) hs
  | need required ha _ ih =>
    obtain ⟨hs₁, c, -, hc, rfl⟩ := request hs hx.1 required
    exact hhead (.need hc) (ih (hx.2 _) (aside hs₁ ha))
  | needRefused required _ ih =>
    obtain ⟨hs₁, hcause⟩ := request hs hx.1 required
    exact hhead (.needRefused hcause) (ih (hx.2 _) hs₁)
  | artifact required ha _ ih =>
    obtain ⟨hs₁, c, hread, hc, rfl⟩ := request hs hx.1 required
    refine hhead (.artifact hc) ?_
    rw [← readText_eq_artifactText (ha.disk ▸ hread)]
    exact ih (hx.2 _) (aside hs₁ ha)
  | artifactRefused required _ ih =>
    obtain ⟨hs₁, hcause⟩ := request hs hx.1 required
    exact hhead (.artifactRefused hcause) (ih (hx.2 _) hs₁)
  | count _ ih => exact hhead .count (ih (hx _) hs)
  | tell ha _ ih => exact hhead .tell (ih hx (aside hs ha))

/-- Whether the traces of targets are genuine. -/
def Attested (book : Rulebook) (targets : Path → Prop) (s : Session) : Prop :=
  ∀ t trace, targets t → s.traces.get? t = some trace →
    ∃ c, trace.Genuine book (fun _ _ => True) t c

theorem Attested.of_traces (h : Attested book targets s) (ht : s'.traces = s.traces) :
    Attested book targets s' := fun u trace hu hget => h u trace hu (ht ▸ hget)

section

variable (hends : ∀ {s u r s'}, ends s u r s' → Ended s u r s')
  (hrequest : ∀ {s u r s'}, ends s u r s' → targets u ∧
    (Sound book targets disk s → Safe book targets disk s s'))

include hends hrequest

/-- A rule that asks for no target, or for targets only, leaves a genuine trace. -/
theorem Answers.genuine {rule : Rule} {c : Content} {deps : List Dependency}
    (hfind : book.find t = .ok rule)
    (hrule : (rule.recipe t).run.Alone ∨ (rule.recipe t).run.AsksOnly fun q => ∃ u, q = .artifact u)
    (hs : Sound book targets disk s)
    (h : Answers book ends s (rule.recipe t).run [] (.ok c, deps) s') :
    Trace.Genuine book (fun _ _ => True) t c ⟨rule.name, book.digest c, deps⟩ := by
  refine ⟨rfl, ?_⟩
  rcases hrule with halone | honly
  · -- Nothing changes while the rule runs.
    let w : World := {
      content := fun p => (s.disk.read p).toOption
      makes := fun _ _ => False
      refuses := fun _ _ => False }
    obtain ⟨ds, rfl, hsteps⟩ := h.steps (w := w) (P := fun s₁ => s₁.disk = s.disk)
      halone.asksOnly rfl (fun hs ha => ha.disk.trans hs) (fun hs _ => by rw [hs]) fun _ hu => absurd rfl (hu _)
    exact ⟨w, rule, hfind, rfl, fun _ _ h => h.elim, hsteps⟩
  · -- What is done stays, so that its digest is that of what it holds.
    let w : World := {
      content := fun _ => none
      makes := fun _ _ => True
      refuses := fun _ _ => True }
    obtain ⟨ds, rfl, hsteps⟩ := h.steps (w := w) (P := Sound book targets disk) honly hs
      Sound.aside (by simp) fun {s₁ u r s₂} hs₁ _ hr => by
        obtain ⟨hu, hsafe⟩ := hrequest hr
        have hs₂ := (hsafe hs₁).sound
        refine ⟨hs₂, ?_⟩
        cases r with
        | error cause => trivial
        | ok digest =>
          obtain ⟨-, -, -, -, -, ⟨c, hc, hdigest⟩, -⟩ := hs₂.done hu (hends hr).2
          exact ⟨c, hc, trivial, hdigest⟩
    exact ⟨w, rule, hfind, rfl, fun _ _ _ => trivial, hsteps⟩

end

/-- What requests keep of the traces, and what is kept when the one that a run of its rule leaves is put in,
    is kept when a target is brought up to date. -/
theorem Visits.keeps_traces {P : TraceTable → Prop} (h : Visits book ends t s r s') (hs : P s.traces)
    (request : ∀ {s u r s'}, ends s u r s' → P s.traces → P s'.traces)
    (record : ∀ {rule s₁ s₂ content deps}, book.find t = .ok rule →
      Answers book ends s₁ (rule.recipe t).run [] (.ok content, deps) s₂ → P s₂.traces →
        P (s₂.traces.insert t { rule := rule.name, output := book.digest content, deps })) :
    P s'.traces := by
  have haside : ∀ {s₁ s₂ : Session}, P s₁.traces → Aside s₁ s₂ → P s₂.traces := fun h ha =>
    ha.traces ▸ h
  have hunclean : ∀ {rule s₁}, Unclean book ends t rule s s₁ → P s₁.traces := fun h =>
    h.keeps (P := fun s₁ => P s₁.traces) hs haside fun hs _ _ hr => request hr hs
  have hanswers : ∀ {rule : Rule} {s₁ a s₂}, P s₁.traces →
      Answers book ends s₁ (rule.recipe t).run [] a s₂ → P s₂.traces := fun hs h =>
    h.keeps (P := fun s₁ => P s₁.traces) (Tracked.asksOnly_true _) hs haside
      fun hs _ hr => request hr hs
  cases h with
  | unruled => exact hs
  | clean _ _ _ _ checks aside =>
    exact haside (checks.keeps (P := fun s₁ => P s₁.traces) hs haside fun hs _ hr => request hr hs) aside
  | failed _ unclean answers => exact hanswers (hunclean unclean) answers
  | unwritten _ unclean answers =>
    have hs₂ := hanswers (hunclean unclean) answers
    exact hs₂
  | made find unclean answers _ aside =>
    exact aside.traces ▸ record find answers (hanswers (hunclean unclean) answers)

/-- Bringing a target up to date leaves genuine traces if requests do. -/
theorem Visits.attested (hd : disk.Separates targets)
    (hrules : ∀ {t rule}, targets t → book.find t = .ok rule →
      (rule.recipe t).run.Alone ∨ (rule.recipe t).run.AsksOnly fun q => ∃ u, q = .artifact u)
    (hends : ∀ {s u r s'}, ends s u r s' → Ended s u r s')
    (hrequest : ∀ {s u r s'}, ends s u r s' → targets u ∧
      (Sound book targets disk s → Safe book targets disk s s'))
    (hattested : ∀ {s u r s'}, ends s u r s' → Sound book targets disk s → Attested book targets s →
      Attested book targets s')
    (hnew : s.progress.get? t = none) (ht : targets t) (hs : Sound book targets disk s)
    (ha : Attested book targets s) (h : Visits book ends t (Session.start t s) r s') :
    Attested book targets (Session.finish t r s') := by
  let P : Session → Prop := fun s₁ => Sound book targets disk s₁ ∧ Attested book targets s₁
  have hbegin : P (Session.start t s) := ⟨hs.start hnew, ha⟩
  have haside : ∀ {s₁ s₂}, P s₁ → Aside s₁ s₂ → P s₂ := fun h ha =>
    ⟨h.1.aside ha, h.2.of_traces ha.traces⟩
  have hkeeps : ∀ {s₁ u r s₂}, P s₁ → ends s₁ u r s₂ → P s₂ := fun h hr =>
    ⟨((hrequest hr).2 h.1).sound, hattested hr h.1 h.2⟩
  have hunclean : ∀ {rule s₁}, Unclean book ends t rule (Session.start t s) s₁ → P s₁ := fun h =>
    h.keeps hbegin haside fun hs _ _ hr => hkeeps hs hr
  have hanswers : ∀ {rule : Rule} {s₁ a s₂}, P s₁ →
      Answers book ends s₁ (rule.recipe t).run [] a s₂ → P s₂ := fun hs h =>
    h.keeps (Tracked.asksOnly_true _) hs haside fun hs _ hr => hkeeps hs hr
  refine Attested.of_traces (s := s') ?_ traces_finish
  cases h with
  | unruled => exact hbegin.2
  | clean _ _ _ _ checks aside =>
    exact (haside (checks.keeps hbegin haside fun hs _ hr => hkeeps hs hr) aside).2
  | failed _ unclean answers => exact (hanswers (hunclean unclean) answers).2
  | unwritten _ unclean answers => exact (hanswers (hunclean unclean) answers).2.of_traces rfl
  | made find unclean answers _ aside =>
    have hs₁ := hunclean unclean
    have hs₂ := hanswers hs₁ answers
    refine Attested.of_traces (fun u trace hu hget => ?_) aside.traces
    obtain ⟨hs, rfl⟩ | ⟨-, hget⟩ := PathTable.get?_insert_eq_some hget
    · obtain rfl := hd.same ht hu hs
      exact ⟨_, answers.genuine hends hrequest find (hrules ht find) hs₁.1⟩
    · exact hs₂.2 u trace hu hget

end Session

end ImportIndex
