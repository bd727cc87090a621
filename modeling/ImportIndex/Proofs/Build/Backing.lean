import ImportIndex.Proofs.Build.Onward

/-!
# What is done is backed by its trace

At any time in a session, every target that is done has a trace by which it would be found clean, as
far as files stay what they were when they were looked at (`Session.Backed`). This holds for any rules
and any traces at the start (`Served.sound`), as long as targets have places of their own
(`Disk.Separates`) and are what rules and traces ask for.
-/

namespace ImportIndex

/-- Whether targets have places of their own on a disk: distinct ones are different paths, and writing
    one of them does not change what another one holds. -/
structure Disk.Separates (disk : Disk) (targets : Path → Prop) : Prop where
  /-- Targets that are the same path are equal. -/
  same : ∀ {t u}, targets t → targets u → t.Same u → t = u
  /-- Writing a target does not change what another one holds. -/
  apart : ∀ {disk' t u c d}, disk.Rewritten targets disk' → targets t → targets u → t ≠ u →
    disk'.read u = .ok c → (Disk.writeIfChanged t d disk').2.read u = .ok c

theorem Disk.Separates.not_same {disk : Disk} {targets : Path → Prop} {t u : Path}
    (hd : disk.Separates targets) (ht : targets t) (hu : targets u) (hne : t ≠ u) : ¬ t.Same u :=
  fun hs => hne (hd.same ht hu hs)

namespace Session

variable {book : Rulebook} {targets : Path → Prop} {disk : Disk} {s s' s'' : Session} {t u : Path}
  {digest : String} {r : Except Failure String}

/-- Whether a target is done with this digest and has a trace of its rule by which its artifact is what
    the trace says. Questions about files were answered so on some disk in between, and the targets
    that it needed are backed in the same way. -/
inductive Backed (book : Rulebook) (targets : Path → Prop) (disk : Disk) (s : Session) :
    Path → String → Prop
  | intro {t : Path} {digest : String} {rule : Rule} {trace : Trace} (target : targets t)
      (find : book.find t = .ok rule) (kept : s.traces.get? t = some trace)
      (name : trace.rule = rule.name) (output : trace.output = digest)
      (read : ∃ c, s.disk.read t = .ok c ∧ book.digest c = digest)
      (done : s.progress.get? t = some (.done digest))
      (seen : ∀ d ∈ trace.deps, Seen book (fun s => disk.Rewritten targets s.disk) s d)
      (below : ∀ u d, .artifact u d ∈ trace.deps → Backed book targets disk s u d) :
      Backed book targets disk s t digest

/-- What is backed stays so as long as what is done stays as it is. -/
theorem Backed.mono (h : Backed book targets disk s t digest)
    (hprogress : ∀ {u digest}, s.progress.get? u = some (.done digest) →
      s'.progress.get? u = some (.done digest))
    (htraces : ∀ {u}, targets u → s.Done u → s'.traces.get? u = s.traces.get? u)
    (hdisk : ∀ {u c}, targets u → s.Done u → s.disk.read u = .ok c → s'.disk.read u = .ok c) :
    Backed book targets disk s' t digest := by
  induction h with
  | intro target find kept name output read done seen below ih =>
    obtain ⟨c, hc, hd⟩ := read
    refine .intro target find ((htraces target ⟨_, done⟩).trans kept) name output
      ⟨c, hdisk target ⟨_, done⟩ hc, hd⟩ (hprogress done) (fun d hd => ?_) ih
    have hd := seen d hd
    cases d with
    | content => exact hd
    | presence => exact hd
    | artifact u digest => exact hprogress hd

/-- What every session keeps that starts on a disk and asks for targets only. -/
structure Sound (book : Rulebook) (targets : Path → Prop) (disk : Disk) (s : Session) : Prop where
  /-- Nothing but targets was written. -/
  reaches : disk.Rewritten targets s.disk
  /-- Traces of targets need targets. -/
  asked : ∀ {t trace u digest}, targets t → s.traces.get? t = some trace →
    .artifact u digest ∈ trace.deps → targets u
  /-- What is done is backed. -/
  done : ∀ {t digest}, targets t → s.progress.get? t = some (.done digest) →
    Backed book targets disk s t digest

/-- Whether a session has gone on so that it still keeps this, and the artifacts of targets that were
    required before. -/
structure Safe (book : Rulebook) (targets : Path → Prop) (disk : Disk) (s s' : Session) : Prop where
  /-- It still keeps this. -/
  sound : Sound book targets disk s'
  /-- It has gone on. -/
  onward : Onward s s'
  /-- Artifacts of targets that were required before stay. -/
  read : ∀ {u c}, targets u → s.progress.get? u ≠ none → s.disk.read u = .ok c →
    s'.disk.read u = .ok c

theorem Sound.safe (h : Sound book targets disk s) : Safe book targets disk s s :=
  ⟨h, .refl, fun _ _ => id⟩

theorem Safe.trans (h : Safe book targets disk s s') (h' : Safe book targets disk s' s'') :
    Safe book targets disk s s'' where
  sound := h'.sound
  onward := h.onward.trans h'.onward
  read ht hu hread := h'.read ht (h.onward.ne_none hu) (h.read ht hu hread)

namespace Sound

theorem aside (h : Sound book targets disk s) (ha : Aside s s') : Sound book targets disk s' where
  reaches := ha.disk ▸ h.reaches
  asked := ha.traces ▸ h.asked
  done ht hd := by
    refine (h.done ht (ha.progress ▸ hd)).mono ?_ ?_ ?_
    · exact fun hd => ha.progress ▸ hd
    · exact fun _ _ => by rw [ha.traces]
    · exact fun _ _ => ha.disk ▸ id

theorem start (h : Sound book targets disk s) (hnew : s.progress.get? t = none) :
    Sound book targets disk (start t s) where
  reaches := h.reaches
  asked := h.asked
  done {u digest} hu hd := by
    exact (h.done hu (done_of_start hd)).mono (done_start_iff hnew).2 (fun _ _ => rfl) fun _ _ => id

section

variable (h : Sound book targets disk s) (hstarted : s.progress.get? t = some .started)

include h hstarted

omit h in
theorem ne_of_done (hu : s.Done u) : ¬ t.Same u := by
  rintro hs
  obtain ⟨digest, hd⟩ := hu
  simp [← PathTable.get?_congr hs, hstarted] at hd

/-- A target that is being brought up to date may be written. -/
theorem write (hd : disk.Separates targets) (ht : targets t) (c : Content) :
    Sound book targets disk { s with disk := (Disk.writeIfChanged t c s.disk).2 } where
  reaches := .write h.reaches ht c
  asked := h.asked
  done hu hdone := by
    refine (h.done hu hdone).mono id (fun _ _ => rfl) fun {v d} hv hdone hread => ?_
    exact hd.apart h.reaches ht hv (fun he => ne_of_done hstarted hdone (he ▸ rfl)) hread

/-- A target that is being brought up to date may get a trace. -/
theorem insert {trace : Trace}
    (hdeps : ∀ {u digest}, .artifact u digest ∈ trace.deps → targets u) :
    Sound book targets disk { s with traces := s.traces.insert t trace } where
  reaches := h.reaches
  asked {u trace' v digest} hu hget hv := by
    obtain ⟨-, rfl⟩ | ⟨-, hget⟩ := PathTable.get?_insert_eq_some hget
    · exact hdeps hv
    · exact h.asked hu hget hv
  done hu hdone := by
    refine (h.done hu hdone).mono id (fun {v} hv hdone => ?_) fun _ _ => id
    exact PathTable.get?_insert_of_not_same (ne_of_done hstarted hdone)

/-- A target that was brought up to date is done if it is backed by its trace. -/
theorem finish (hd : disk.Separates targets)
    (hok : ∀ digest, r = .ok digest → targets t ∧ ∃ rule trace, book.find t = .ok rule ∧
      s.traces.get? t = some trace ∧ trace.rule = rule.name ∧ trace.output = digest ∧
      (∃ c, s.disk.read t = .ok c ∧ book.digest c = digest) ∧
        ∀ d ∈ trace.deps, Seen book (fun s => disk.Rewritten targets s.disk) s d) :
    Sound book targets disk (finish t r s) where
  reaches := by
    rw [disk_finish]
    exact h.reaches
  asked {u trace v digest} := by
    rw [traces_finish]
    exact h.asked
  done {u digest} hu hdone := by
    have hkept : ∀ {u digest}, s.progress.get? u = some (.done digest) →
        (Session.finish t r s).progress.get? u = some (.done digest) := by
      intro u digest hd
      rw [get?_finish_of_not_same (ne_of_done hstarted ⟨_, hd⟩), hd]
    have hmono : ∀ {u digest}, targets u → s.progress.get? u = some (.done digest) →
        Backed book targets disk (Session.finish t r s) u digest := fun hu hd =>
      (h.done hu hd).mono hkept (fun _ _ => by rw [traces_finish]) fun _ _ => by
        rw [disk_finish]
        exact id
    -- The target itself is backed by its trace now, and the others are as they were.
    by_cases hs : t.Same u
    · cases r with
      | error cause =>
        rw [get?_finish_of_same hs] at hdone
        cases hdone
      | ok digest' =>
        obtain ⟨ht, rule, trace, find, kept, name, output, read, seen⟩ := hok digest' rfl
        obtain rfl := hd.same ht hu hs
        have hdone' := hdone
        rw [get?_finish_of_same hs] at hdone
        obtain rfl := Progress.done.inj (Option.some.inj hdone)
        refine .intro ht find kept name output read hdone' (fun d hd => ?_) fun v d hv => ?_
        · have hd := seen d hd
          cases d with
          | content => exact hd
          | presence => exact hd
          | artifact v digest => exact hkept hd
        · exact hmono (h.asked ht kept hv) (seen _ hv)
    · rw [get?_finish_of_not_same hs] at hdone
      exact hmono hu hdone

end

end Sound

theorem Safe.aside (h : Safe book targets disk s s') (ha : Aside s' s'') :
    Safe book targets disk s s'' :=
  h.trans ⟨h.sound.aside ha, ha.onward, fun _ _ => ha.disk ▸ id⟩

/-- Answering the questions of a computation is safe if requests are. All that it depends on is seen in
    some such session, and it needs nothing but targets. -/
theorem Answers.safe {ends : Ending} (hends : ∀ {s u r s'}, ends s u r s' → Ended s u r s')
    (hrequest : ∀ {s u r s'}, ends s u r s' → targets u ∧
      (Sound book targets disk s → Safe book targets disk s s')) {α : Type} {x : Tracked α}
    {a : α × List Dependency} (hs : Safe book targets disk s s₁)
    (h : Answers book ends s₁ x [] a s₂) :
    Safe book targets disk s s₂ ∧
      (∀ d ∈ a.2, Seen book (fun s => disk.Rewritten targets s.disk) s₂ d) ∧
      ∀ u digest, .artifact u digest ∈ a.2 → targets u := by
  have hnext : ∀ {s' u r s''}, Safe book targets disk s s' → ends s' u r s'' →
      Safe book targets disk s s'' := fun h hr => h.trans ((hrequest hr).2 h.sound)
  refine ⟨h.keeps x.asksOnly_true hs .aside fun hs _ hr => hnext hs hr, fun d hd => ?_,
    fun u digest hu => ?_⟩
  · have hseen := h.seen hends hs .aside x.asksOnly_true (fun hs _ hr => hnext hs hr) (by simp) d hd
    exact hseen.mono fun hs => hs.sound.reaches
  · obtain ⟨-, hended⟩ := (h.asked x.asksOnly_true hu).resolve_left (by simp)
    obtain ⟨s', s'', hr⟩ := hended u digest rfl
    exact (hrequest hr).1

/-! ### Sessions -/

/-- Bringing a target up to date is safe if requests are, and are for targets only. -/
theorem Visits.safe (hd : disk.Separates targets) {ends : Ending}
    (hends : ∀ {s u r s'}, ends s u r s' → Ended s u r s')
    (hrequest : ∀ {s u r s'}, ends s u r s' → targets u ∧
      (Sound book targets disk s → Safe book targets disk s s'))
    (hnew : s.progress.get? t = none) (ht : targets t) (hs : Sound book targets disk s)
    (h : Visits book ends t (Session.start t s) r s') :
    Safe book targets disk s (Session.finish t r s') := by
  have hbegin := hs.start hnew
  have hbegun : (Session.start t s).progress.get? t = some .started := get?_start_of_same rfl
  have hne : (Session.start t s).progress.get? t ≠ none := by simp [hbegun]
  have hunclean : ∀ {rule s₁}, Unclean book ends t rule (Session.start t s) s₁ →
      Safe book targets disk (Session.start t s) s₁ := fun h =>
    h.keeps (P := Safe book targets disk (Session.start t s)) hbegin.safe .aside
      fun hs _ _ hr => hs.trans ((hrequest hr).2 hs.sound)
  have hstarted : ∀ {s₁}, Safe book targets disk (Session.start t s) s₁ →
      s₁.progress.get? t = some .started := fun h => h.onward.progress hbegun
  have hended := h.ended hends hnew
  -- What was required before is another target, so it is enough to look at these.
  suffices hgoal : Sound book targets disk (Session.finish t r s') ∧
      ∀ {u c}, targets u → t ≠ u → (Session.start t s).progress.get? u ≠ none →
        s.disk.read u = .ok c → s'.disk.read u = .ok c by
    refine ⟨hgoal.1, hended.1, fun {u c} hu hvisited hread => ?_⟩
    have hother : ¬ t.Same u := fun hs => hvisited ((PathTable.get?_congr hs).symm.trans hnew)
    rw [disk_finish]
    refine hgoal.2 hu (fun he => hother (he ▸ rfl)) ?_ hread
    rwa [get?_start_of_not_same hother]
  cases h with
  | unruled find => exact ⟨hbegin.finish hbegun hd (by simp), fun _ _ _ => id⟩
  | @clean s₁ _ rule trace find kept name output checks aside =>
    have hrequired : ∀ {s₁ s₂ : Session} {u : Path} {digest r},
        Safe book targets disk (Session.start t s) s₁ → .artifact u digest ∈ trace.deps →
          ends s₁ u r s₂ → Safe book targets disk (Session.start t s) s₂ := fun hs _ hr =>
      hs.trans ((hrequest hr).2 hs.sound)
    have hs₁ : Safe book targets disk (Session.start t s) s₁ :=
      checks.keeps hbegin.safe .aside hrequired
    have hseen := checks.seen hends hbegin.safe .aside hrequired
    have hs' := hs₁.aside aside
    obtain ⟨c, hc, hdigest⟩ := Option.map_eq_some_iff.1 output
    refine ⟨hs'.sound.finish (hstarted hs') hd fun digest hr => ?_, fun hu _ hv => hs'.read hu hv⟩
    obtain rfl := Except.ok.inj hr
    refine ⟨ht, rule, trace, find, ?_, name, rfl, ?_, fun d hd => ?_⟩
    · rw [hs'.onward.traces (.inl hne), ← kept]
    · exact ⟨c, hs'.read ht hne (Disk.toOption_eq_some_iff.1 hc), hdigest⟩
    · exact ((hseen d hd).mono fun hs => hs.sound.reaches).onward aside.onward
  | failed find unclean answers =>
    obtain ⟨hs', -, -⟩ := answers.safe hends hrequest (hunclean unclean)
    exact ⟨hs'.sound.finish (hstarted hs') hd (by simp), fun hu _ hv => hs'.read hu hv⟩
  | unwritten find unclean answers write =>
    obtain ⟨hs₂, -, -⟩ := answers.safe hends hrequest (hunclean unclean)
    have hs₂' := hstarted hs₂
    refine ⟨(hs₂.sound.write hs₂' hd ht _).finish hs₂' hd (by simp), fun hu hne hv hread => ?_⟩
    exact hd.apart hs₂.sound.reaches ht hu hne (hs₂.read hu hv hread)
  | @made s₁ s₂ _ rule content deps written find unclean answers write aside =>
    obtain ⟨hs₂, hseen, hdeps⟩ := answers.safe hends hrequest (hunclean unclean)
    have hs₂' := hstarted hs₂
    generalize htrace : (⟨rule.name, book.digest content, deps⟩ : Trace) = trace at aside
    have hdeps' : ∀ {u digest}, .artifact u digest ∈ trace.deps → targets u := by
      rw [← htrace]
      exact hdeps _ _
    have hmade := ((hs₂.sound.write hs₂' hd ht content).insert hs₂' hdeps').aside aside
    refine ⟨hmade.finish (aside.progress ▸ hs₂') hd fun digest hr => ?_,
      fun hu hne hv hread => ?_⟩
    · obtain rfl := Except.ok.inj hr
      refine ⟨ht, rule, trace, find, ?_, htrace ▸ rfl, htrace ▸ rfl, ⟨content, ?_, rfl⟩,
        htrace ▸ fun d hd => ?_⟩
      · rw [aside.traces]
        exact PathTable.get?_insert_of_same rfl
      · rw [aside.disk]
        exact Disk.read_of_writeIfChanged (Prod.ext write rfl)
      · have hd := hseen d hd
        cases d with
        | content => exact hd
        | presence => exact hd
        | artifact u digest =>
          change s'.progress.get? u = _
          rw [aside.progress]
          exact hd
    · rw [aside.disk]
      exact hd.apart hs₂.sound.reaches ht hu hne (hs₂.read hu hv hread)

section

variable (hd : disk.Separates targets)
  (hasks : ∀ {t rule}, targets t → book.find t = .ok rule →
    (rule.recipe t).run.AsksOnly fun q => ∀ u, q = .artifact u → targets u)

include hd hasks

/-- A target that is required is done with what backs it, and so are all that were required before. -/
theorem safe_of_require (n : Nat) (s : Session) (t : Path) :
    (require book n t).Ends s False fun r s' => Ended s t r s' ∧
      (targets t → Sound book targets disk s → Safe book targets disk s s') := by
  refine ends_of_ended (fun s t _ s' => targets t → Sound book targets disk s →
    Safe book targets disk s s') (fun _ _ h => h.safe) (fun _ _ h => h.safe) (fun _ _ h => h.safe) ?_ n s t
  intro s t r s' hnew _ h ht hs
  have hnarrow : Visits book (fun s u r s' => targets u ∧ Ended s u r s' ∧ (targets u →
      Sound book targets disk s → Safe book targets disk s s')) t (Session.start t s) r s' := h.narrow
    (fun _ hkept _ hchecks => hchecks.narrow (P := fun _ => True) trivial (fun _ _ => trivial)
      (fun _ hu hr => ⟨trivial, hu, hr⟩) fun u digest hu => hs.asked ht hkept hu)
    (fun hfind _ hanswers => hanswers.narrow (P := fun _ => True) trivial (fun _ _ => trivial)
      (fun _ hu hr => ⟨trivial, hu, hr⟩) (hasks ht hfind))
  exact hnarrow.safe hd (fun hr => hr.2.1) (fun hr => ⟨hr.1, hr.2.2 hr.1⟩) hnew ht hs

/-- Whatever targets are required one after another, what is done is backed. -/
theorem Served.sound {asked : Path → Prop} (hasked : ∀ t, asked t → targets t)
    (h : Served book asked s s') (hs : Sound book targets disk s) : Sound book targets disk s' := by
  induction h with
  | start => exact hs
  | require _ ht run ih =>
    exact (((safe_of_require hd hasks _ _ _).1 _ _ run).2 (hasked _ ht) ih).sound
  | aside _ ha ih => exact ih.aside ha

end

end Session

end ImportIndex
