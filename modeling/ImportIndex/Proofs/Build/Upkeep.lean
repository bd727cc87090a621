import ImportIndex.Proofs.Build.Backing

/-!
# What holds of all that is done

A session in which every target that is done holds a content that it may hold, and has a trace that it
may have, whatever these are (`Session.Tended`). To keep this, it is enough to know of one target how
its trace is checked and how its rule is answered (`Visits.tended`).

What the answers to a rule come to is known from the world that they are given in: one of which the
session is a part (`Answers.meets_artifacts`), or the disk, if the rule asks for no target
(`Answers.meets_files`).
-/

namespace ImportIndex.Session

variable {book : Rulebook} {ends : Ending} {targets : Path → Prop} {disk : Disk}
  {makes : Path → Content → Prop} {vouched : Path → Trace → Prop} {s s₁ s₂ s' s'' : Session}
  {t u : Path} {r : Except Failure String}

/-- Whether targets that are done hold what they may hold, and have traces that they may have. -/
structure Tended (targets : Path → Prop) (disk : Disk) (makes : Path → Content → Prop)
    (vouched : Path → Trace → Prop) (s : Session) : Prop where
  /-- Nothing but targets was written. -/
  reaches : disk.Rewritten targets s.disk
  /-- The traces of targets are such. -/
  traces : ∀ {t trace}, targets t → s.traces.get? t = some trace → vouched t trace
  /-- What targets hold that are done is such. -/
  done : ∀ {t}, targets t → s.Done t → ∃ c, makes t c ∧ s.disk.read t = .ok c

/-- Whether a session has gone on and left the artifacts of all targets but those that were required
    for the first time. -/
structure Steady (targets : Path → Prop) (s s' : Session) : Prop where
  /-- It has gone on. -/
  onward : Onward s s'
  /-- Artifacts of targets that were required before stay, and of those that still are not. -/
  read : ∀ {t c}, targets t → s.progress.get? t ≠ none ∨ s'.progress.get? t = none →
    s.disk.read t = .ok c → s'.disk.read t = .ok c

namespace Steady

theorem refl : Steady targets s s := ⟨.refl, fun _ _ => id⟩

theorem trans (h : Steady targets s s') (h' : Steady targets s' s'') : Steady targets s s'' where
  onward := h.onward.trans h'.onward
  read ht hv hread := by
    rcases hv with hv | hv
    · exact h'.read ht (.inl (h.onward.ne_none hv)) (h.read ht (.inl hv) hread)
    · refine h'.read ht (.inr hv) (h.read ht (.inr ?_) hread)
      by_contra hne
      exact h'.onward.ne_none hne hv

theorem of_aside (h : Aside s s') : Steady targets s s' := ⟨h.onward, fun _ _ => h.disk ▸ id⟩

end Steady

namespace Tended

theorem aside (h : Tended targets disk makes vouched s) (ha : Aside s s') :
    Tended targets disk makes vouched s' where
  reaches := ha.disk ▸ h.reaches
  traces := ha.traces ▸ h.traces
  done {t} ht hd := by
    rw [Done, ha.progress] at hd
    rw [ha.disk]
    exact h.done ht hd

theorem start (h : Tended targets disk makes vouched s) :
    Tended targets disk makes vouched (start t s) where
  reaches := h.reaches
  traces := h.traces
  done {u} hu hd := by
    obtain ⟨digest, hd⟩ := hd
    exact h.done hu ⟨digest, done_of_start hd⟩

end Tended

/-- Ending a target keeps what is done, if it holds what it may hold unless it failed, and the others
    are as they were in a session that kept it. -/
theorem Tended.finish (hd : disk.Separates targets) (ht : targets t)
    (hnew : s.progress.get? t = none) (honward : Onward s (Session.finish t r s'))
    (h : Tended targets disk makes vouched s₁) (hsteady : Steady targets (Session.start t s) s₁)
    (hreaches : disk.Rewritten targets s'.disk)
    (hprogress : ∀ {u}, targets u → t ≠ u → s'.progress.get? u = s₁.progress.get? u)
    (htraces : ∀ {u trace}, targets u → s'.traces.get? u = some trace → vouched u trace)
    (hread : ∀ {u c}, targets u → t ≠ u → s₁.disk.read u = .ok c → s'.disk.read u = .ok c)
    (hok : ∀ digest, r = .ok digest → ∃ c, makes t c ∧ s'.disk.read t = .ok c) :
    Tended targets disk makes vouched (Session.finish t r s') ∧
      Steady targets s (Session.finish t r s') := by
  have hother : ∀ {u}, targets u → t ≠ u → (Session.finish t r s').progress.get? u =
      s₁.progress.get? u := fun hu hne => by
    rw [get?_finish_of_not_same (hd.not_same ht hu hne), hprogress hu hne]
  have hhere : (Session.finish t r s').progress.get? t = some (.ofResult r) :=
    get?_finish_of_same rfl
  refine ⟨⟨?_, ?_, fun {u} hu hdone => ?_⟩, honward, fun {u c} hu hv hcread => ?_⟩
  · rwa [disk_finish]
  · rw [traces_finish]
    exact htraces
  · rw [disk_finish]
    by_cases hne : t = u
    · subst hne
      obtain ⟨digest, hdone⟩ := hdone
      rw [hhere] at hdone
      cases r with
      | ok digest' => exact hok digest' rfl
      | error cause => cases hdone
    · rw [Done, hother hu hne] at hdone
      obtain ⟨c, hc, hcread⟩ := h.done hu hdone
      exact ⟨c, hc, hread hu hne hcread⟩
  · -- What was required before, or is not yet, is not the target itself.
    have hne : t ≠ u := by
      rintro rfl
      rcases hv with hv | hv
      · exact hv hnew
      · cases hhere.symm.trans hv
    rw [disk_finish]
    refine hread hu hne (hsteady.read hu ?_ hcread)
    rw [get?_start_of_not_same (hd.not_same ht hu hne)]
    exact hv.imp_right (hother hu hne ▸ ·)

/-- Bringing a target up to date keeps what is done, if checking its trace and answering its rule do,
    and if it comes to a content that the target may hold, by a trace that it may have. -/
theorem Visits.tended (hends : ∀ {s u r s'}, ends s u r s' → Ended s u r s')
    (hd : disk.Separates targets) (ht : targets t) (hnew : s.progress.get? t = none)
    (hs : Tended targets disk makes vouched s) (h : Visits book ends t (Session.start t s) r s')
    (checking : ∀ {rule trace found s₁}, book.find t = .ok rule → s.traces.get? t = some trace →
      trace.rule = rule.name → Checks book ends (Session.start t s) trace.deps found s₁ →
        Tended targets disk makes vouched s₁ ∧ Steady targets (Session.start t s) s₁)
    (clean : ∀ {rule trace c}, book.find t = .ok rule → s.traces.get? t = some trace →
      trace.rule = rule.name → s.disk.read t = .ok c → book.digest c = trace.output → makes t c)
    (answering : ∀ {rule s₁ s₂ a}, book.find t = .ok rule →
      Tended targets disk makes vouched s₁ → Steady targets (Session.start t s) s₁ →
        Answers book ends s₁ (rule.recipe t).run [] a s₂ →
          Tended targets disk makes vouched s₂ ∧ Steady targets s₁ s₂ ∧
            ∀ c, a.1 = .ok c → makes t c ∧ vouched t ⟨rule.name, book.digest c, a.2⟩) :
    Tended targets disk makes vouched (Session.finish t r s') ∧
      Steady targets s (Session.finish t r s') := by
  have hbegin : Tended targets disk makes vouched (Session.start t s) := hs.start
  have hbegun : (Session.start t s).progress.get? t = some .started := get?_start_of_same rfl
  have honward := (h.ended hends hnew).1
  have hunclean : ∀ {rule s₁}, book.find t = .ok rule →
      Unclean book ends t rule (Session.start t s) s₁ →
        Tended targets disk makes vouched s₁ ∧ Steady targets (Session.start t s) s₁ := by
    rintro rule s₁ hfind (ha | ⟨trace, s₀, hkept, hname, hchecks, ha⟩)
    · exact ⟨hbegin.aside ha, .of_aside ha⟩
    · obtain ⟨hs₀, hsteady⟩ := checking hfind hkept hname hchecks
      exact ⟨hs₀.aside ha, hsteady.trans (.of_aside ha)⟩
  cases h with
  | unruled find =>
    exact hbegin.finish hd ht hnew honward .refl hbegin.reaches (fun _ _ => rfl) hbegin.traces
      (fun _ _ => id) (by simp)
  | @clean s₁ _ rule trace find kept name output checks aside =>
    obtain ⟨hs₁, hsteady⟩ := checking find kept name checks
    have hs' := hs₁.aside aside
    have hsteady' := hsteady.trans (.of_aside aside)
    obtain ⟨c, hc, hdigest⟩ := Option.map_eq_some_iff.1 output
    rw [Disk.toOption_eq_some_iff] at hc
    refine hs'.finish hd ht hnew honward hsteady' hs'.reaches (fun _ _ => rfl) hs'.traces
      (fun _ _ => id) fun _ _ => ?_
    exact ⟨c, clean find kept name hc hdigest, hsteady'.read ht (.inl (by simp [hbegun])) hc⟩
  | failed find unclean answers =>
    obtain ⟨hs₁, hsteady⟩ := hunclean find unclean
    obtain ⟨hs₂, hsteady', -⟩ := answering find hs₁ hsteady answers
    exact hs₂.finish hd ht hnew honward (hsteady.trans hsteady') hs₂.reaches (fun _ _ => rfl)
      hs₂.traces (fun _ _ => id) (by simp)
  | @unwritten s₁ s₂ rule content deps fault find unclean answers write =>
    obtain ⟨hs₁, hsteady⟩ := hunclean find unclean
    obtain ⟨hs₂, hsteady', -⟩ := answering find hs₁ hsteady answers
    exact hs₂.finish hd ht hnew honward (hsteady.trans hsteady') (.write hs₂.reaches ht content)
      (fun _ _ => rfl) hs₂.traces (fun hu hne => hd.apart hs₂.reaches ht hu hne) (by simp)
  | @made s₁ s₂ _ rule content deps written find unclean answers write aside =>
    obtain ⟨hs₁, hsteady⟩ := hunclean find unclean
    obtain ⟨hs₂, hsteady', hmade⟩ := answering find hs₁ hsteady answers
    obtain ⟨hmakes, hvouched⟩ := hmade content rfl
    refine hs₂.finish hd ht hnew honward (hsteady.trans hsteady') ?_ ?_ ?_ ?_ fun _ _ =>
      ⟨content, hmakes, ?_⟩
    · rw [aside.disk]
      exact .write hs₂.reaches ht content
    · intro u _ _
      rw [aside.progress]
    · intro u trace hu hget
      rw [aside.traces] at hget
      obtain ⟨hs, rfl⟩ | ⟨-, hget⟩ := PathTable.get?_insert_eq_some hget
      · obtain rfl := hd.same ht hu hs
        exact hvouched
      · exact hs₂.traces hu hget
    · intro u c hu hne hread
      rw [aside.disk]
      exact hd.apart hs₂.reaches ht hu hne hread
    · rw [aside.disk]
      exact Disk.read_of_writeIfChanged (Prod.ext write rfl)

/-! ### What the answers come to -/

section

variable {α : Type} {x : Tracked α} {a : α × List Dependency} {before : List Dependency} {w : World}
  {asks asks' : Question → Prop} {post post' : α → Prop}

/-- A computation that asks for no target comes to what the disk says. -/
theorem Answers.meets_files (h : Answers book ends s x before a s') (hx : x.Meets w asks post)
    (hasks : ∀ u, ¬ asks (.artifact u)) (hw : ∀ p, w.content p = (s.disk.read p).toOption) :
    Aside s s' ∧ post a.1 ∧ ∀ u digest, .artifact u digest ∈ a.2 → .artifact u digest ∈ before := by
  induction h with
  | done => exact ⟨.refl, hx, fun u digest hu => List.mem_reverse.1 hu⟩
  | @readText s s' p next before r after ih =>
    obtain ⟨ha, hpost, hdeps⟩ := ih (hx.2 _ (hw p).symm) hw
    refine ⟨ha, hpost, fun u digest hu => ?_⟩
    refine (List.mem_append.1 (hdeps u digest hu)).resolve_left fun hu => ?_
    cases contentRead?_eq_some (Option.mem_toList.1 hu)
  | @isFile s s' p next before r after ih =>
    have hfound : w.isFile p = s.disk.isFile p := by
      rw [World.isFile, hw, Disk.isFile_eq_isSome_read]
    obtain ⟨ha, hpost, hdeps⟩ := ih (hfound ▸ hx.2) hw
    exact ⟨ha, hpost, fun u digest hu => by simpa using hdeps u digest hu⟩
  | need => exact absurd hx.1 (hasks _)
  | needRefused => exact absurd hx.1 (hasks _)
  | artifact => exact absurd hx.1 (hasks _)
  | artifactRefused => exact absurd hx.1 (hasks _)
  | count _ ih => exact ih (hx _) hw
  | tell ha _ ih =>
    obtain ⟨ha', hpost, hdeps⟩ := ih hx (ha.disk ▸ hw)
    exact ⟨ha.trans ha', hpost, hdeps⟩

/-- How a session goes on that answers requests for targets in a world: what every request keeps, how
    the session goes on, and what may have been answered until then. -/
structure Answering (book : Rulebook) (ends : Ending) (w : World) (asks : Question → Prop)
    (keeps : Session → Prop) (on : Session → Session → Prop) (answered : Session → World) : Prop where
  /-- Nothing but targets is asked for. -/
  only : ∀ {q}, asks q → ∃ u, q = .artifact u
  /-- A session has gone on from itself. -/
  refl : ∀ {s}, on s s
  /-- A session goes on step by step. -/
  trans : ∀ {s s' s''}, on s s' → on s' s'' → on s s''
  /-- What was answered stays so. -/
  makes : ∀ {s s' u c}, on s s' → (answered s).makes u c → (answered s').makes u c
  /-- What was refused stays so. -/
  refuses : ∀ {s s' u cause}, on s s' → (answered s).refuses u cause → (answered s').refuses u cause
  /-- Counting and telling is no matter. -/
  aside : ∀ {s s'}, keeps s → Aside s s' → keeps s' ∧ on s s'
  /-- A request is answered, in the world and in the session. -/
  request : ∀ {s u r s'}, keeps s → asks (.artifact u) → ends s u r s' → keeps s' ∧ on s s' ∧
    match r with
    | .ok _ => ∃ c, s'.disk.read u = .ok c ∧ w.makes u c ∧ (answered s').makes u c
    | .error cause => w.refuses u cause ∧ (answered s').refuses u cause

/-- A computation that asks for targets comes to what it comes to in the world of all that was answered
    at the end. -/
theorem Answers.meets_artifacts {keeps : Session → Prop} {on : Session → Session → Prop}
    {answered : Session → World} (g : Answering book ends w asks keeps on answered)
    (h : Answers book ends s x before a s') (hx : x.Meets w asks post) (hs : keeps s) :
    keeps s' ∧ on s s' ∧
      (∀ {asks' post'}, x.Meets (answered s') asks' post' → post' a.1) ∧
      ∀ u digest, .artifact u digest ∈ a.2 → .artifact u digest ∈ before ∨ asks (.artifact u) := by
  have hkind : ∀ {q : Question}, asks q → (∀ u, q ≠ .artifact u) → False := fun hq hne =>
    (g.only hq).elim fun u hu => hne u hu
  have hcons : ∀ {deps before : List Dependency} {v : Path} {d : String}, asks (.artifact v) →
      (∀ u digest, .artifact u digest ∈ deps →
        .artifact u digest ∈ .artifact v d :: before ∨ asks (.artifact u)) →
      ∀ u digest, .artifact u digest ∈ deps → .artifact u digest ∈ before ∨ asks (.artifact u) := by
    intro deps before v d hv h u digest hu
    rcases h u digest hu with hu | hu
    · rcases List.mem_cons.1 hu with he | hu
      · cases he
        exact .inr hv
      · exact .inl hu
    · exact .inr hu
  induction h with
  | done => exact ⟨hs, g.refl, fun h => h, fun u digest hu => .inl (List.mem_reverse.1 hu)⟩
  | readText => exact (hkind hx.1 (by simp)).elim
  | isFile => exact (hkind hx.1 (by simp)).elim
  | need required ha _ ih =>
    obtain ⟨hs₁, hon, c, -, hc, hanswered⟩ := g.request hs hx.1 required
    obtain ⟨hs₂, hon'⟩ := g.aside hs₁ ha
    obtain ⟨hs', hon'', hmeets, hdeps⟩ := ih (hx.2.1 c hc) hs₂
    refine ⟨hs', g.trans hon (g.trans hon' hon''), fun h => ?_, hcons hx.1 hdeps⟩
    exact hmeets (h.2.1 c (g.makes (g.trans hon' hon'') hanswered))
  | needRefused required _ ih =>
    obtain ⟨hs₁, hon, hcause, hanswered⟩ := g.request hs hx.1 required
    obtain ⟨hs', hon', hmeets, hdeps⟩ := ih (hx.2.2 _ hcause) hs₁
    exact ⟨hs', g.trans hon hon', fun h => hmeets (h.2.2 _ (g.refuses hon' hanswered)), hdeps⟩
  | artifact required ha _ ih =>
    obtain ⟨hs₁, hon, c, hread, hc, hanswered⟩ := g.request hs hx.1 required
    obtain ⟨hs₂, hon'⟩ := g.aside hs₁ ha
    rw [readText_eq_artifactText (ha.disk ▸ hread)] at ih
    obtain ⟨hs', hon'', hmeets, hdeps⟩ := ih (hx.2.1 c hc) hs₂
    refine ⟨hs', g.trans hon (g.trans hon' hon''), fun h => ?_, hcons hx.1 hdeps⟩
    exact hmeets (h.2.1 c (g.makes (g.trans hon' hon'') hanswered))
  | artifactRefused required _ ih =>
    obtain ⟨hs₁, hon, hcause, hanswered⟩ := g.request hs hx.1 required
    obtain ⟨hs', hon', hmeets, hdeps⟩ := ih (hx.2.2 _ hcause) hs₁
    exact ⟨hs', g.trans hon hon', fun h => hmeets (h.2.2 _ (g.refuses hon' hanswered)), hdeps⟩
  | count _ ih =>
    obtain ⟨hs', hon, hmeets, hdeps⟩ := ih (hx _) hs
    exact ⟨hs', hon, fun h => hmeets (h _), hdeps⟩
  | tell ha _ ih =>
    obtain ⟨hs₁, hon⟩ := g.aside hs ha
    obtain ⟨hs', hon', hmeets, hdeps⟩ := ih hx hs₁
    exact ⟨hs', g.trans hon hon', fun h => hmeets h, hdeps⟩

/-- A computation that asks for targets makes requests for these only, in sessions that keep what every
    request keeps. -/
theorem Answers.narrow_of_meets {ends' : Ending} {keeps : Session → Prop}
    {on : Session → Session → Prop} {answered : Session → World}
    (g : Answering book ends w asks keeps on answered)
    (narrowed : ∀ {s u r s'}, keeps s → asks (.artifact u) → ends s u r s' → ends' s u r s')
    (h : Answers book ends s x before a s') (hx : x.Meets w asks post) (hs : keeps s) :
    Answers book ends' s x before a s' := by
  have hkind : ∀ {q : Question}, asks q → (∀ u, q ≠ .artifact u) → False := fun hq hne =>
    (g.only hq).elim fun u hu => hne u hu
  induction h with
  | done => exact .done
  | readText => exact (hkind hx.1 (by simp)).elim
  | isFile => exact (hkind hx.1 (by simp)).elim
  | need required ha _ ih =>
    obtain ⟨hs₁, -, c, -, hc, -⟩ := g.request hs hx.1 required
    exact .need (narrowed hs hx.1 required) ha (ih (hx.2.1 c hc) (g.aside hs₁ ha).1)
  | needRefused required _ ih =>
    obtain ⟨hs₁, -, hcause, -⟩ := g.request hs hx.1 required
    exact .needRefused (narrowed hs hx.1 required) (ih (hx.2.2 _ hcause) hs₁)
  | artifact required ha after ih =>
    obtain ⟨hs₁, -, c, hread, hc, -⟩ := g.request hs hx.1 required
    refine .artifact (narrowed hs hx.1 required) ha (ih ?_ (g.aside hs₁ ha).1)
    rw [readText_eq_artifactText (ha.disk ▸ hread)]
    exact hx.2.1 c hc
  | artifactRefused required _ ih =>
    obtain ⟨hs₁, -, hcause, -⟩ := g.request hs hx.1 required
    exact .artifactRefused (narrowed hs hx.1 required) (ih (hx.2.2 _ hcause) hs₁)
  | count _ ih => exact .count (ih (hx _) hs)
  | tell ha _ ih => exact .tell ha (ih hx (g.aside hs ha).1)

end

end ImportIndex.Session
