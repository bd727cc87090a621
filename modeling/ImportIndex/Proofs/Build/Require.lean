import ImportIndex.Proofs.Build.Invariant

/-!
# What requiring a target does

Every part of a session keeps the invariant of a lawful scope. A target that is required ends up
done, or it may be refused with the failure that is given (`require_ends`). There is a result if
requests below the target are nested at most as deep as they are followed.

A trace is checked question by question. As long as the answers are the recorded ones, the next
question is one that the rule of the target would ask now (`Tracked.Steps.asks`), so checking a
trace does not lead where running the rule would not.
-/

namespace ImportIndex.Scope

open Session

variable {scope : Scope} {s : Session} {t : Path} {require : Session.Require} {can : Path → Prop}

/-- How requiring a target ends. -/
def Required (scope : Scope) (s : Session) (t : Path) (result : Except Failure String)
    (s' : Session) : Prop :=
  scope.Inv s' ∧ Later s.stack s s' ∧
    match result with
    | .ok digest => s'.progress.get? t = some (.done digest)
    | .error cause => scope.refuses t cause

/-- Whether targets are required as they should, with a result for those that satisfy `can`. -/
def Serves (scope : Scope) (require : Session.Require) (can : Path → Prop) : Prop :=
  ∀ s t, scope.Inv s → scope.allowed t → (∀ u ∈ s.stack.head?, scope.Needs u t) →
    (require t).Ends s (can t) (scope.Required s t)

/-- What goes on from a session goes on from every session that this one goes on from. -/
theorem ends_later {α : Type} {x : SessionM α} {s' : Session} {must : Prop}
    {post : α → Session → Prop} (h : Later s.stack s s')
    (hx : x.Ends s' must fun r s'' => scope.Inv s'' ∧ Later s'.stack s' s'' ∧ post r s'') :
    x.Ends s' must fun r s'' => scope.Inv s'' ∧ Later s.stack s s'' ∧ post r s'' :=
  hx.mono fun _ _ hr => ⟨hr.1, h.trans (h.stack ▸ hr.2.1), hr.2.2⟩

/-! ### The target on top of the stack -/

/-- The target on top is none of those below it. -/
theorem Inv.ne_of_mem_tail (hi : scope.Inv s) (htop : s.stack.head? = some t) {u : Path}
    (hu : u ∈ s.stack.tail) : t ≠ u := by
  rintro rfl
  obtain ⟨l, hl⟩ := List.head?_eq_some_iff.1 htop
  have hnodup := hi.nodup
  rw [hl, List.nodup_cons] at hnodup
  rw [hl] at hu
  exact hnodup.1 hu

/-- Writing the target on top leaves the files of those below it. -/
theorem Inv.write_top (hl : scope.Lawful) (hi : scope.Inv s) (htop : s.stack.head? = some t)
    (c : Content) : scope.Inv { s with disk := (Disk.writeIfChanged t c s.disk).2 } ∧
      Later s.stack.tail s { s with disk := (Disk.writeIfChanged t c s.disk).2 } := by
  have ht := List.mem_of_mem_head? htop
  refine ⟨hi.write hl ht c, id, rfl, fun _ _ => rfl, fun u hu d hd => ?_⟩
  exact hl.apart hi.reaches (hi.stack ht).1 (hi.stack (List.mem_of_mem_tail hu)).1
    (hi.ne_of_mem_tail htop hu) hd

/-- With a genuine trace whose questions are answered and the artifact that it is about, the target on
    top is ready, and the traces of those below it stay. -/
theorem Inv.trace_top (hl : scope.Lawful) (hi : scope.Inv s) (htop : s.stack.head? = some t)
    {trace : Trace} {c : Content} (hg : trace.Genuine scope.book scope.refuses t c) (stats : Stats)
    (hdeps : ∀ d ∈ trace.deps, scope.Answered s d) (hread : s.disk.read t = .ok c) :
    scope.Inv { s with stats, traces := s.traces.insert t trace } ∧
      Later s.stack.tail s { s with stats, traces := s.traces.insert t trace } ∧
        scope.Ready { s with stats, traces := s.traces.insert t trace } t c := by
  have ht := List.mem_of_mem_head? htop
  have hlater : Later s.stack.tail s { s with stats, traces := s.traces.insert t trace } := by
    refine ⟨id, rfl, fun u hu => ?_, fun _ _ _ => id⟩
    exact PathTable.get?_insert_of_not_same (hl.not_same (hi.stack ht).1
      (hi.stack (List.mem_of_mem_tail hu)).1 (hi.ne_of_mem_tail htop hu))
  exact ⟨hi.trace hl ht hg stats, hlater,
    ⟨trace, PathTable.get?_insert_of_same rfl, hg, fun d hd => (hdeps d hd).later hlater⟩, hread⟩

/-! ### Answering requests -/

/-- Whether something is upheld while the requests of a rule are answered. It may be about the dependencies
    that were left so far, the last one first. -/
structure Upholds (scope : Scope) (require : Session.Require) (t : Path) (must : Prop)
    (P : List Dependency → Session → Prop) : Prop where
  /-- The session keeps its invariant. -/
  inv : ∀ {before s}, P before s → scope.Inv s
  /-- What is told does not matter. -/
  tell : ∀ {before s} e, P before s → P before { s with told := e :: s.told }
  /-- A question about a file is answered as it is at the start. -/
  file : ∀ {before s d}, scope.Answered s d → (∀ u digest, d ≠ .artifact u digest) → P before s →
    P (d :: before) s
  /-- A target that the rule asks for is done, with a content that its rule makes, or it may be refused. -/
  need : ∀ {before s u}, scope.Asks t (.artifact u) → P before s →
    (needFor require t u).Ends s must fun r s' => match r with
      | .error cause => P before s' ∧ scope.refuses u cause
      | .ok d => P (d :: before) s' ∧ ∃ c, d = .artifact u (scope.book.digest c) ∧ scope.makes u c ∧
          s'.disk.read u = .ok c

/-- What is upheld while the requests of a rule are answered is so at the end, when the rule has done what it
    does in the world at the start of the session. -/
theorem Upholds.answer {must : Prop} {P : List Dependency → Session → Prop}
    (h : scope.Upholds require t must P) (hl : scope.Lawful) (ht : scope.allowed t) {rule : Rule}
    (hfind : scope.book.find t = .ok rule) {x : Tracked (Except Failure Content)}
    {before : List Dependency}
    (hx : Tracked.Steps scope.book scope.world 0 (rule.recipe t).run before.reverse x)
    (hs : P before s) :
    (answer scope.book require t x before).Ends s must fun r s' =>
      P r.2.reverse s' ∧
        Tracked.Steps scope.book scope.world 0 (rule.recipe t).run r.2 (.done r.1) := by
  induction x generalizing s before with
  | done result => exact .pure ⟨by simpa using hs, hx⟩
  | readText p next ih =>
    have hcontent := hl.content (h.inv hs).reaches ht ⟨_, _, _, hfind, hx, rfl⟩
    refine SessionM.Ends.bind .of_get fun _ _ hget => ?_
    obtain ⟨rfl, rfl⟩ := hget
    have hstep := hx.concat (Tracked.Step.readText hcontent)
    refine ih _ ?_ ?_
    · cases hrec : contentRead? scope.book p (s.disk.read p) <;> simpa [hrec] using hstep
    · cases hrec : contentRead? scope.book p (s.disk.read p) with
      | none => exact hs
      | some d =>
        obtain rfl := contentRead?_eq_some hrec
        exact h.file (congrArg _ hcontent.symm) (by simp) hs
  | isFile p next ih =>
    have hpresence := hl.presence (h.inv hs).reaches ht ⟨_, _, _, hfind, hx, rfl⟩
    rw [← Disk.isFile_eq_isSome_read] at hpresence
    refine SessionM.Ends.bind .of_get fun _ _ hget => ?_
    obtain ⟨rfl, rfl⟩ := hget
    rw [hpresence]
    refine ih _ ?_ (h.file rfl (by simp) hs)
    simpa [World.isFile, Scope.world, hpresence, Disk.isFile_eq_isSome_read] using hx.concat .isFile
  | need u next ih =>
    rw [Session.answer]
    refine (h.need ⟨_, _, _, hfind, hx, rfl⟩ hs).bind fun r s' hr => ?_
    cases r with
    | error cause => exact ih _ (by simpa using hx.concat (.needRefused hr.2)) hr.1
    | ok d =>
      obtain ⟨hs', c, rfl, hmakes, -⟩ := hr
      exact ih _ (by simpa using hx.concat (.need hmakes)) hs'
  | artifact u next ih =>
    rw [Session.answer]
    refine (h.need ⟨_, _, _, hfind, hx, rfl⟩ hs).bind fun r s' hr => ?_
    cases r with
    | error cause => exact ih _ (by simpa using hx.concat (.artifactRefused hr.2)) hr.1
    | ok d =>
      obtain ⟨hs', c, rfl, hmakes, hread⟩ := hr
      refine SessionM.Ends.bind .of_get fun _ _ hget => ?_
      obtain ⟨rfl, rfl⟩ := hget
      rw [readText_eq_artifactText hread]
      exact ih _ (by simpa using hx.concat (.artifact hmakes)) hs'
  | count next ih => exact ih _ (by simpa using hx.concat .count) hs
  | tell event next ih =>
    refine SessionM.Ends.bind .of_modify fun _ s' hs' => ?_
    exact ih (by simpa using hx.concat .tell) (hs' ▸ h.tell event hs)

/-- What was answered so far leads the rule of a genuine trace to the next question in it. -/
theorem asks_of_answered (hl : scope.Lawful) (hi : scope.Inv s) (ht : scope.allowed t) {trace : Trace}
    {c : Content} (hg : trace.Genuine scope.book scope.refuses t c) {pre rest : List Dependency}
    {d : Dependency} (hdeps : trace.deps = pre ++ d :: rest) (hpre : ∀ e ∈ pre, scope.Answered s e) :
    scope.Asks t d.question := by
  obtain ⟨w, rule, hfind, -, hw, hsteps⟩ := hg.steps
  obtain ⟨y, hy, hq⟩ := hsteps.asks (v := scope.world) hl.injective (hl.heeds ht hfind) hw hdeps
    fun e he => (hpre e he).agrees hl hi
  exact ⟨rule, pre, y, hfind, hy, hq⟩

/-! ### Checking a trace -/

theorem digestOf_ends {p : Path} {must : Prop} : (digestOf scope.book p).Ends s must fun found s' =>
    (s.disk.read p).toOption.map scope.book.digest = found ∧ s = s' :=
  .bind .of_get fun _ _ h => by
    obtain ⟨rfl, rfl⟩ := h
    exact .pure ⟨rfl, rfl⟩

section

variable (hl : scope.Lawful) (hi : scope.Inv s) (hreq : scope.Serves require can)
  (ht : scope.allowed t) (htop : s.stack.head? = some t) {must : Prop}
  (hmust : must → ∀ u, scope.Asks t (.artifact u) → can u)

include hl hi hreq ht htop hmust

/-- A question that the rule of a target asks has the recorded answer if the check says so. -/
theorem holds_ends {d : Dependency} (hd : scope.Asks t d.question) :
    (holds scope.book require t d).Ends s must fun ok s' =>
      scope.Inv s' ∧ Later s.stack s s' ∧ (ok = true → scope.Answered s' d) := by
  cases d with
  | content p digest =>
    refine digestOf_ends.bind fun found s' h => .pure ?_
    obtain ⟨rfl, rfl⟩ := h
    refine ⟨hi, .refl, fun h => ?_⟩
    rw [hl.content hi.reaches ht hd] at h
    exact beq_iff_eq.1 h
  | presence p found =>
    refine SessionM.Ends.bind .of_get fun s' s'' h => .pure ?_
    obtain ⟨rfl, rfl⟩ := h
    refine ⟨hi, .refl, fun h => ?_⟩
    rw [Disk.isFile_eq_isSome_read, hl.presence hi.reaches ht hd] at h
    exact beq_iff_eq.1 h
  | artifact u digest =>
    have hneeds : scope.Needs t u := ⟨ht, hd⟩
    have hu := hl.closed ht hd
    have hreq := (hreq s u hi hu (by simpa [htop] using hneeds))
    refine SessionM.Ends.bind ⟨hreq.1, fun hm => hreq.2 (hmust hm u hd)⟩ fun r s' h => ?_
    obtain ⟨hi', hlater, hr⟩ := h
    cases r with
    | ok current =>
      refine addNeed_ends.bind fun _ s'' ha => .pure ?_
      refine ⟨hi'.of_alike ha, hlater.trans ha.later, fun h => ⟨hu, ?_⟩⟩
      rw [ha.progress, ← beq_iff_eq.1 h]
      exact hr
    | error cause =>
      refine tell_ends.bind fun _ s'' ha => .pure ?_
      exact ⟨hi'.of_alike ha, hlater.trans ha.later, by simp⟩

/-- All questions in a genuine trace have the recorded answers if the check says so. -/
theorem allHold_ends {trace : Trace} {c : Content} {pre rest : List Dependency}
    (hg : trace.Genuine scope.book scope.refuses t c) (hdeps : trace.deps = pre ++ rest)
    (hpre : ∀ d ∈ pre, scope.Answered s d) :
    (allHold scope.book require t rest).Ends s must fun ok s' =>
      scope.Inv s' ∧ Later s.stack s s' ∧ (ok = true → ∀ d ∈ trace.deps, scope.Answered s' d) := by
  induction rest generalizing s pre with
  | nil =>
    rw [List.append_nil] at hdeps
    exact .pure ⟨hi, .refl, fun _ => hdeps ▸ hpre⟩
  | cons d rest ih =>
    have hasks : scope.Asks t d.question := asks_of_answered hl hi ht hg hdeps hpre
    refine (holds_ends hl hi hreq ht htop hmust hasks).bind fun ok s' h => ?_
    obtain ⟨hi', hlater, hok⟩ := h
    cases ok with
    | true =>
      have hpre' : ∀ e ∈ pre ++ [d], scope.Answered s' e := by
        intro e he
        rcases List.mem_append.1 he with he | he
        · exact (hpre e he).later hlater
        · exact List.mem_singleton.1 he ▸ hok rfl
      have hdeps' : trace.deps = (pre ++ [d]) ++ rest := by simpa using hdeps
      exact ends_later hlater (ih hi' (hlater.stack ▸ htop) hdeps' hpre')
    | false =>
      refine tell_ends.bind fun _ s'' ha => .pure ?_
      exact ⟨hi'.of_alike ha, hlater.trans ha.later, by simp⟩

/-- A target that is found to be clean is ready. -/
theorem clean?_ends {rule : Rule} :
    (clean? scope.book require rule t).Ends s must fun found s' =>
      scope.Inv s' ∧ Later s.stack s s' ∧
        ∀ digest ∈ found, ∃ c, scope.Ready s' t c ∧ scope.book.digest c = digest := by
  have hstack : t ∈ s.stack := List.mem_of_mem_head? htop
  refine SessionM.Ends.bind .of_get fun s₁ s₂ h => ?_
  obtain ⟨rfl, rfl⟩ := h
  cases htrace : s.traces.get? t with
  | none => exact .pure ⟨hi, .refl, by simp⟩
  | some trace =>
    obtain ⟨c, hg⟩ := hi.genuine ht htrace
    simp only
    split
    · refine tell_ends.bind fun _ s' ha => .pure ⟨hi.of_alike ha, ha.later, by simp⟩
    · refine digestOf_ends.bind fun found s' h => ?_
      obtain ⟨rfl, rfl⟩ := h
      split
      · refine tell_ends.bind fun _ s' ha => .pure ⟨hi.of_alike ha, ha.later, by simp⟩
      · next hout =>
        have hread : s.disk.read t = .ok c := by
          rw [not_not, hg.output] at hout
          obtain ⟨c', hc', hdigest⟩ := Option.map_eq_some_iff.1 hout
          rw [← hl.injective hdigest]
          exact Disk.toOption_eq_some_iff.1 hc'
        have hnone : trace.deps = [] ++ trace.deps := rfl
        refine (allHold_ends hl hi hreq ht htop hmust hg hnone (by simp)).bind fun ok s' h => ?_
        obtain ⟨hi', hlater, hok⟩ := h
        cases ok with
        | false => exact .pure ⟨hi', hlater, by simp⟩
        | true =>
          refine .pure ⟨hi', hlater, fun digest hd => ⟨c, ⟨⟨trace, ?_, hg, hok rfl⟩, ?_⟩, ?_⟩⟩
          · rw [hlater.traces t hstack, htrace]
          · exact hlater.files t hstack c hread
          · rw [← hg.output]
            simpa using hd

/-! ### Running a rule -/

/-- A target that is asked for is done, with a content that its rule makes, or it may be refused. -/
theorem needFor_ends (hasks : scope.Asks t (.artifact u)) :
    (needFor require t u).Ends s must fun r s' =>
      scope.Inv s' ∧ Later s.stack s s' ∧
        match r with
        | .error cause => scope.refuses u cause
        | .ok d => ∃ c, d = .artifact u (scope.book.digest c) ∧ scope.Answered s' d ∧
            scope.makes u c ∧ s'.disk.read u = .ok c := by
  have hneeds : scope.Needs t u := ⟨ht, hasks⟩
  have hu := hl.closed ht hasks
  have hreq := hreq s u hi hu (by simpa [htop] using hneeds)
  refine SessionM.Ends.bind ⟨hreq.1, fun hm => hreq.2 (hmust hm u hasks)⟩ fun r s' h => ?_
  obtain ⟨hi', hlater, hr⟩ := h
  cases r with
  | error cause => exact .pure ⟨hi', hlater, hr⟩
  | ok digest =>
    refine addNeed_ends.bind fun _ s'' ha => .pure ⟨hi'.of_alike ha, hlater.trans ha.later, ?_⟩
    obtain ⟨c, hc, rfl⟩ := hi'.done hu hr
    exact ⟨c, rfl, ⟨hu, ha.progress ▸ hr⟩, hc.makes hl, ha.disk ▸ hc.read⟩

/-- A computation that is run for a target does what it does in the world at the start of the
    session, and the dependencies that it leaves are answered. -/
theorem answer_ends {rule : Rule} (hfind : scope.book.find t = .ok rule)
    {x : Tracked (Except Failure Content)} {before : List Dependency}
    (hx : Tracked.Steps scope.book scope.world 0 (rule.recipe t).run before.reverse x)
    (hbefore : ∀ d ∈ before, scope.Answered s d) :
    (answer scope.book require t x before).Ends s must fun r s' =>
      scope.Inv s' ∧ Later s.stack s s' ∧ (∀ d ∈ r.2, scope.Answered s' d) ∧
        Tracked.Steps scope.book scope.world 0 (rule.recipe t).run r.2 (.done r.1) := by
  have upholds : scope.Upholds require t must fun before s₁ =>
      scope.Inv s₁ ∧ Later s.stack s s₁ ∧ ∀ d ∈ before, scope.Answered s₁ d := by
    constructor
    case inv => exact fun h => h.1
    case tell =>
      rintro before s₁ e ⟨hi₁, hlater, hbefore⟩
      have ha : Alike s₁ { s₁ with told := e :: s₁.told } := ⟨rfl, rfl, rfl, rfl⟩
      exact ⟨hi₁.of_alike ha, hlater.trans ha.later, fun d hd => Answered.alike (hbefore d hd) ha⟩
    case file =>
      rintro before s₁ d hd - ⟨hi₁, hlater, hbefore⟩
      exact ⟨hi₁, hlater, List.forall_mem_cons.2 ⟨hd, hbefore⟩⟩
    case need =>
      rintro before s₁ u hasks ⟨hi₁, hlater, hbefore⟩
      have htop₁ : s₁.stack.head? = some t := hlater.stack ▸ htop
      refine (needFor_ends hl hi₁ hreq ht htop₁ hmust hasks).mono fun r s₂ h => ?_
      obtain ⟨hi₂, hlater₂, hr⟩ := h
      have hbefore₂ : ∀ d ∈ before, scope.Answered s₂ d := fun d hd => (hbefore d hd).later hlater₂
      have hlater' : Later s.stack s s₂ := hlater.trans (hlater.stack ▸ hlater₂)
      cases r with
      | error cause => exact ⟨⟨hi₂, hlater', hbefore₂⟩, hr⟩
      | ok d =>
        obtain ⟨c, rfl, hd, hmakes, hread⟩ := hr
        exact ⟨⟨hi₂, hlater', List.forall_mem_cons.2 ⟨hd, hbefore₂⟩⟩, c, rfl, hmakes, hread⟩
  refine (upholds.answer hl ht hfind hx ⟨hi, .refl, hbefore⟩).mono fun r s' h => ?_
  obtain ⟨⟨hi', hlater, hdeps⟩, hsteps⟩ := h
  exact ⟨hi', hlater, fun d hd => hdeps d (List.mem_reverse.2 hd), hsteps⟩

/-- A target that is made is ready, or it may be refused. -/
theorem make_ends {rule : Rule} (hfind : scope.book.find t = .ok rule) :
    (make scope.book require rule t).Ends s must fun r s' =>
      scope.Inv s' ∧ Later s.stack.tail s s' ∧
        match r with
        | .ok digest => ∃ c, scope.Ready s' t c ∧ scope.book.digest c = digest
        | .error cause => scope.refuses t cause ∧ cause.isCycle = false := by
  have hnone : Tracked.Steps scope.book scope.world 0 (rule.recipe t).run [].reverse
      (rule.recipe t).run := .refl
  refine (answer_ends hl hi hreq ht htop hmust hfind hnone (by simp)).bind fun r s₁ h => ?_
  obtain ⟨result, deps⟩ := r
  obtain ⟨hi₁, hlater, hdeps, hsteps⟩ := h
  have hbelow : Later s.stack.tail s s₁ := hlater.mono fun u hu => List.mem_of_mem_tail hu
  have htop₁ : s₁.stack.head? = some t := hlater.stack ▸ htop
  have htail : s₁.stack.tail = s.stack.tail := congrArg List.tail hlater.stack
  cases result with
  | error cause => exact .pure ⟨hi₁, hbelow, hl.failed ht hfind hsteps, rfl⟩
  | ok c =>
    have hwrite : (writeArtifact t c).Ends s₁ must fun r s' =>
        r = (Disk.writeIfChanged t c s₁.disk).1 ∧
          s' = { s₁ with disk := (Disk.writeIfChanged t c s₁.disk).2 } :=
      .of_eq_some rfl ⟨rfl, rfl⟩
    refine hwrite.bind fun r s₂ h => ?_
    obtain ⟨rfl, rfl⟩ := h
    obtain ⟨hi₂, hlater₂⟩ := hi₁.write_top hl htop₁ c
    have hdeps₂ : ∀ d ∈ deps, scope.Answered
        { s₁ with disk := (Disk.writeIfChanged t c s₁.disk).2 } d := fun d hd =>
      (hdeps d hd).later hlater₂
    replace hlater₂ := hbelow.trans (htail ▸ hlater₂)
    rcases hresult : Disk.writeIfChanged t c s₁.disk with ⟨fault | written, disk⟩
    · rw [hresult] at hi₂ hlater₂
      exact .pure ⟨hi₂, hlater₂, hl.unwritten hi₁.reaches ht (hl.made ht hfind hsteps)
        (congrArg Prod.fst hresult), rfl⟩
    · rw [hresult] at hi₂ hlater₂ hdeps₂
      have hg : Trace.Genuine scope.book scope.refuses t c
          { rule := rule.name, output := scope.book.digest c, deps } :=
        ⟨rfl, scope.world, rule, hfind, rfl, fun _ _ => id, hsteps⟩
      refine SessionM.Ends.bind .of_modify fun _ s₃ h => ?_
      obtain ⟨hi₃, hlater₃, hready⟩ :
          scope.Inv s₃ ∧ Later s.stack.tail s s₃ ∧ scope.Ready s₃ t c := by
        subst h
        obtain ⟨hi₃, hlater₃, hready⟩ :=
          hi₂.trace_top hl htop₁ hg _ hdeps₂ (Disk.read_of_writeIfChanged hresult)
        exact ⟨hi₃, hlater₂.trans (htail ▸ hlater₃), hready⟩
      cases written with
      | true => exact .pure ⟨hi₃, hlater₃, c, hready, rfl⟩
      | false =>
        refine tell_ends.bind fun _ s₄ ha => .pure ?_
        exact ⟨hi₃.of_alike ha, hlater₃.trans ha.later, c, hready.of_alike ha, rfl⟩

/-- A target that is brought up to date is ready, or it may be refused. -/
theorem bringUpToDate_ends {rule : Rule} (hfind : scope.book.find t = .ok rule) :
    (bringUpToDate scope.book require rule t).Ends s must fun r s' =>
      scope.Inv s' ∧ Later s.stack.tail s s' ∧
        match r with
        | .ok digest => ∃ c, scope.Ready s' t c ∧ scope.book.digest c = digest
        | .error cause => scope.refuses t cause ∧ cause.isCycle = false := by
  refine (clean?_ends hl hi hreq ht htop hmust).bind fun found s₁ h => ?_
  obtain ⟨hi₁, hlater, hfound⟩ := h
  replace hlater := hlater.mono fun u hu => List.mem_of_mem_tail hu
  cases found with
  | some digest =>
    obtain ⟨c, hready, hdigest⟩ := hfound digest rfl
    refine SessionM.Ends.bind .of_modify fun _ s₂ h => tell_ends.bind fun _ s₃ ha' => .pure ?_
    have ha : Alike s₁ s₂ := h ▸ ⟨rfl, rfl, rfl, rfl⟩
    exact ⟨(hi₁.of_alike ha).of_alike ha', (hlater.trans ha.later).trans ha'.later, c,
      (hready.of_alike ha).of_alike ha', hdigest⟩
  | none =>
    refine tell_ends.bind fun _ s₂ ha => ?_
    have hstack : s₂.stack = s.stack := ha.stack.trans hlater.stack
    have hmake := make_ends hl (hi₁.of_alike ha) hreq ht (hstack ▸ htop) hmust hfind
    rw [hstack] at hmake
    exact hmake.mono fun r s₃ h => ⟨h.1, (hlater.trans ha.later).trans h.2.1, h.2.2⟩

end

/-! ### Requiring a target -/

/-- What a target that gets a progress does to the progress of targets. -/
theorem get?_progress (hl : scope.Lawful) (ht : scope.allowed t) {u : Path} (hu : scope.allowed u)
    {progress : PathTable Progress} {p : Progress} :
    (progress.insert t p).get? u = if t = u then some p else progress.get? u := by
  split
  · next h => exact PathTable.get?_insert_of_same (h ▸ rfl)
  · next h => exact PathTable.get?_insert_of_not_same (hl.not_same ht hu h)

/-- A target that gets a progress is one that may be required. -/
theorem visited_insert (ht : scope.allowed t) {progress : PathTable Progress} {p : Progress}
    (h : ∀ {u q}, progress.get? u = some q → ∃ v, scope.allowed v ∧ v.Same u) {u : Path}
    {q : Progress} (hu : (progress.insert t p).get? u = some q) : ∃ v, scope.allowed v ∧ v.Same u := by
  obtain ⟨hs, -⟩ | ⟨-, hu⟩ := PathTable.get?_insert_eq_some hu
  · exact ⟨t, ht, hs⟩
  · exact h hu

/-- A session that starts to bring a target up to date keeps the invariant. -/
theorem Inv.start (hl : scope.Lawful) (hi : scope.Inv s) (ht : scope.allowed t)
    (hneeds : ∀ u ∈ s.stack.head?, scope.Needs u t) (hnew : s.progress.get? t = none) :
    scope.Inv (start t s) where
  reaches := hi.reaches
  genuine := hi.genuine
  others := hi.others
  visited hu := visited_insert ht hi.visited hu
  done {u digest} hu hd := by
    rw [Session.start, get?_progress hl ht hu] at hd
    split at hd
    · cases hd
    · obtain ⟨c, hc, hdigest⟩ := hi.done hu hd
      refine ⟨c, hc.mono (fun v hv hdone => ?_) (fun _ _ _ => rfl) (fun _ _ _ _ => id), hdigest⟩
      obtain ⟨digest', hdone⟩ := hdone
      refine ⟨digest', ?_⟩
      rw [Session.start, get?_progress hl ht hv, if_neg, hdone]
      rintro rfl
      simp [hnew] at hdone
  failed {u} hu hf := by
    rw [Session.start, get?_progress hl ht hu] at hf
    split at hf
    · cases hf
    · exact hi.failed hu hf
  started {u} hu hs := by
    rw [Session.start, get?_progress hl ht hu] at hs
    split at hs
    · next h => exact h ▸ List.mem_cons_self
    · exact List.mem_cons_of_mem _ (hi.started hu hs)
  stack {u} hu := by
    rcases List.mem_cons.1 hu with rfl | hu
    · exact ⟨ht, PathTable.get?_insert_of_same rfl⟩
    · obtain ⟨hu, hs⟩ := hi.stack hu
      refine ⟨hu, ?_⟩
      rw [Session.start, get?_progress hl ht hu, hs]
      split <;> rfl
  nodup := by
    refine List.nodup_cons.2 ⟨fun h => ?_, hi.nodup⟩
    have := (hi.stack h).2
    simp [hnew] at this
  chain := by
    have hchain := hi.chain
    change (t :: s.stack).IsChain _
    cases hstack : s.stack with
    | nil => exact .singleton t
    | cons u l =>
      rw [hstack] at hchain
      exact List.isChain_cons_cons.2 ⟨hneeds u (by simp [hstack]), hchain⟩

/-- Whatever comes of the target on top of the stack, the others are as they were. -/
theorem Inv.settle (hl : scope.Lawful) (hi : scope.Inv s) {l : List Path} (hstack : s.stack = t :: l)
    {p : Progress} {s' : Session} (hdisk : s'.disk = s.disk) (htraces : s'.traces = s.traces)
    (hprogress : s'.progress = s.progress.insert t p) (htail : s'.stack = s.stack.tail)
    (hended : p ≠ .started)
    (hdone : ∀ digest, p = .done digest → ∃ c, scope.Ready s t c ∧ scope.book.digest c = digest)
    (hfailed : p = .failed → scope.refuses t (.dependencyFailed t)) : scope.Inv s' := by
  have htop : t ∈ s.stack := hstack ▸ List.mem_cons_self
  have ht : scope.allowed t := (hi.stack htop).1
  have hnodup := hi.nodup
  rw [hstack, List.nodup_cons] at hnodup
  have hget : ∀ {u}, scope.allowed u →
      s'.progress.get? u = if t = u then some p else s.progress.get? u := fun hu => by
    rw [hprogress, get?_progress hl ht hu]
  have hmono : ∀ u, scope.allowed u → s.Done u → s'.Done u := by
    rintro u hu ⟨digest, hd⟩
    exact ⟨digest, by rw [hget hu, if_neg (hi.ne_of_done htop ⟨digest, hd⟩), hd]⟩
  constructor
  case reaches => exact hdisk ▸ hi.reaches
  case genuine => exact htraces ▸ hi.genuine
  case others => exact htraces ▸ hi.others
  case visited => exact fun hu => visited_insert ht hi.visited (hprogress ▸ hu)
  case done =>
    intro u digest hu h
    rw [hget hu] at h
    rw [hdisk, htraces]
    split at h
    · next heq =>
      subst heq
      obtain ⟨c, hready, hdigest⟩ := hdone digest (Option.some.inj h)
      have hhere : s'.Done t := ⟨digest, by rw [hget ht, if_pos rfl, h]⟩
      exact ⟨c, hready.settled hi ht hhere hmono, hdigest⟩
    · obtain ⟨c, hc, hdigest⟩ := hi.done hu h
      exact ⟨c, hc.mono hmono (fun _ _ _ => rfl) (fun _ _ _ _ => id), hdigest⟩
  case failed =>
    intro u hu h
    rw [hget hu] at h
    split at h
    · next heq => exact heq ▸ hfailed (Option.some.inj h)
    · exact hi.failed hu h
  case started =>
    intro u hu h
    rw [hget hu] at h
    split at h
    · exact absurd (Option.some.inj h) hended
    · next hne =>
      have hmem := hi.started hu h
      rw [hstack, List.mem_cons] at hmem
      rw [htail, hstack]
      exact hmem.resolve_left (Ne.symm hne)
  case stack =>
    intro u hu
    rw [htail, hstack] at hu
    obtain ⟨hu', hs⟩ := hi.stack (hstack ▸ List.mem_cons_of_mem _ hu)
    refine ⟨hu', ?_⟩
    rw [hget hu', if_neg, hs]
    rintro rfl
    exact hnodup.1 hu
  case nodup =>
    rw [htail, hstack]
    exact hnodup.2
  case chain => exact htail ▸ hi.chain.tail

/-- A session that ends to bring a target up to date keeps the invariant. -/
theorem Inv.finish (hl : scope.Lawful) (hi : scope.Inv s) {l : List Path} (hstack : s.stack = t :: l)
    {result : Except Failure String}
    (hresult : match result with
      | .ok digest => ∃ c, scope.Ready s t c ∧ scope.book.digest c = digest
      | .error cause => scope.refuses t cause ∧ cause.isCycle = false) :
    scope.Inv (finish t result s) := by
  cases result with
  | ok digest =>
    refine hi.settle hl hstack (p := .done digest) rfl rfl rfl rfl (by simp) (fun d hd => ?_) (by simp)
    exact Progress.done.inj hd ▸ hresult
  | error cause =>
    exact hi.settle hl hstack (p := .failed) rfl rfl rfl rfl (by simp) (by simp) fun _ =>
      hl.again hresult.1 hresult.2

/-- A target that was not required before is done, or it may be refused. -/
theorem visit_ends (hl : scope.Lawful) (hi : scope.Inv s) (hreq : scope.Serves require can)
    (ht : scope.allowed t) (hneeds : ∀ u ∈ s.stack.head?, scope.Needs u t)
    (hnew : s.progress.get? t = none) {must : Prop}
    (hmust : must → ∀ u, scope.Asks t (.artifact u) → can u) :
    (visit scope.book require t).Ends s must (scope.Required s t) := by
  refine SessionM.Ends.bind .of_modify fun _ s₁ h => ?_
  subst h
  have hi₁ := hi.start hl ht hneeds hnew
  have hfinish : ∀ r s₂, (scope.Inv s₂ ∧ Later s.stack (start t s) s₂ ∧
        match r with
        | .ok digest => ∃ c, scope.Ready s₂ t c ∧ scope.book.digest c = digest
        | .error cause => scope.refuses t cause ∧ cause.isCycle = false) →
      (do
        modify (finish t r)
        return r : SessionM (Except Failure String)).Ends s₂ must (scope.Required s t) := by
    intro r s₂ ⟨hi₂, hlater, hr⟩
    have hstack : s₂.stack = t :: s.stack := hlater.stack
    refine SessionM.Ends.bind .of_modify fun _ s₃ h => .pure ?_
    subst h
    have hdone : ∀ {u digest p}, s.progress.get? u = some (.done digest) →
        (s₂.progress.insert t p).get? u = some (.done digest) := by
      intro u digest p hu
      have hne : ¬ t.Same u := fun h => by simp [PathTable.get?_congr h, hu] at hnew
      rw [PathTable.get?_insert_of_not_same hne]
      exact hlater.done ((PathTable.get?_insert_of_not_same hne).trans hu)
    refine ⟨hi₂.finish hl hstack hr, ?_, ?_⟩
    · cases r <;> exact ⟨hdone, congrArg List.tail hstack, hlater.traces, hlater.files⟩
    · cases r with
      | ok digest => exact PathTable.get?_insert_of_same rfl
      | error cause => exact hr.1
  cases hfind : scope.book.find t with
  | error cause =>
    have hcycle := Rulebook.isCycle_of_find hfind
    exact SessionM.Ends.bind (.pure ⟨hi₁, .refl, hl.unruled ht hfind, hcycle⟩) hfinish
  | ok rule => exact (bringUpToDate_ends hl hi₁ hreq ht rfl hmust hfind).bind hfinish

/-- Requests that are followed to some depth are served, with a result if they are nested at most so
    deep. -/
theorem require_ends (hl : scope.Lawful) (depth : Nat) :
    scope.Serves (Session.require scope.book depth) (scope.within depth) := by
  induction depth with
  | zero => exact fun s t _ _ _ => ⟨fun _ _ h => (by cases h), fun h => absurd h hl.shallow⟩
  | succ depth ih =>
    intro s t hi ht hneeds
    refine SessionM.Ends.bind .of_get fun _ _ h => ?_
    obtain ⟨rfl, rfl⟩ := h
    cases hp : s.progress.get? t with
    | none => exact visit_ends hl hi ih ht hneeds hp fun hm u hu => hl.deeper ht hm hu
    | some p =>
      cases p with
      | done digest => exact .pure ⟨hi, .refl, hp⟩
      | failed => exact .pure ⟨hi, .refl, hi.failed ht hp⟩
      | started =>
        -- The target is on the stack, and so leads to the one that asks for it now.
        refine .pure ⟨hi, .refl, hl.cycle ?_ _⟩
        have hstack := hi.started ht hp
        have hchain := hi.chain
        cases hs : s.stack with
        | nil => simp [hs] at hstack
        | cons top l =>
          rw [hs] at hstack hchain
          exact Relation.TransGen.tail' (reflTransGen_of_isChain hchain hstack)
            (hneeds top (by simp [hs]))

/-! ### Requiring several targets -/

/-- Targets that are required one after another are done, or they are among those that failed. -/
theorem requireAll_ends (hl : scope.Lawful) {depth : Nat} {targets : List Path}
    (hi : scope.Inv s) (hstack : s.stack = []) (ht : ∀ t ∈ targets, scope.allowed t) :
    (requireAll scope.book depth targets).Ends s (∀ t ∈ targets, scope.within depth t)
      fun failed s' => scope.Inv s' ∧ Later [] s s' ∧
        (∀ t ∈ targets, (∃ cause, (t, cause) ∈ failed) ∨ s'.Done t) ∧
        ∀ e ∈ failed, e.1 ∈ targets ∧ scope.refuses e.1 e.2 := by
  induction targets generalizing s with
  | nil => exact .pure ⟨hi, .refl, by simp, by simp⟩
  | cons t targets ih =>
    refine SessionM.Ends.bind .of_modify fun _ s₁ h => ?_
    have ha : Alike s s₁ := h ▸ ⟨rfl, rfl, rfl, rfl⟩
    have hi₁ := hi.of_alike ha
    have hstack₁ : s₁.stack = [] := ha.stack.trans hstack
    have hreq := require_ends hl depth s₁ t hi₁ (ht t List.mem_cons_self) (by simp [hstack₁])
    refine SessionM.Ends.bind ⟨hreq.1, fun hm => hreq.2 (hm t List.mem_cons_self)⟩ fun r s₂ h => ?_
    obtain ⟨hi₂, hlater, hr⟩ := h
    have hlater₂ : Later [] s s₂ := ha.later.trans (hlater.mono (by simp))
    have hstack₂ : s₂.stack = [] := hlater.stack.trans hstack₁
    have hrest : ∀ s₃, Alike s₂ s₃ → SessionM.Ends (requireAll scope.book depth targets) s₃
        (∀ u ∈ t :: targets, scope.within depth u) _ := fun s₃ ha =>
      have h := ih (hi₂.of_alike ha) (ha.stack.trans hstack₂) fun u hu =>
        ht u (List.mem_cons_of_mem _ hu)
      ⟨h.1, fun hm => h.2 fun u hu => hm u (List.mem_cons_of_mem _ hu)⟩
    cases r with
    | ok digest =>
      refine (hrest s₂ ⟨rfl, rfl, rfl, rfl⟩).mono fun failed s₃ h => ?_
      obtain ⟨hi₃, hlater₃, hdone, hfailed⟩ := h
      refine ⟨hi₃, hlater₂.trans hlater₃, List.forall_mem_cons.2 ⟨?_, hdone⟩, fun e he => ?_⟩
      · exact .inr ⟨digest, hlater₃.done hr⟩
      · exact ⟨List.mem_cons_of_mem _ (hfailed e he).1, (hfailed e he).2⟩
    | error cause =>
      refine tell_ends.bind fun _ s₃ ha₃ => (hrest s₃ ha₃).bind fun failed s₄ h => .pure ?_
      obtain ⟨hi₄, hlater₄, hdone, hfailed⟩ := h
      refine ⟨hi₄, (hlater₂.trans ha₃.later).trans hlater₄, List.forall_mem_cons.2 ⟨?_, ?_⟩, ?_⟩
      · exact .inl ⟨cause, List.mem_cons_self⟩
      · intro u hu
        exact (hdone u hu).imp_left fun ⟨d, hd⟩ => ⟨d, List.mem_cons_of_mem _ hd⟩
      · refine List.forall_mem_cons.2 ⟨⟨List.mem_cons_self, hr⟩, fun e he => ?_⟩
        exact ⟨List.mem_cons_of_mem _ (hfailed e he).1, (hfailed e he).2⟩

/-- A session of an engine with the traces of a scope starts with the invariant. -/
theorem inv_session (hl : scope.Lawful) :
    scope.Inv { disk := scope.disk, traces := scope.traces } where
  reaches := .start
  genuine := hl.genuine
  others _ := rfl
  visited h := by simp at h
  done _ h := by simp at h
  failed _ h := by simp at h
  started _ h := by simp at h
  stack h := by simp at h
  nodup := .nil
  chain := .nil

end ImportIndex.Scope
