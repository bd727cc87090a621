import ImportIndex.Proofs.Build.Lifecycle
import ImportIndex.Proofs.Build.World
import Mathlib.Data.Set.Card

/-!
# How far a session comes

An *extent* says which targets may be required in a session, what may be written, and how the disk may
be (`Session.Extent`). It is closed if the rules of its targets, run on such a disk, ask for no other
targets and make nothing else (`Extent.Closed`). Then every moment of a session that starts within it is
within it (`Extent.Holds.walk`): the targets on the stack belong to it, and so do those that the traces
name and those that the rules under way may still ask for.

How the disk is may depend on what was there at any moment on the way, so it is asked of the moments that
lead on to the one in question.

If only finitely many targets belong to it, up to spelling, then no more of them are on the stack
(`Extent.Holds.length_stack_le`).
-/

namespace ImportIndex

namespace Session

/-- Where nothing is changed from outside, a session changes the disk by writing artifacts. -/
theorem Leads.rewritten {book : Rulebook} {o : Outside} {m m' : Moment}
    (hchanges : ∀ s s', ¬ o.changes s s') (h : Leads book o m m') :
    m.session.disk.Rewritten (fun _ => True) m'.session.disk := by
  obtain ⟨marks, h⟩ := h
  induction h with
  | refl => exact .start
  | tail _ last ih =>
    cases last with
    | aside same => exact same.disk ▸ ih
    | change hchange => exact absurd hchange (hchanges _ _)
    | go hgoes =>
      cases hgoes with
      | unwritten | made => exact ih.write trivial _
      | _ => exact ih
    | @finish s t r => exact (disk_finish (t := t) (r := r) (s := s)).symm ▸ ih
    | _ => exact ih

/-- How far a session may come. -/
structure Extent where
  /-- The targets that may be required. -/
  targets : Path → Prop
  /-- What the artifact of a target may hold. -/
  holds : Path → Content → Prop
  /-- What may be written. -/
  makes : Content → Prop
  /-- How the disk may be. -/
  disks : Disk → Prop

namespace Extent

/-- What a rule may be told on a disk. -/
def world (e : Extent) (disk : Disk) : World where
  content p := (disk.read p).toOption
  makes := e.holds
  refuses _ _ := True

/-- Whether a computation that is run on a disk stays within the extent: it looks at the disk and asks for
    no target, or it asks for targets of the extent and does not look at the disk. -/
def Admits (e : Extent) (disk : Disk) (x : Tracked (Except Failure Content)) : Prop :=
  x.Meets (e.world disk) (fun q => ∀ u, q ≠ .artifact u) (fun r => ∀ c, r = .ok c → e.makes c) ∨
    ∀ disk, x.Meets (e.world disk) (fun q => ∃ u, q = .artifact u ∧ e.targets u)
      fun r => ∀ c, r = .ok c → e.makes c

/-- Whether an extent is closed, as far as the disk is `within` some bounds. -/
structure Closed (e : Extent) (book : Rulebook) (within : Disk → Prop) : Prop where
  /-- An artifact may hold something. -/
  holds : ∀ t, ∃ c, e.holds t c
  /-- What an artifact holds is what it may hold. -/
  reads : ∀ {d : Disk} {t c}, e.disks d → d.read t = .ok c → e.holds t c
  /-- Rules stay within the extent. -/
  rules : ∀ {d : Disk} {t rule}, e.disks d → e.targets t → book.find t = .ok rule →
    e.Admits d (rule.recipe t).run
  /-- What may be written leaves a disk that may be. -/
  writes : ∀ {d : Disk} {t c}, e.disks d → e.makes c → within (Disk.writeIfChanged t c d).2 →
    e.disks (Disk.writeIfChanged t c d).2

/-- Whether the dependencies name targets of the extent only. -/
def Names (e : Extent) (deps : List Dependency) : Prop :=
  ∀ u digest, .artifact u digest ∈ deps → e.targets u

/-- Whether a target of the extent may be at a stage. -/
def Allows (e : Extent) (book : Rulebook) (disk : Disk) (t : Path) : Stage → Prop
  | .begun => True
  | .checking rule _ deps => book.find t = .ok rule ∧ e.Names deps
  | .unclean rule => book.find t = .ok rule
  | .running _ x before => e.Names before ∧ e.Admits disk x
  | .ending _ => True

/-- What holds at a moment within the extent. -/
structure Holds (e : Extent) (book : Rulebook) (m : Moment) : Prop where
  /-- How the disk is. -/
  disk : e.disks m.session.disk
  /-- What the traces name. -/
  traces : ∀ t trace, m.session.traces.get? t = some trace → e.Names trace.deps
  /-- What is being brought up to date. -/
  frames : ∀ f ∈ m.frames, e.targets f.1 ∧ e.Allows book m.session.disk f.1 f.2
  /-- What is required. -/
  asking : ∀ t, m.now = .asking t → e.targets t

variable {book : Rulebook} {o : Outside} {e : Extent} {within : Disk → Prop} {disk disk' : Disk}
  {s s' : Session} {t u : Path} {m m' m₀ : Moment} {marks more : List Mark}
  {frames : List (Path × Stage)} {stage stage' : Stage} {r : Except Failure String}
  {x : Tracked (Except Failure Content)} {c : Content} {rule : Rule} {deps before : List Dependency}

/-! ### Stages -/

/-- A target that waits for another one may wait on any disk. -/
theorem Allows.waits (h : e.Allows book disk t stage) (hasks : stage.Asks u) :
    e.Allows book disk' t stage := by
  cases hasks with
  | check => exact h
  | need => exact ⟨h.1, .inr (h.2.resolve_left fun h => h.1 u rfl)⟩
  | artifact => exact ⟨h.1, .inr (h.2.resolve_left fun h => h.1 u rfl)⟩

/-- What a stage asks for belongs to the extent. -/
theorem Allows.asks (h : e.Allows book disk t stage) (hasks : stage.Asks u) : e.targets u := by
  have hasked : ∀ {u}, (∃ v, Question.artifact u = .artifact v ∧ e.targets v) → e.targets u := by
    rintro u ⟨v, heq, hv⟩
    obtain rfl := Question.artifact.inj heq
    exact hv
  cases hasks with
  | check => exact h.2 _ _ List.mem_cons_self
  | need => exact hasked (h.2.resolve_left (fun h => h.1 u rfl) disk).1
  | artifact => exact hasked (h.2.resolve_left (fun h => h.1 u rfl) disk).1

theorem Names.cons {d : Dependency} (h : e.Names deps) (hd : ∀ u digest, d = .artifact u digest → e.targets u) :
    e.Names (d :: deps) := by
  rintro u digest hmem
  rcases List.mem_cons.1 hmem with heq | hmem
  · exact hd u digest heq.symm
  · exact h u digest hmem

/-- Reading a file names no target. -/
theorem Names.contentRead? {p : Path} {found : Except IoFault Content} (h : e.Names before) :
    e.Names ((contentRead? book p found).toList ++ before) := by
  intro u digest hmem
  rcases List.mem_append.1 hmem with hmem | hmem
  · cases contentRead?_eq_some (Option.mem_toList.1 hmem)
  · exact h u digest hmem

section

variable (hclosed : e.Closed book within)

include hclosed

/-- A stage goes on within the extent. -/
theorem Allows.goes (htarget : e.targets t) (hdisk : e.disks s.disk)
    (htraces : ∀ t trace, s.traces.get? t = some trace → e.Names trace.deps)
    (h : e.Allows book s.disk t stage) (hgoes : Stage.Goes book t s stage marks s' stage')
    (hwithin : within s'.disk) : e.disks s'.disk ∧
      (∀ t trace, s'.traces.get? t = some trace → e.Names trace.deps) ∧
        e.Allows book s'.disk t stage' := by
  -- Only a rule that comes to its end changes anything but the stage.
  have hstays : ∀ {stage'}, e.Allows book s.disk t stage' → e.disks s.disk ∧
      (∀ t trace, s.traces.get? t = some trace → e.Names trace.deps) ∧
        e.Allows book s.disk t stage' := fun h => ⟨hdisk, htraces, h⟩
  cases hgoes with
  | unruled => exact hstays trivial
  | look find fits => exact hstays ⟨find, htraces _ _ fits.1⟩
  | changed find => exact hstays find
  | content | presence => exact hstays ⟨h.1, fun u digest hd => h.2 u digest (List.mem_cons_of_mem _ hd)⟩
  | otherContent | otherPresence => exact hstays h.1
  | clean => exact hstays trivial
  | run => exact hstays ⟨by simp [Names], hclosed.rules hdisk htarget h⟩
  | readText =>
    refine hstays ⟨h.1.contentRead?, .inl ((h.2.resolve_right fun h => ?_).2 _ rfl)⟩
    obtain ⟨u, heq, -⟩ := (h s.disk).1
    cases heq
  | @isFile _ p next =>
    have hmeets := h.2.resolve_right fun h => by
      obtain ⟨u, heq, -⟩ := (h s.disk).1
      cases heq
    refine hstays ⟨h.1.cons (by simp), .inl ?_⟩
    rw [Disk.isFile_eq_isSome_read]
    exact hmeets.2
  | count => exact hstays ⟨h.1, h.2.imp (fun h => h _) fun h disk => h disk _⟩
  | tell => exact hstays ⟨h.1, h.2.imp (fun h => h) fun h disk => h disk⟩
  | failed => exact hstays trivial
  | @unwritten _ content =>
    have hmakes : e.makes content := h.2.elim (fun h => h _ rfl) fun h => h s.disk _ rfl
    exact ⟨hclosed.writes hdisk hmakes hwithin, htraces, trivial⟩
  | @made _ content before =>
    have hmakes : e.makes content := h.2.elim (fun h => h _ rfl) fun h => h s.disk _ rfl
    refine ⟨hclosed.writes hdisk hmakes hwithin, fun u trace htrace => ?_, trivial⟩
    obtain ⟨-, rfl⟩ | ⟨-, htrace⟩ := PathTable.get?_insert_eq_some htrace
    · exact fun v digest hv => h.1 v digest (List.mem_reverse.1 hv)
    · exact htraces u trace htrace

/-- A stage goes on within the extent with the answer to its request. -/
theorem Allows.resumes (hdisk : e.disks s.disk) (h : e.Allows book s.disk t stage)
    (hresumes : Stage.Resumes s r stage stage') : e.Allows book s.disk t stage' := by
  have htarget : ∀ {u}, stage.Asks u → e.targets u := h.asks
  cases hresumes with
  | same => exact ⟨h.1, fun u digest hd => h.2 u digest (List.mem_cons_of_mem _ hd)⟩
  | differs => exact h.1
  | @need _ u =>
    obtain ⟨c, hc⟩ := hclosed.holds u
    refine ⟨h.1.cons ?_, .inr fun disk => (h.2.resolve_left (fun h => h.1 u rfl) disk).2.1 c hc⟩
    rintro v digest' heq
    obtain ⟨rfl, -⟩ := Dependency.artifact.inj heq
    exact htarget .need
  | @needRefused _ u =>
    exact ⟨h.1, .inr fun disk => (h.2.resolve_left (fun h => h.1 u rfl) disk).2.2 _ trivial⟩
  | @artifact _ u =>
    refine ⟨h.1.cons ?_, .inr fun disk => ?_⟩
    · rintro v digest' heq
      obtain ⟨rfl, -⟩ := Dependency.artifact.inj heq
      exact htarget .artifact
    · have hmeets := (h.2.resolve_left (fun h => h.1 u rfl) disk).2
      cases hread : s.disk.read u with
      | ok c =>
        rw [readText_eq_artifactText hread]
        exact hmeets.1 c (hclosed.reads hdisk hread)
      | error fault =>
        rw [Disk.readText, hread]
        exact hmeets.2 _ trivial
  | @artifactRefused _ u =>
    exact ⟨h.1, .inr fun disk => (h.2.resolve_left (fun h => h.1 u rfl) disk).2.2 _ trivial⟩

end

namespace Holds

theorem session {disk : Disk} {traces : TraceTable} (hdisk : e.disks disk)
    (htraces : ∀ t trace, traces.get? t = some trace → e.Names trace.deps) :
    e.Holds book ⟨{ disk, traces }, [], .working⟩ where
  disk := hdisk
  traces := htraces
  frames := by simp
  asking := by simp

/-- What changes neither the disk nor the traces stays within the extent. -/
theorem next {now : Now} (h : e.Holds book m) (hdisk : s.disk = m.session.disk)
    (htraces : s.traces = m.session.traces)
    (hframes : ∀ f ∈ frames, f ∈ m.frames ∨ e.targets f.1 ∧ e.Allows book m.session.disk f.1 f.2)
    (hasking : ∀ t, now = .asking t → e.targets t) : e.Holds book ⟨s, frames, now⟩ where
  disk := hdisk ▸ h.disk
  traces := htraces ▸ h.traces
  frames f hf := hdisk ▸ (hframes f hf).elim (h.frames f) id
  asking := hasking

/-- What holds at a moment holds after every step, as far as the disk is within the bounds. -/
theorem step (hclosed : e.Closed book within) (hrequires : ∀ t, o.requires t → e.targets t)
    (hchanges : ∀ s s', ¬ o.changes s s') (horderly : Orderly marks m) (h : e.Holds book m)
    (hstep : Step book o m more m') (hwithin : within m'.session.disk) : e.Holds book m' := by
  cases hstep with
  | aside same => exact h.next same.disk same.traces (fun f => .inl) h.asking
  | change hchange => exact absurd hchange (hchanges _ _)
  | request ht => exact h.next rfl rfl (by simp) fun u hu => hrequires u (Now.asking.inj hu ▸ ht)
  | reply => exact h.next rfl rfl (by simp) (by simp)
  | done => exact h.next rfl rfl (fun f => .inl) (by simp)
  | failed => exact h.next rfl rfl (fun f => .inl) (by simp)
  | cycle => exact h.next rfl rfl (fun f => .inl) (by simp)
  | @start s frames t =>
    refine h.next rfl rfl (fun f hf => ?_) (by simp)
    rcases List.mem_cons.1 hf with rfl | hf
    · exact .inr ⟨h.asking t rfl, trivial⟩
    · exact .inl hf
  | @go s s' t stage stage' _ frames hgoes =>
    obtain ⟨htarget, hallows⟩ := h.frames _ List.mem_cons_self
    obtain ⟨hdisk, htraces, hallows'⟩ := hallows.goes hclosed htarget h.disk h.traces hgoes hwithin
    refine ⟨hdisk, htraces, fun f hf => ?_, by simp⟩
    rcases List.mem_cons.1 hf with rfl | hf
    · exact ⟨htarget, hallows'⟩
    · -- The others wait for the innermost, and the disk does not matter to them.
      obtain ⟨u, hasks⟩ := horderly.exists_asks hf
      obtain ⟨htarget, hallows⟩ := h.frames f (List.mem_cons_of_mem _ hf)
      exact ⟨htarget, hallows.waits hasks⟩
  | ask hasks =>
    refine h.next rfl rfl (fun f => .inl) fun v hv => ?_
    obtain rfl := Now.asking.inj hv
    exact (h.frames _ List.mem_cons_self).2.asks hasks
  | resume hresumes =>
    obtain ⟨htarget, hallows⟩ := h.frames _ List.mem_cons_self
    refine h.next rfl rfl (fun f hf => ?_) (by simp)
    rcases List.mem_cons.1 hf with rfl | hf
    · exact .inr ⟨htarget, hallows.resumes hclosed h.disk hresumes⟩
    · exact .inl (List.mem_cons_of_mem _ hf)
  | finish => exact h.next disk_finish traces_finish (fun f hf => .inl (List.mem_cons_of_mem _ hf)) (by simp)

/-- What holds at a moment holds wherever a walk leads on which the disk is within the bounds. -/
theorem walk (hclosed : e.Closed book within) (hrequires : ∀ t, o.requires t → e.targets t)
    (hchanges : ∀ s s', ¬ o.changes s s') (horderly : Orderly marks m) (h : e.Holds book m)
    (hwalk : Walk book o m more m')
    (hwithin : ∀ m₁, Leads book o m m₁ → Leads book o m₁ m' → within m₁.session.disk) :
    e.Holds book m' := by
  induction hwalk with
  | refl => exact h
  | tail before last ih =>
    have hbefore := ih fun m₁ hm hm₁ => hwithin m₁ hm (hm₁.step last)
    exact hbefore.step hclosed hrequires hchanges (horderly.walk before) last
      (hwithin _ ⟨_, before.tail last⟩ .refl)

/-- No more targets are on the stack than belong to the extent, in all spellings. -/
theorem length_stack_le (h : e.Holds book m) (horderly : Orderly marks m) {known : Set Path}
    (hfinite : (Path.components '' known).Finite)
    (hknown : ∀ t, e.targets t → ∃ u ∈ known, u.Same t) :
    m.session.stack.length ≤ (Path.components '' known).ncard := by
  have hnodup : (m.session.stack.map Path.components).Nodup := List.pairwise_map.2 horderly.distinct
  rw [← List.length_map (f := Path.components), ← List.toFinset_card_of_nodup hnodup,
    ← Set.ncard_coe_finset]
  refine Set.ncard_le_ncard (fun cs hcs => ?_) hfinite
  rw [List.coe_toFinset, Set.mem_ofPred_eq, horderly.stack, List.map_map] at hcs
  obtain ⟨f, hf, rfl⟩ := List.mem_map.1 hcs
  obtain ⟨u, hu, hs⟩ := hknown f.1 (h.frames f hf).1
  exact ⟨u, hu, hs⟩

end Holds

end Extent

end Session

end ImportIndex
