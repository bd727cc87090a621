import Mathlib
import ImportIndex.Proofs.Build.Backing
import ImportIndex.Proofs.Build.History

/-!
# Building again does nothing

A target is *current* if its trace would be found to hold, and so would the traces of all that it
needs, to some depth (`Rulebook.Current`). A session that requires current targets only runs no rule
and writes nothing (`Session.Idle`, `requireAll_rests`), whatever its rules would do.

After a build that succeeds, its targets are current (`Backed.current`). So the same build, done
again, does nothing (`Engine.build_again`), by the same rules or by others of the same names, as long as
what the first build wrote does not change the answers that it recorded. That no recorded question is
about something that was written is not enough, and the trace file must not be a target
(`exists_rebuilt_again`).
-/

namespace ImportIndex

/-- Whether a recorded answer still holds, where `needed` says what targets have which digest. -/
def Dependency.Holds (book : Rulebook) (disk : Disk) (needed : Path → String → Prop) :
    Dependency → Prop
  | .content p digest => (disk.read p).toOption.map book.digest = digest
  | .presence p found => disk.isFile p = found
  | .artifact u digest => needed u digest

theorem Dependency.Holds.mono {book : Rulebook} {disk : Disk} {needed needed' : Path → String → Prop}
    {d : Dependency} (h : d.Holds book disk needed) (hn : ∀ {u digest}, needed u digest →
      needed' u digest) : d.Holds book disk needed' := by
  cases d with
  | content p digest => exact h
  | presence p found => exact h
  | artifact u digest => exact hn h

namespace Rulebook

variable {book : Rulebook} {targets : Path → Prop} {disk : Disk} {traces : TraceTable} {t u : Path}
  {digest digest' : String} {n m : Nat}

/-- Whether a target has this digest and its trace holds, as do those of all that it needs, which need
    one another at most `n` levels deep. -/
def Current (book : Rulebook) (targets : Path → Prop) (disk : Disk) (traces : TraceTable) :
    Nat → Path → String → Prop
  | 0, _, _ => False
  | n + 1, t, digest => targets t ∧ ∃ rule trace, book.find t = .ok rule ∧
      traces.get? t = some trace ∧ trace.rule = rule.name ∧ trace.output = digest ∧
      (disk.read t).toOption.map book.digest = some digest ∧
      ∀ d ∈ trace.deps, d.Holds book disk (Current book targets disk traces n)

namespace Current

theorem succ (h : book.Current targets disk traces n t digest) :
    book.Current targets disk traces (n + 1) t digest := by
  induction n generalizing t digest with
  | zero => exact h.elim
  | succ n ih =>
    obtain ⟨ht, rule, trace, hfind, hkept, hname, houtput, hread, hdeps⟩ := h
    exact ⟨ht, rule, trace, hfind, hkept, hname, houtput, hread, fun d hd => (hdeps d hd).mono ih⟩

theorem mono (hnm : n ≤ m) (h : book.Current targets disk traces n t digest) :
    book.Current targets disk traces m t digest := by
  induction hnm with
  | refl => exact h
  | step _ ih => exact ih.succ

theorem target (h : book.Current targets disk traces n t digest) : targets t := by
  cases n with
  | zero => exact h.elim
  | succ n => exact h.1

/-- A target that is current has one digest. -/
theorem unique (h : book.Current targets disk traces n t digest)
    (h' : book.Current targets disk traces m t digest') : digest = digest' := by
  cases n with
  | zero => exact h.elim
  | succ n =>
    cases m with
    | zero => exact h'.elim
    | succ m =>
      obtain ⟨-, -, trace, -, hkept, -, rfl, -⟩ := h
      obtain ⟨-, -, trace', -, hkept', -, rfl, -⟩ := h'
      rw [Option.some.inj (hkept.symm.trans hkept')]

end Current

end Rulebook

namespace Session

variable {book : Rulebook} {targets : Path → Prop} {disk : Disk} {traces : TraceTable}
  {s s' s'' : Session} {t u : Path} {digest : String} {n m : Nat} {req : Require}
  {deps : List Dependency}

/-- Whether a session has found targets clean and has done nothing else. -/
structure Idle (book : Rulebook) (targets : Path → Prop) (disk : Disk) (traces : TraceTable)
    (s : Session) : Prop where
  /-- No target failed, and those that are done are current. -/
  progress : ∀ {u p}, targets u → s.progress.get? u = some p →
    p = .started ∨ ∃ n digest, p = .done digest ∧ book.Current targets disk traces n u digest
  /-- Nothing was written. -/
  disk : s.disk = disk
  /-- The traces are those at the start. -/
  traces : s.traces = traces
  /-- The tasks are the targets that were required. -/
  tasks : ∀ {u}, s.graph.added.contains u = true ↔ s.progress.get? u ≠ none
  /-- Nothing else was required. -/
  visited : ∀ {u}, s.progress.get? u ≠ none → ∃ v, targets v ∧ v.Same u
  /-- All of them are clean, or are being checked. -/
  clean : s.stats.clean + s.stack.length = s.graph.tasks.length
  /-- Nothing was made. -/
  spared : s.stats.rebuilt = 0 ∧ s.stats.written = 0 ∧ s.stats.unchanged = 0 ∧ s.stats.failed = 0
  /-- Nothing was told but that. -/
  told : ∀ e ∈ s.told, ∃ t, e = .clean t

/-- Whether a session has gone on to do nothing. -/
structure Rests (book : Rulebook) (targets : Path → Prop) (disk : Disk) (traces : TraceTable)
    (s s' : Session) : Prop where
  /-- It has done nothing. -/
  idle : Idle book targets disk traces s'
  /-- The same targets are being checked. -/
  stack : s'.stack = s.stack
  /-- What was begun is ended. -/
  started : ∀ {u}, s'.progress.get? u = some .started → s.progress.get? u = some .started
  /-- What was required stays so. -/
  visited : ∀ {u}, s.progress.get? u ≠ none → s'.progress.get? u ≠ none

/-- A session that has required nothing has done nothing. -/
theorem Idle.session : Idle book targets disk traces { disk, traces } where
  progress _ hp := by simp at hp
  disk := rfl
  traces := rfl
  tasks {u} := by
    have hnone : (∅ : FirstSeen).contains u = false := by
      change (∅ : PathTable Unit).contains u = false
      simp [PathTable.contains_eq_isSome_get?]
    exact ⟨fun h => (by simp [hnone] at h), fun h => (by simp at h)⟩
  visited hu := by simp at hu
  clean := rfl
  spared := ⟨rfl, rfl, rfl, rfl⟩
  told := by simp

theorem Idle.rests (h : Idle book targets disk traces s) : Rests book targets disk traces s s :=
  ⟨h, rfl, id, id⟩

theorem Rests.trans (h : Rests book targets disk traces s s')
    (h' : Rests book targets disk traces s' s'') : Rests book targets disk traces s s'' :=
  ⟨h'.idle, h'.stack.trans h.stack, fun hu => h.started (h'.started hu),
    fun hu => h'.visited (h.visited hu)⟩

theorem addNeed_rests (h : Idle book targets disk traces s) (ht : s.progress.get? t ≠ none)
    (hu : s.progress.get? u ≠ none) :
    (addNeed t u).Ends s True fun _ s' => Rests book targets disk traces s s' := by
  refine SessionM.Ends.mono .of_modify fun _ s' hs => ?_
  subst hs
  have hadded := TaskGraph.added_addDependency (h.tasks.2 ht) (h.tasks.2 hu)
  refine ⟨⟨h.progress, h.disk, h.traces, ?_, h.visited, ?_, h.spared, h.told⟩, rfl, id, id⟩
  · simp only [hadded]
    exact h.tasks
  · simp only [TaskGraph.tasks, hadded]
    exact h.clean

/-- Whether no target that is being checked is current to a depth. -/
def Clear (book : Rulebook) (targets : Path → Prop) (disk : Disk) (traces : TraceTable) (n : Nat)
    (s : Session) : Prop :=
  ∀ {v digest}, targets v → s.progress.get? v = some .started →
    ¬ book.Current targets disk traces n v digest

/-- How requiring a current target ends. -/
def Rested (book : Rulebook) (targets : Path → Prop) (disk : Disk) (traces : TraceTable)
    (s : Session) (t : Path) (digest : String) (r : Except Failure String) (s' : Session) : Prop :=
  r = .ok digest ∧ Rests book targets disk traces s s' ∧ s'.progress.get? t = some (.done digest)

/-- A session in which a target is being checked has done nothing yet. -/
theorem Idle.start (h : Idle book targets disk traces s) (ht : targets t)
    (hnew : s.progress.get? t = none) : Idle book targets disk traces (start t s) := by
  have hadded : s.graph.added.contains t = false := by
    by_contra hadded
    exact h.tasks.1 (Bool.not_eq_false _ ▸ hadded) hnew
  constructor
  case progress =>
    intro u p hu hp
    by_cases hs : t.Same u
    · exact .inl (Option.some.inj (hp.symm.trans (get?_start_of_same hs)))
    · exact h.progress hu ((get?_start_of_not_same hs).symm.trans hp)
  case disk => exact h.disk
  case traces => exact h.traces
  case tasks =>
    intro u
    change (s.graph.added.add t).contains u = true ↔ _
    rw [FirstSeen.contains_add, Bool.or_eq_true, decide_eq_true_iff, h.tasks]
    by_cases hs : t.Same u
    · simp [hs, get?_start_of_same hs]
    · simp [hs, get?_start_of_not_same hs]
  case visited =>
    intro u hu
    by_cases hs : t.Same u
    · exact ⟨t, ht, hs⟩
    · exact h.visited (get?_start_of_not_same hs ▸ hu)
  case clean =>
    have hlength : (Session.start t s).graph.tasks.length = s.graph.tasks.length + 1 := by
      simp [Session.start, TaskGraph.tasks, TaskGraph.addTask, FirstSeen.add, FirstSeen.toList, hadded]
    rw [hlength, ← h.clean]
    rfl
  case spared => exact h.spared
  case told => exact h.told

/-- A target that was checked is done. -/
theorem Rests.finish (hsame : ∀ {t u}, targets t → targets u → t.Same u → t = u)
    (h : Rests book targets disk traces (start t s) s') (ht : book.Current targets disk traces n t digest) :
    Rests book targets disk traces s (finish t (.ok digest) { s' with
      stats := { s'.stats with clean := s'.stats.clean + 1 }
      told := .clean t :: s'.told }) := by
  have hother : ∀ {u}, ¬ t.Same u →
      (s'.progress.insert t (.done digest)).get? u = s'.progress.get? u :=
    fun hu => PathTable.get?_insert_of_not_same hu
  have hhere : ∀ {u}, t.Same u → (s'.progress.insert t (.done digest)).get? u = some (.done digest) :=
    fun hu => PathTable.get?_insert_of_same hu
  have hbegun : ∀ {u}, t.Same u → s'.progress.get? u ≠ none := fun hs =>
    h.visited (by simp [get?_start_of_same hs])
  have hnone : ∀ {u}, (s'.progress.insert t (.done digest)).get? u ≠ none ↔
      s'.progress.get? u ≠ none := by
    intro u
    by_cases hs : t.Same u
    · simp [hhere hs, hbegun hs]
    · rw [hother hs]
  have hstack : s'.stack = t :: s.stack := h.stack
  refine ⟨⟨?_, h.idle.disk, h.idle.traces, ?_, ?_, ?_, h.idle.spared, ?_⟩, ?_, ?_, ?_⟩
  · intro u p hu hp
    by_cases hs : t.Same u
    · obtain rfl := hsame ht.target hu hs
      exact .inr ⟨n, digest, (Option.some.inj ((hhere hs).symm.trans hp)).symm, ht⟩
    · exact h.idle.progress hu ((hother hs).symm.trans hp)
  · exact h.idle.tasks.trans hnone.symm
  · exact fun hu => h.idle.visited (hnone.1 hu)
  · have hclean := h.idle.clean
    rw [hstack, List.length_cons] at hclean
    change s'.stats.clean + 1 + s'.stack.tail.length = s'.graph.tasks.length
    rw [hstack, List.tail_cons, ← hclean]
    omega
  · exact List.forall_mem_cons.2 ⟨⟨t, rfl⟩, h.idle.told⟩
  · exact hstack ▸ rfl
  · intro u hu
    change (s'.progress.insert t (.done digest)).get? u = _ at hu
    by_cases hs : t.Same u
    · simp [hhere hs] at hu
    · have hstarted := h.started ((hother hs).symm.trans hu)
      rwa [get?_start_of_not_same hs] at hstarted
  · intro u hu
    refine hnone.2 (h.visited ?_)
    by_cases hs : t.Same u
    · simp [get?_start_of_same hs]
    · rwa [get?_start_of_not_same hs]

/-- A trace that has the name of the rule and the digest of what is there is clean if its answers hold. -/
theorem clean?_of_kept {rule : Rule} {trace : Trace} {post : Bool → Session → Prop}
    (hkept : s.traces.get? t = some trace) (hname : trace.rule = rule.name)
    (hread : (s.disk.read t).toOption.map book.digest = some trace.output)
    (h : (allHold book req t trace.deps).Ends s True post) :
    (clean? book req rule t).Ends s True fun found s' =>
      ∃ ok, found = (if ok then some trace.output else none) ∧ post ok s' := by
  refine SessionM.Ends.bind .of_get fun _ _ hs => ?_
  obtain ⟨rfl, rfl⟩ := hs
  rw [hkept]
  simp only [hname, ne_eq, not_true_eq_false, if_false]
  refine SessionM.Ends.bind digestOf_course fun found s' hf => ?_
  obtain ⟨rfl, rfl⟩ := hf
  rw [hread, if_neg (by simp)]
  refine SessionM.Ends.bind h fun ok s' hok => ?_
  cases ok with
  | true => exact .pure ⟨true, rfl, hok⟩
  | false => exact .pure ⟨false, rfl, hok⟩

/-- What is clean is counted and told, and nothing else is done to it. -/
theorem bringUpToDate_of_clean {rule : Rule} {digest : String} {post : Session → Prop}
    (h : (clean? book req rule t).Ends s True fun found s' => found = some digest ∧ post s') :
    (bringUpToDate book req rule t).Ends s True fun r s' => r = .ok digest ∧
      ∃ s₁, post s₁ ∧ s' = { s₁ with
        stats := { s₁.stats with clean := s₁.stats.clean + 1 }
        told := .clean t :: s₁.told } := by
  refine SessionM.Ends.bind h fun found s₁ hfound => ?_
  obtain ⟨rfl, hpost⟩ := hfound
  refine SessionM.Ends.bind .of_modify fun _ s₂ hs => ?_
  refine SessionM.Ends.bind .of_modify fun _ s₃ hs' => ?_
  subst hs hs'
  exact .pure ⟨rfl, s₁, hpost, rfl⟩

section

variable (hreq : ∀ {s u digest}, book.Current targets disk traces n u digest →
    Idle book targets disk traces s → Clear book targets disk traces n s →
      (req u).Ends s True (Rested book targets disk traces s u digest))

include hreq

/-- Checking a trace that holds does nothing. -/
theorem allHold_rests (hdeps : ∀ d ∈ deps, d.Holds book disk (book.Current targets disk traces n))
    (h : Idle book targets disk traces s) (hclear : Clear book targets disk traces n s)
    (ht : s.progress.get? t ≠ none) :
    (allHold book req t deps).Ends s True fun ok s' =>
      ok = true ∧ Rests book targets disk traces s s' := by
  induction deps generalizing s with
  | nil => exact .pure ⟨rfl, h.rests⟩
  | cons d deps ih =>
    rw [List.forall_mem_cons] at hdeps
    have hholds : (holds book req t d).Ends s True fun ok s' =>
        ok = true ∧ Rests book targets disk traces s s' := by
      have hd := hdeps.1
      cases d with
      | content p digest =>
        refine SessionM.Ends.bind digestOf_course fun found s' hf => ?_
        obtain ⟨rfl, rfl⟩ := hf
        refine .pure ⟨beq_iff_eq.2 ?_, h.rests⟩
        rw [h.disk]
        exact hd
      | presence p found =>
        refine SessionM.Ends.bind .of_get fun _ _ hs => ?_
        obtain ⟨rfl, rfl⟩ := hs
        refine .pure ⟨beq_iff_eq.2 ?_, h.rests⟩
        rw [h.disk]
        exact hd
      | artifact u digest =>
        refine SessionM.Ends.bind (hreq hd h hclear) fun r s₁ hr => ?_
        obtain ⟨rfl, hrests, hdone⟩ := hr
        refine SessionM.Ends.bind (addNeed_rests hrests.idle (hrests.visited ht) (by simp [hdone]))
          fun _ s₂ hs₂ => .pure ⟨beq_iff_eq.2 rfl, hrests.trans hs₂⟩
    refine SessionM.Ends.bind hholds fun ok s₁ hok => ?_
    obtain ⟨rfl, hs₁⟩ := hok
    have hclear₁ : Clear book targets disk traces n s₁ := fun hv hstarted =>
      hclear hv (hs₁.started hstarted)
    exact (ih hdeps.2 hs₁.idle hclear₁ (hs₁.visited ht)).mono fun ok s₂ hok =>
      ⟨hok.1, hs₁.trans hok.2⟩

/-- Bringing a current target up to date counts it as clean. -/
theorem visit_rests (hsame : ∀ {t u}, targets t → targets u → t.Same u → t = u)
    (ht : book.Current targets disk traces (n + 1) t digest)
    (hleast : ∀ digest, ¬ book.Current targets disk traces n t digest)
    (h : Idle book targets disk traces s) (hclear : Clear book targets disk traces n s)
    (hnew : s.progress.get? t = none) :
    (visit book req t).Ends s True (Rested book targets disk traces s t digest) := by
  have hcurrent := ht
  obtain ⟨htarget, rule, trace, hfind, hkept, hname, houtput, hread, hdeps⟩ := ht
  have hbegin := h.start htarget hnew
  have hbegun : (start t s).progress.get? t = some .started := get?_start_of_same rfl
  -- The target itself is being checked now, but it is current to no such depth.
  have hclear' : Clear book targets disk traces n (start t s) := by
    intro v digest' hv hstarted hcurrent'
    by_cases hs : t.Same v
    · obtain rfl := hsame htarget hv hs
      exact hleast _ hcurrent'
    · rw [get?_start_of_not_same hs] at hstarted
      exact hclear hv hstarted hcurrent'
  have hclean : (clean? book req rule t).Ends (start t s) True fun found s' =>
      found = some digest ∧ Rests book targets disk traces (start t s) s' := by
    refine (clean?_of_kept ((congrArg (·.get? t) hbegin.traces).trans hkept) hname ?_
      (allHold_rests hreq hdeps hbegin hclear' (by simp [hbegun]))).mono fun found s' hfound => ?_
    · rw [hbegin.disk, hread, houtput]
    · obtain ⟨_, rfl, rfl, hrests⟩ := hfound
      exact ⟨congrArg some houtput, hrests⟩
  rw [visit, hfind]
  refine SessionM.Ends.bind .of_modify fun _ s₁ hs => ?_
  subst hs
  have hbring := bringUpToDate_of_clean hclean
  refine SessionM.Ends.bind hbring fun r s₂ hr => ?_
  obtain ⟨rfl, s₁, hrests, rfl⟩ := hr
  refine SessionM.Ends.bind .of_modify fun _ s₃ hs => .pure ⟨rfl, ?_, ?_⟩
  · exact hs ▸ hrests.finish hsame hcurrent
  · exact hs ▸ PathTable.get?_insert_of_same rfl

end

/-- Whatever is required of what is current, it is found clean. -/
theorem require_rests (hsame : ∀ {t u}, targets t → targets u → t.Same u → t = u) (hnm : n ≤ m)
    (ht : book.Current targets disk traces n t digest) (h : Idle book targets disk traces s)
    (hclear : Clear book targets disk traces n s) :
    (require book m t).Ends s True (Rested book targets disk traces s t digest) := by
  induction n generalizing m s t digest with
  | zero => exact ht.elim
  | succ n ih =>
    have hclear' : Clear book targets disk traces n s := fun hv hstarted hcurrent =>
      hclear hv hstarted hcurrent.succ
    -- At the least depth to which the target is current, it is none of those that are being checked.
    by_cases hleast : ∃ digest', book.Current targets disk traces n t digest'
    · obtain ⟨digest', hcurrent⟩ := hleast
      obtain rfl := hcurrent.unique ht
      exact ih (Nat.le_of_succ_le hnm) hcurrent h hclear'
    obtain ⟨m, rfl⟩ := Nat.exists_eq_add_of_le' hnm
    refine SessionM.Ends.bind .of_get fun _ _ hs => ?_
    obtain ⟨rfl, rfl⟩ := hs
    cases hp : s.progress.get? t with
    | none =>
      refine visit_rests (fun hu hi hc => ih (Nat.le_add_left n m) hu hi hc) hsame ht ?_ h hclear' hp
      exact fun digest' hcurrent => hleast ⟨digest', hcurrent⟩
    | some p =>
      rcases h.progress ht.target hp with rfl | ⟨k, digest', rfl, hcurrent⟩
      · exact absurd ht (hclear ht.target hp)
      · obtain rfl := hcurrent.unique ht
        exact .pure ⟨rfl, h.rests, hp⟩

/-- Targets that are current are all found clean. -/
theorem requireAll_rests (hsame : ∀ {t u}, targets t → targets u → t.Same u → t = u) (hnm : n ≤ m)
    {ts : List Path} (hts : ∀ t ∈ ts, ∃ digest, book.Current targets disk traces n t digest)
    (h : Idle book targets disk traces s) (hstack : s.stack = [])
    (hclear : Clear book targets disk traces n s) :
    (requireAll book m ts).Ends s True fun failed s' =>
      failed = [] ∧ Idle book targets disk traces s' ∧ s'.stack = [] := by
  induction ts generalizing s with
  | nil => exact .pure ⟨rfl, h, hstack⟩
  | cons t ts ih =>
    rw [List.forall_mem_cons] at hts
    obtain ⟨⟨digest, ht⟩, hts⟩ := hts
    refine SessionM.Ends.bind .of_modify fun _ s₁ hs => ?_
    have h₁ : Idle book targets disk traces s₁ := hs ▸
      ⟨h.progress, h.disk, h.traces, h.tasks, h.visited, h.clean, h.spared, h.told⟩
    have hclear₁ : Clear book targets disk traces n s₁ := hs ▸ hclear
    refine SessionM.Ends.bind (require_rests hsame hnm ht h₁ hclear₁) fun r s₂ hr => ?_
    obtain ⟨rfl, hrests, -⟩ := hr
    have hstack₂ : s₂.stack = [] := by rw [hrests.stack, hs, hstack]
    exact ih hts hrests.idle hstack₂ fun hv hstarted => hclear₁ hv (hrests.started hstarted)

/-- Whether a target that is done has a trace with a question about the file at a path. -/
def Looked (s : Session) (p : Path) : Prop :=
  ∃ t trace, s.Done t ∧ s.traces.get? t = some trace ∧
    ((∃ digest, .content p digest ∈ trace.deps) ∨ ∃ found, .presence p found ∈ trace.deps)

/-- What is backed is current on a disk on which the artifacts of targets that are done are what they
    were and the files that were looked at are what they were in the session. -/
theorem Backed.current {book' : Rulebook} {disk disk' : Disk}
    (h : Backed book targets disk s t digest) (hdigest : book'.digest = book.digest)
    (hnames : ∀ {t}, targets t → (book'.find t).map Rule.name = (book.find t).map Rule.name)
    (hread : ∀ {t c}, targets t → s.Done t → s.disk.read t = .ok c → disk'.read t = .ok c)
    (hsteady : ∀ {disk₁ p}, s.Looked p → disk.Rewritten targets disk₁ →
      (disk₁.read p).toOption = (disk'.read p).toOption) :
    ∃ n, book'.Current (fun t => targets t ∧ s.Done t) disk' s.traces n t digest := by
  induction h with
  | @intro t digest rule trace target find kept name output read done seen below ih =>
    -- What is needed is current to a depth each, and there are only so many dependencies.
    have hdepth : ∃ n, ∀ d ∈ trace.deps, ∀ u digest, d = .artifact u digest →
        book'.Current (fun t => targets t ∧ s.Done t) disk' s.traces n u digest := by
      refine exists_depth (fun hnm h u digest hd => (h u digest hd).mono hnm) fun d hd => ?_
      by_cases hneeded : ∃ u digest, d = .artifact u digest
      · obtain ⟨u, digest, rfl⟩ := hneeded
        obtain ⟨n, hn⟩ := ih u digest hd
        exact ⟨n, fun v digest' he => by cases he; exact hn⟩
      · exact ⟨0, fun u digest he => absurd ⟨u, digest, he⟩ hneeded⟩
    obtain ⟨n, hn⟩ := hdepth
    obtain ⟨c, hc, hcdigest⟩ := read
    have hrule := hnames target
    rw [find] at hrule
    obtain ⟨rule', hfind', hname'⟩ := Disk.map_eq_ok_iff.1 hrule
    refine ⟨n + 1, ⟨target, digest, done⟩, rule', trace, hfind', kept, name.trans hname'.symm, output,
      ?_, fun d hd => ?_⟩
    · rw [hread target ⟨digest, done⟩ hc, hdigest, ← hcdigest]
      rfl
    · have hseen := seen d hd
      cases d with
      | content p digest =>
        obtain ⟨s₁, hs₁, hp⟩ := hseen
        rw [Dependency.Holds, ← hp, hdigest,
          hsteady ⟨t, trace, ⟨_, done⟩, kept, .inl ⟨_, hd⟩⟩ hs₁]
      | presence p found =>
        obtain ⟨s₁, hs₁, hp⟩ := hseen
        rw [Dependency.Holds, ← hp, Disk.isFile_eq_isSome_read, Disk.isFile_eq_isSome_read,
          hsteady ⟨t, trace, ⟨_, done⟩, kept, .inr ⟨_, hd⟩⟩ hs₁]
      | artifact u digest => exact hn _ hd u digest rfl

end Session

namespace Engine

open Session

/-- A build of targets that are current does nothing. -/
theorem build_of_current {engine : Engine} {targets : Path → Prop} {n m : Nat} {ts : List Path}
    {disk : Disk} (hsame : ∀ {t u}, targets t → targets u → t.Same u → t = u) (hnm : n ≤ m)
    (hts : ∀ t ∈ ts, ∃ digest, engine.book.Current targets disk engine.traces n t digest)
    (hsave : engine.save disk = (.ok (), disk)) :
    ∃ again : Built, engine.build m ts disk = some again ∧
      again.report.failed = [] ∧ again.saved = .ok () ∧
      (again.report.stats.rebuilt = 0 ∧ again.report.stats.written = 0 ∧
        again.report.stats.unchanged = 0 ∧ again.report.stats.failed = 0) ∧
      again.report.stats.clean = again.report.graph.tasks.length ∧
      (∀ e ∈ again.events, ∃ t, e = .clean t) ∧
      (∀ {u}, again.report.graph.added.contains u = true → ∃ t, targets t ∧ t.Same u) ∧
      again.disk = disk ∧ again.engine.traces = engine.traces := by
  obtain ⟨hends, hresult⟩ := requireAll_rests hsame hnm hts .session rfl fun _ hstarted => by
    simp at hstarted
  obtain ⟨⟨failed, s⟩, run⟩ := hresult trivial
  obtain ⟨rfl, hidle, hstack⟩ := hends _ _ run
  have hsave' : Engine.save { engine with traces := s.traces } s.disk = (.ok (), disk) := by
    rw [hidle.disk, hidle.traces]
    exact hsave
  refine ⟨_, build_of_requireAll run, rfl, congrArg Prod.fst hsave', hidle.spared, ?_, fun e he => ?_,
    fun hu => hidle.visited (hidle.tasks.1 hu), congrArg Prod.snd hsave', hidle.traces⟩
  · have hclean := hidle.clean
    rwa [hstack] at hclean
  · exact hidle.told e (List.mem_reverse.1 he)

/-- After a build that succeeds, building the same targets again does nothing: by rules of the same
    names, and with the traces that the engine has or those that it has stored. -/
theorem build_again {engine : Engine} {targets : Path → Prop} {depth : Nat} {ts : List Path}
    {disk : Disk} {s : Session} {built : Built} {book' : Rulebook} {traces' : TraceTable}
    (apart : disk.Separates fun t => targets t ∨ engine.store = some t)
    (store : ∀ t, targets t → engine.store ≠ some t)
    (asks : ∀ {t rule}, targets t → engine.book.find t = .ok rule →
      (rule.recipe t).run.AsksOnly fun q => ∀ u, q = .artifact u → targets u)
    (needs : ∀ {t trace u digest}, targets t → engine.traces.get? t = some trace →
      .artifact u digest ∈ trace.deps → targets u)
    (requested : ∀ t ∈ ts, targets t)
    (run : Session.requireAll engine.book depth ts (engine.session disk) = some ([], s))
    (build : engine.build depth ts disk = some built) (saved : built.saved = .ok ())
    (steady : ∀ {disk' p}, s.Looked p →
      disk.Rewritten (fun t => targets t ∨ engine.store = some t) disk' →
        (disk'.read p).toOption = (disk.read p).toOption)
    (digests : book'.digest = engine.book.digest)
    (names : ∀ {t}, targets t → (book'.find t).map Rule.name = (engine.book.find t).map Rule.name)
    (kept : traces' = built.engine.traces ∨
      ∃ path, engine.store = some path ∧ traces' = TraceTable.load built.disk path) :
    ∃ n, ∀ m, n ≤ m → ∃ again : Built,
      Engine.build { book := book', traces := traces', store := engine.store } m ts built.disk =
        some again ∧
      again.report.failed = [] ∧ again.saved = .ok () ∧
      (again.report.stats.rebuilt = 0 ∧ again.report.stats.written = 0 ∧
        again.report.stats.unchanged = 0 ∧ again.report.stats.failed = 0) ∧
      again.report.stats.clean = again.report.graph.tasks.length ∧
      (∀ e ∈ again.events, ∃ t, e = .clean t) ∧
      (∀ {u}, again.report.graph.added.contains u = true →
        built.report.graph.added.contains u = true) ∧
      (∀ path text, engine.store = some path → built.engine.traces.text? = some text →
        Disk.writeIfChanged path (.ofText text) built.disk = (.ok false, built.disk)) ∧
      again.disk = built.disk ∧ again.engine.traces = built.engine.traces := by
  obtain ⟨failed, s', run', hengine, hfailed, hsave⟩ := exists_of_build_eq_some build
  obtain ⟨rfl, rfl⟩ := Prod.mk.inj (Option.some.inj (run.symm.trans run'))
  rw [saved] at hsave
  have hd : disk.Separates targets := ⟨fun ht hu => apart.same (.inl ht) (.inl hu),
    fun h ht hu => apart.apart (h.mono fun _ => .inl) (.inl ht) (.inl hu)⟩
  obtain ⟨hserved, hdone⟩ := requireAll_served.1 _ _ run
  have hsound : Sound engine.book targets disk s :=
    hserved.sound hd asks requested ⟨.start, needs, fun _ hp => by simp [Engine.session] at hp⟩
  have hstored := save_eq_ok hsave.symm
  -- Storing the traces leaves the artifacts.
  obtain ⟨hdisk, hread⟩ : disk.Rewritten (fun t => targets t ∨ engine.store = some t) built.disk ∧
      ∀ {t c}, targets t → s.Done t → s.disk.read t = .ok c → built.disk.read t = .ok c := by
    have hreaches := hsound.reaches.mono fun t ht => (.inl ht : targets t ∨ engine.store = some t)
    rcases hstored with ⟨-, hkeep⟩ | ⟨path, text, hstore, -, hwrite, -⟩
    · rw [hkeep]
      exact ⟨hreaches, fun _ _ => id⟩
    · rw [hwrite]
      exact ⟨.write hreaches (.inr hstore) _, fun {t c} ht _ hc => apart.apart hreaches (.inr hstore)
        (.inl ht) (fun he => store t ht (he ▸ hstore)) hc⟩
  have htraces : traces' = s.traces := by
    rcases kept with rfl | ⟨path, hpath, rfl⟩
    · rw [hengine]
    · rcases hstored with ⟨hnone, -⟩ | ⟨path', text, hstore, -, -, -, hload⟩
      · cases hpath.symm.trans hnone
      · obtain rfl := Option.some.inj (hpath.symm.trans hstore)
        exact hload
  -- All targets are current, to a depth that suffices for each.
  obtain ⟨n, hn⟩ : ∃ n, ∀ t ∈ ts, ∃ digest,
      book'.Current (fun t => targets t ∧ s.Done t) built.disk s.traces n t digest := by
    refine exists_depth (fun hnm h => h.imp fun _ h => h.mono hnm) fun t ht => ?_
    obtain ⟨digest, hprogress⟩ := (hdone t ht).resolve_left (by simp)
    obtain ⟨n, hn⟩ := (hsound.done (requested t ht) hprogress).current digests names hread
      fun hp h => (steady hp (h.mono fun _ => .inl)).trans (steady hp hdisk).symm
    exact ⟨n, digest, hn⟩
  rw [htraces, hengine]
  refine ⟨n, fun m hnm => ?_⟩
  have hsave' : Engine.save { book := book', traces := s.traces, store := engine.store } built.disk =
      (.ok (), built.disk) := save_again hsave.symm
  obtain ⟨again, hagain, hfailed, hsaved, hspared, hclean, htold, htasks, hkeep, hkept⟩ :=
    build_of_current (fun ht hu => hd.same ht.1 hu.1) hnm hn hsave'
  refine ⟨again, hagain, hfailed, hsaved, hspared, hclean, htold, fun {u} hu => ?_, ?_, hkeep, hkept⟩
  · obtain ⟨v, ⟨-, digest, hv⟩, hs⟩ := htasks hu
    have hadded := hserved.onward.tasks (u := v) (by simp [Engine.session]) (by simp [hv])
    obtain rfl := Option.some.inj ((build_of_requireAll run).symm.trans build)
    rw [FirstSeen.contains, ← PathTable.contains_congr hs]
    exact hadded
  · intro path text hpath htext
    rcases hstored with ⟨hnone, -⟩ | ⟨path', text', hstore, htext', -, hagain', -⟩
    · cases hpath.symm.trans hnone
    · obtain rfl := Option.some.inj (hpath.symm.trans hstore)
      obtain rfl := Option.some.inj (htext.symm.trans htext')
      exact hagain'

end Engine

/-! ### Looking twice, and again -/

namespace Rulebook

/-- Rules of the same names for the same targets, which fail. -/
def silenced (book : Rulebook) : Rulebook where
  rules := book.rules.map fun rule => { rule with recipe := fun t => throw (.noRule t) }
  digest := book.digest

theorem find_silenced {book : Rulebook} {t : Path} :
    (book.silenced.find t).map Rule.name = (book.find t).map Rule.name := by
  have hrules : book.silenced.rulesFor t =
      (book.rulesFor t).map fun rule => { rule with recipe := fun t => throw (.noRule t) } := by
    rw [rulesFor, rulesFor, silenced, List.filter_map]
    rfl
  rw [find, find, hrules]
  rcases book.rulesFor t with _ | ⟨rule, _ | ⟨rule', rules⟩⟩
  · rfl
  · rfl
  · simp [Except.map]

/-- The places of the targets that are made by looking twice, and of the traces. -/
def StoredPlaces (l : Location) : Prop := LookPlaces l ∨ l = [.ofText "out", .ofText "db"]

theorem room_storedPlaces : sourceDisk.Room StoredPlaces where
  names := by
    rintro l ((rfl | rfl) | rfl) <;> decide
  nonempty := by
    rintro l ((rfl | rfl) | rfl) <;> simp
  usable := by
    rintro l ((rfl | rfl) | rfl) <;> decide
  free := by
    rintro l ((rfl | rfl) | rfl) <;> decide
  apart := by
    rintro l m ((rfl | rfl) | rfl) ((rfl | rfl) | rfl) <;> decide
  refuses _ _ := rfl

/-- The traces after a source was looked at twice. -/
def lookTraces (source : Path) (before after : Bool) : List (List Dependency) :=
  [[], [.presence source before, .artifact (.ofText "/out/q") "", .presence source after]]

theorem build_again_lookTwice :
    ∃ built n, Engine.build (.storing (lookTwice (.ofText "/src/x")) (.ofText "/out/db") ∅) 2
        [.ofText "/out/t"] sourceDisk = some built ∧ built.saved = .ok () ∧
      ∀ m, n ≤ m → ∃ again, Engine.build
          (.resume (lookTwice (.ofText "/src/x")).silenced (.ofText "/out/db") built.disk) m
          [.ofText "/out/t"] built.disk = some again ∧
        again.report.failed = [] ∧ again.report.stats.rebuilt = 0 ∧
        again.report.stats.clean = again.report.graph.tasks.length ∧ again.disk = built.disk := by
  let engine : Engine := .storing (lookTwice (.ofText "/src/x")) (.ofText "/out/db") ∅
  have hrun : (Session.requireAll engine.book 2 [.ofText "/out/t"] (engine.session sourceDisk)).map
      (fun r => (r.1, (Engine.save { engine with traces := r.2.traces } r.2.disk).1.toOption,
        r.2.traces.entries.map (·.2.deps))) =
      some ([], some (), lookTraces (.ofText "/src/x") true true) := by
    decide +kernel
  obtain ⟨⟨failed, s⟩, run, hs⟩ := Option.map_eq_some_iff.1 hrun
  obtain ⟨rfl, hsaved, htraces⟩ : failed = [] ∧ _ ∧ _ := by simpa only [Prod.mk.injEq] using hs
  have hlooked : ∀ {p}, s.Looked p → p = .ofText "/src/x" := by
    rintro p ⟨t, trace, -, hget, hp⟩
    obtain ⟨e, he, -, rfl, -⟩ := PathTable.exists_of_get? hget
    have hdeps : e.2.deps ∈ lookTraces (.ofText "/src/x") true true :=
      htraces ▸ List.mem_map_of_mem he
    rcases List.mem_pair.1 hdeps with hdeps | hdeps
    all_goals rw [hdeps] at hp
    · simp at hp
    · simpa using hp
  have hplaces : ∀ {t}, Disk.At LookPlaces t ∨ engine.store = some t → Disk.At StoredPlaces t := by
    rintro t (⟨l, hl, rfl⟩ | ht)
    · exact ⟨l, .inl hl, rfl⟩
    · exact ⟨_, .inr rfl, by rw [← Option.some.inj ht]; decide +kernel⟩
  have hosts : sourceDisk.Hosts (Disk.At StoredPlaces) (· = .ofText "/src/x") := by
    refine room_storedPlaces.hosts ?_
    rintro p rfl
    refine ⟨[.ofText "src", .ofText "x"], by decide +kernel, ?_, by decide +kernel⟩
    rintro ((h | h) | h) <;> exact absurd h (by decide +kernel)
  have ht : Disk.At LookPlaces (.ofText "/out/t") := ⟨_, .inl rfl, by decide +kernel⟩
  have happart : sourceDisk.Separates fun t => Disk.At LookPlaces t ∨ engine.store = some t :=
    ⟨fun ht hu => hosts.same (hplaces ht) (hplaces hu),
      fun h ht hu => hosts.apart (h.mono fun _ => hplaces) (hplaces ht) (hplaces hu)⟩
  have hstore : ∀ t, Disk.At LookPlaces t → engine.store ≠ some t := by
    rintro _ ⟨_, rfl | rfl, rfl⟩ <;> decide +kernel
  obtain ⟨n, hn⟩ := @Engine.build_again engine (Disk.At LookPlaces) 2 [.ofText "/out/t"] sourceDisk s _
    engine.book.silenced _ happart hstore
    (fun ht hfind => ((tidy_lookTwice _).asks ht hfind).mono fun q hq u he => by subst he; exact hq)
    (fun _ hget => by simp [engine, Engine.storing] at hget) (by simpa using ht) run
    (Engine.build_of_requireAll run) (Disk.toOption_eq_some_iff.1 hsaved)
    (fun hp h => hosts.steady (h.mono fun _ => hplaces) (hlooked hp)) rfl (fun _ => find_silenced)
    (.inr ⟨_, rfl, rfl⟩)
  refine ⟨_, n, Engine.build_of_requireAll run, Disk.toOption_eq_some_iff.1 hsaved, fun m hm => ?_⟩
  obtain ⟨again, hagain, hfailed, -, hspared, hclean, -, -, -, hdisk, -⟩ := hn m hm
  exact ⟨again, hagain, hfailed, hspared.1, hclean, hdisk⟩

/-- The rule for an empty target alone. -/
def emptyTarget : Rulebook where
  rules := [emptyRule]
  digest := Content.spelled

/-- The text of the traces after an empty target was made. -/
def emptyTraces : String :=
  "\x7b\n  \"version\": 1,\n  \"traces\": \x7b\n    \"/out/q\": \x7b\n" ++
    "      \"rule\": \"empty\",\n      \"output_hash\": \"\",\n      \"deps\": []\n" ++
    "    \x7d\n  \x7d\n\x7d\n"

set_option maxRecDepth 10000 in
theorem text?_emptyTrace : TraceTable.text?
    (PathTable.insert ∅ (.ofText "/out/q") { rule := "empty", output := "", deps := [] }) =
      some emptyTraces := by
  cbv

/-- A build that is done again makes a target anew if a file that was looked for has appeared with a
    directory that the build made, though it is spelled otherwise than all that was written, and if the
    traces are stored in the place of a target, though nothing was looked at. -/
theorem exists_rebuilt_again :
    (∃ built again, Engine.build
        (.storing (lookTwice (.ofText "/out/../src/x")) (.ofText "/out/db") ∅) 2 [.ofText "/out/t"]
          sourceDisk = some built ∧
      built.report.failed = [] ∧ built.saved = .ok () ∧
      built.engine.traces.entries.map (·.2.deps) =
        lookTraces (.ofText "/out/../src/x") false true ∧
      (∀ t, Disk.At StoredPlaces t → ¬ t.Same (.ofText "/out/../src/x")) ∧
      built.engine.build 2 [.ofText "/out/t"] built.disk = some again ∧
      again.report.stats.rebuilt = 1) ∧
    ∃ built again, Engine.build (.storing emptyTarget (.ofText "/out/q") ∅) 1 [.ofText "/out/q"]
          sourceDisk = some built ∧
      built.report.failed = [] ∧ built.saved = .ok () ∧
      built.engine.traces.entries.map (·.2.deps) = [[]] ∧
      built.engine.build 1 [.ofText "/out/q"] built.disk = some again ∧
      again.report.stats.rebuilt = 1 := by
  constructor
  · have hrun : ((Engine.build (.storing (lookTwice (.ofText "/out/../src/x")) (.ofText "/out/db") ∅) 2
        [.ofText "/out/t"] sourceDisk).bind fun built =>
          (built.engine.build 2 [.ofText "/out/t"] built.disk).map fun again =>
            (built.report.failed, built.saved.toOption, built.engine.traces.entries.map (·.2.deps),
              again.report.stats.rebuilt)) =
        some ([], some (), lookTraces (.ofText "/out/../src/x") false true, 1) := by
      decide +kernel
    obtain ⟨built, hbuilt, h⟩ := Option.bind_eq_some_iff.1 hrun
    obtain ⟨again, hagain, h⟩ := Option.map_eq_some_iff.1 h
    simp only [Prod.mk.injEq] at h
    obtain ⟨hfailed, hsaved, hdeps, hrebuilt⟩ := h
    refine ⟨built, again, hbuilt, hfailed, Disk.toOption_eq_some_iff.1 hsaved, hdeps, ?_, hagain,
      hrebuilt⟩
    rintro _ ⟨_, (rfl | rfl) | rfl, rfl⟩ <;> unfold Path.Same <;> decide +kernel
  · let q : Path := .ofText "/out/q"
    let trace : Trace := { rule := "empty", output := "", deps := [] }
    let engine : Engine := .storing emptyTarget q ∅
    let store (disk : Disk) := Disk.writeIfChanged q (.ofText emptyTraces) disk
    -- The text of the traces is known, so the second session can be run before they are stored.
    have hrun : ((Session.requireAll engine.book 1 [q] (engine.session sourceDisk)).bind fun r =>
        (Session.requireAll engine.book 1 [q] { disk := (store r.2.disk).2, traces := r.2.traces }).map
          fun r' => (r.1, r.2.traces.entries, (store r.2.disk).1.toOption, r'.2.stats.rebuilt)) =
        some ([], [(q, trace)], some true, 1) := by
      decide +kernel
    obtain ⟨⟨failed, s⟩, run, h⟩ := Option.bind_eq_some_iff.1 hrun
    obtain ⟨⟨failed', s'⟩, run', h⟩ := Option.map_eq_some_iff.1 h
    simp only [Prod.mk.injEq] at h
    obtain ⟨rfl, hentries, hwrite, hrebuilt⟩ := h
    have htraces : s.traces = PathTable.insert ∅ q trace :=
      PathTable.entries_inj.1 (hentries.trans (by decide +kernel))
    have htext : TraceTable.text? s.traces = some emptyTraces := htraces ▸ text?_emptyTrace
    have hsave : Engine.save { engine with traces := s.traces } s.disk = (.ok (), (store s.disk).2) := by
      simp only [engine, Engine.save, Engine.storing, TraceTable.save, htext]
      rcases hstore : Disk.writeIfChanged q (.ofText emptyTraces) s.disk with ⟨fault | written, disk⟩
      · simp [store, hstore, Except.toOption] at hwrite
      · simp [store, hstore]
    have hagain : Session.requireAll engine.book 1 [q]
        (Engine.session { engine with traces := s.traces }
          (Engine.save { engine with traces := s.traces } s.disk).2) = some (failed', s') := by
      rw [hsave]
      exact run'
    exact ⟨_, _, Engine.build_of_requireAll run, rfl, congrArg Prod.fst hsave,
      congrArg (List.map (·.2.deps)) hentries, Engine.build_of_requireAll hagain, hrebuilt⟩

end Rulebook

end ImportIndex
