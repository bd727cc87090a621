import ImportIndex.Proofs.Build.Moves
import ImportIndex.Proofs.Build.Repeat

/-!
# Where changes stop

A target whose trace tells of files that are different now has *changed* (`Rulebook.changed`). If it is
one that needs no others and its rule makes of the files what it has made before, then the change stops
there: the target is made anew and comes out as it was, so that what needs it is clean. A target is
*firm* if that is so of itself, or of all that it needs where its trace tells of nothing else that is
different, to some depth (`Rulebook.Firm`).

A build of firm targets makes anew those that have changed, and no others (`Engine.build_of_firm`). What
it does is told by the targets that have ended (`Session.Refreshing`): those that have changed were made
anew and came out as before, and the others were clean. Nothing is written.
-/

namespace ImportIndex

/-! ### What has changed -/

/-- Whether a question about a file has another answer than the one recorded. -/
def Dependency.differs (book : Rulebook) (disk : Disk) : Dependency → Bool
  | .content p digest => (disk.read p).toOption.map book.digest != digest
  | .presence p found => disk.isFile p != found
  | .artifact _ _ => false

/-- Whether the trace of a target has a question about a file that has another answer now. -/
def Rulebook.changed (book : Rulebook) (disk : Disk) (traces : TraceTable) (t : Path) : Bool :=
  (traces.get? t).any fun trace => trace.deps.any (·.differs book disk)

/-- What an event tells of the work of a session: the target that was looked at, and whether it was made
    anew. -/
def Event.work? : Event → Option (Path × Bool)
  | clean t => some (t, false)
  | making t _ => some (t, true)
  | _ => none

theorem Event.exists_making_iff {events : List Event} {t : Path} :
    (∃ rule, .making t rule ∈ events) ↔ ∃ e ∈ events, e.work? = some (t, true) := by
  refine ⟨fun ⟨rule, h⟩ => ⟨_, h, rfl⟩, ?_⟩
  rintro ⟨e, he, hwork⟩
  cases e with
  | making u rule =>
    obtain rfl : u = t := by simpa [work?] using hwork
    exact ⟨rule, he⟩
  | _ => simp [work?] at hwork

theorem Event.clean_mem_iff {events : List Event} {t : Path} :
    .clean t ∈ events ↔ ∃ e ∈ events, e.work? = some (t, false) := by
  refine ⟨fun h => ⟨_, h, rfl⟩, ?_⟩
  rintro ⟨e, he, hwork⟩
  cases e with
  | clean u =>
    obtain rfl : u = t := by simpa [work?] using hwork
    exact he
  | _ => simp [work?] at hwork

theorem Dependency.Holds.not_differs {book : Rulebook} {disk : Disk} {needed : Path → String → Prop}
    {d : Dependency} (h : d.Holds book disk needed) : d.differs book disk = false := by
  cases d with
  | content p digest => exact bne_eq_false_iff_eq.2 h
  | presence p found => exact bne_eq_false_iff_eq.2 h
  | artifact u digest => rfl

namespace Tracked

variable {α : Type}

/-- Whether a computation asks for no targets, and tells nothing of the work of a session. -/
def Alone : Tracked α → Prop
  | done _ => True
  | readText _ next => ∀ answer, (next answer).Alone
  | isFile _ next => ∀ answer, (next answer).Alone
  | need _ _ => False
  | artifact _ _ => False
  | count next => ∀ answer, (next answer).Alone
  | tell event next => event.work? = none ∧ next.Alone

theorem Alone.bind {β : Type} {x : Tracked α} {f : α → Tracked β} (hx : x.Alone)
    (hf : ∀ a, (f a).Alone) : (x.bind f).Alone := by
  induction x with
  | done a => exact hf a
  | readText path next ih => exact fun answer => ih answer (hx answer)
  | isFile path next ih => exact fun answer => ih answer (hx answer)
  | need target next ih => exact hx.elim
  | artifact target next ih => exact hx.elim
  | count next ih => exact fun answer => ih answer (hx answer)
  | tell event next ih => exact ⟨hx.1, ih hx.2⟩

theorem Alone.asksOnly {x : Tracked α} (hx : x.Alone) :
    x.AsksOnly fun q => ∀ u, q ≠ .artifact u := by
  induction x with
  | done a => trivial
  | readText path next ih => exact ⟨by simp, fun answer => ih answer (hx answer)⟩
  | isFile path next ih => exact ⟨by simp, fun answer => ih answer (hx answer)⟩
  | need target next ih => exact hx.elim
  | artifact target next ih => exact hx.elim
  | count next ih => exact fun answer => ih answer (hx answer)
  | tell event next ih => exact ih hx.2

end Tracked

theorem Recipe.alone_bind {α β : Type} {x : Recipe α} {f : α → Recipe β} (hx : x.run.Alone)
    (hf : ∀ a, (f a).run.Alone) : (x >>= f).run.Alone := by
  refine Tracked.Alone.bind hx fun r => ?_
  cases r with
  | ok a => exact hf a
  | error cause => trivial

namespace Rulebook

variable {book : Rulebook} {targets : Path → Prop} {disk : Disk} {traces : TraceTable} {t u : Path}
  {digest digest' : String} {n m : Nat}

/-- Whether a target has this digest and a change stops here, or at what it needs. Either its trace
    holds, as far as files are concerned, and the targets that it needs are firm, at most `n` levels
    deep. Or it needs no target, and its rule makes of the disk what the artifact holds. -/
def Firm (book : Rulebook) (targets : Path → Prop) (disk : Disk) (traces : TraceTable) :
    Nat → Path → String → Prop
  | 0, _, _ => False
  | n + 1, t, digest => targets t ∧ ∃ rule trace c, book.find t = .ok rule ∧
      traces.get? t = some trace ∧ trace.rule = rule.name ∧ trace.output = digest ∧
      disk.read t = .ok c ∧ book.digest c = digest ∧
      ((∀ d ∈ trace.deps, d.Holds book disk (Firm book targets disk traces n)) ∨
        (∀ u digest, .artifact u digest ∉ trace.deps) ∧ (rule.recipe t).run.Alone ∧
          disk.refuses t .compare = none ∧ book.evaluate disk 1 t = some c)

namespace Firm

theorem succ (h : book.Firm targets disk traces n t digest) :
    book.Firm targets disk traces (n + 1) t digest := by
  induction n generalizing t digest with
  | zero => exact h.elim
  | succ n ih =>
    obtain ⟨ht, rule, trace, c, hfind, hkept, hname, houtput, hread, hdigest, hdeps⟩ := h
    refine ⟨ht, rule, trace, c, hfind, hkept, hname, houtput, hread, hdigest, hdeps.imp_left ?_⟩
    exact fun hdeps d hd => (hdeps d hd).mono ih

theorem mono (hnm : n ≤ m) (h : book.Firm targets disk traces n t digest) :
    book.Firm targets disk traces m t digest := by
  induction hnm with
  | refl => exact h
  | step _ ih => exact ih.succ

theorem target (h : book.Firm targets disk traces n t digest) : targets t := by
  cases n with
  | zero => exact h.elim
  | succ n => exact h.1

/-- A target that is firm has one digest. -/
theorem unique (h : book.Firm targets disk traces n t digest)
    (h' : book.Firm targets disk traces m t digest') : digest = digest' := by
  cases n with
  | zero => exact h.elim
  | succ n =>
    cases m with
    | zero => exact h'.elim
    | succ m =>
      obtain ⟨-, -, trace, -, -, hkept, -, rfl, -⟩ := h
      obtain ⟨-, -, trace', -, -, hkept', -, rfl, -⟩ := h'
      rw [Option.some.inj (hkept.symm.trans hkept')]

end Firm

end Rulebook

namespace Session

variable {book : Rulebook} {targets : Path → Prop} {disk : Disk} {traces : TraceTable}
  {s s' s₁ s₂ : Session} {t u : Path} {digest : String} {n m : Nat} {req : Require}
  {deps before : List Dependency} {ended rest : List Path}

/-! ### Running a rule that needs nothing -/

/-- Whether a session has gone on to tell something, but not of its work. -/
structure Whispers (s s' : Session) : Prop extends Alike s s' where
  /-- The graph. -/
  graph : s'.graph = s.graph
  /-- The counts. -/
  stats : s'.stats = s.stats
  /-- What was told of the work. -/
  told : s'.told.filterMap Event.work? = s.told.filterMap Event.work?

theorem Whispers.refl : Whispers s s := ⟨⟨rfl, rfl, rfl, rfl⟩, rfl, rfl, rfl⟩

theorem Whispers.trans (h : Whispers s s₁) (h' : Whispers s₁ s₂) : Whispers s s₂ :=
  ⟨⟨h'.disk.trans h.disk, h'.traces.trans h.traces, h'.progress.trans h.progress,
    h'.stack.trans h.stack⟩, h'.graph.trans h.graph, h'.stats.trans h.stats, h'.told.trans h.told⟩

theorem tell_whispers {e : Event} (he : e.work? = none) :
    (tell e).Ends s True fun _ s' => Whispers s s' :=
  .mono .of_modify fun _ _ h =>
    h ▸ ⟨⟨rfl, rfl, rfl, rfl⟩, rfl, rfl, List.filterMap_cons_none he⟩

/-- A rule that needs no target comes to what the disk says, and does nothing else. -/
theorem answer_alone {α : Type} {x : Tracked α} (hx : x.Alone) (make : Path → Option Content) :
    (answer book req t x before).Ends s True fun a s' =>
      a.1 = x.result book s.disk make before.length ∧ Whispers s s' := by
  induction x generalizing s before with
  | done a => exact .pure ⟨rfl, .refl⟩
  | readText p next ih =>
    refine SessionM.Ends.bind .of_get fun _ _ hs => ?_
    obtain ⟨rfl, rfl⟩ := hs
    refine (ih _ (hx _)).mono fun a s' h => ⟨h.1.trans ?_, h.2⟩
    rw [Tracked.result, List.length_append, Nat.add_comm]
  | isFile p next ih =>
    refine SessionM.Ends.bind .of_get fun _ _ hs => ?_
    obtain ⟨rfl, rfl⟩ := hs
    exact ih _ (hx _)
  | need u next ih => exact hx.elim
  | artifact u next ih => exact hx.elim
  | count next ih => exact ih _ (hx _)
  | tell event next ih =>
    refine SessionM.Ends.bind (tell_whispers hx.1) fun _ s₁ h => ?_
    refine (ih hx.2).mono fun a s' h' => ⟨h'.1.trans ?_, h.trans h'.2⟩
    rw [Tracked.result, h.disk]

/-- Checking a trace that needs no target tells whether an answer about a file has changed. -/
theorem allHold_alone (hdeps : ∀ u digest, .artifact u digest ∉ deps) :
    (allHold book req t deps).Ends s True fun ok s' =>
      ok = !deps.any (·.differs book s.disk) ∧ Whispers s s' := by
  induction deps generalizing s with
  | nil => exact .pure ⟨rfl, .refl⟩
  | cons d deps ih =>
    have hholds : (holds book req t d).Ends s True fun ok s' =>
        ok = !d.differs book s.disk ∧ s' = s := by
      cases d with
      | content p digest =>
        refine SessionM.Ends.bind digestOf_course fun found s' h => ?_
        obtain ⟨rfl, rfl⟩ := h
        exact .pure ⟨by simp [Dependency.differs, bne], rfl⟩
      | presence p found =>
        refine SessionM.Ends.bind .of_get fun _ _ h => ?_
        obtain ⟨rfl, rfl⟩ := h
        exact .pure ⟨by simp [Dependency.differs, bne], rfl⟩
      | artifact u digest => exact absurd List.mem_cons_self (hdeps u digest)
    refine SessionM.Ends.bind hholds fun ok s₁ h => ?_
    obtain ⟨rfl, rfl⟩ := h
    cases hd : d.differs book s₁.disk with
    | true =>
      refine SessionM.Ends.bind (tell_whispers rfl) fun _ s₂ h => .pure ⟨?_, h⟩
      simp [hd]
    | false =>
      refine (ih fun u digest hu => hdeps u digest (List.mem_cons_of_mem _ hu)).mono fun ok s₂ h => ?_
      simpa [hd] using h

/-! ### Bringing firm targets up to date -/

/-- Whether a session has brought firm targets up to date and has done nothing else, so that these have
    ended: those that have changed were made anew and came out as before, and the others are clean. -/
structure Refreshing (book : Rulebook) (targets : Path → Prop) (disk : Disk) (traces : TraceTable)
    (ended : List Path) (s : Session) : Prop where
  /-- The tasks are those that have ended and those that are being brought up to date. -/
  charted : Charted ended s
  /-- No target failed, and those that are done are firm. -/
  progress : ∀ {u p}, targets u → s.progress.get? u = some p →
    p = .started ∨ ∃ n digest, p = .done digest ∧ book.Firm targets disk traces n u digest
  /-- Those that have ended are targets. -/
  within : ∀ {u}, u ∈ ended → targets u
  /-- Nothing was written. -/
  files : s.disk = disk
  /-- The traces of targets stay that were not required or have not changed. -/
  kept : ∀ {u}, s.progress.get? u = none ∨ book.changed disk traces u = false →
    s.traces.get? u = traces.get? u
  /-- Those that have changed were made anew. -/
  rebuilt : s.stats.rebuilt = ended.countP (book.changed disk traces)
  /-- They came out as before. -/
  unchanged : s.stats.unchanged = s.stats.rebuilt
  /-- The others are clean. -/
  clean : s.stats.clean = ended.countP (!book.changed disk traces ·)
  /-- Nothing else is counted. -/
  spared : s.stats.written = 0 ∧ s.stats.failed = 0
  /-- That is what was told of the work. -/
  told : s.told.filterMap Event.work? = (ended.map fun t => (t, book.changed disk traces t)).reverse

/-- Whether no target that is being brought up to date is firm to a depth. -/
def Unhampered (book : Rulebook) (targets : Path → Prop) (disk : Disk) (traces : TraceTable) (n : Nat)
    (s : Session) : Prop :=
  ∀ {v digest}, targets v → s.progress.get? v = some .started →
    ¬ book.Firm targets disk traces n v digest

/-- How requiring a firm target ends. -/
def Refreshed (book : Rulebook) (targets : Path → Prop) (disk : Disk) (traces : TraceTable)
    (ended : List Path) (digest : String) (r : Except Failure String) (s' : Session) : Prop :=
  r = .ok digest ∧ ∃ more, Refreshing book targets disk traces (ended ++ more) s'

namespace Refreshing

theorem session : Refreshing book targets disk traces [] { disk, traces } where
  charted := .session
  progress _ hp := by simp at hp
  within hu := by simp at hu
  files := rfl
  kept _ := rfl
  rebuilt := rfl
  unchanged := rfl
  clean := rfl
  spared := ⟨rfl, rfl⟩
  told := rfl

theorem need (h : Refreshing book targets disk traces ended s) (top : s.stack = t :: rest)
    (hdone : s.progress.get? u = some (.done digest)) :
    (addNeed t u).Ends s True fun _ s' => Refreshing book targets disk traces ended s' :=
  .mono .of_modify fun _ _ hs => hs ▸
    ⟨h.charted.need top hdone, h.progress, h.within, h.files, h.kept, h.rebuilt, h.unchanged, h.clean,
      h.spared, h.told⟩

theorem start (h : Refreshing book targets disk traces ended s) (hnew : s.progress.get? t = none) :
    Refreshing book targets disk traces ended (start t s) where
  charted := h.charted.start hnew
  progress {u p} hu hp := by
    by_cases hs : t.Same u
    · exact .inl (Option.some.inj (hp.symm.trans (get?_start_of_same hs)))
    · exact h.progress hu ((get?_start_of_not_same hs).symm.trans hp)
  within := h.within
  files := h.files
  kept hu := h.kept (hu.imp_left get?_eq_none_of_start)
  rebuilt := h.rebuilt
  unchanged := h.unchanged
  clean := h.clean
  spared := h.spared
  told := h.told

/-- A target ends that was looked at: it was made anew if it has changed, and is clean otherwise. -/
theorem finish (h : Refreshing book targets disk traces ended s₁)
    (hsame : ∀ {t u}, targets t → targets u → t.Same u → t = u)
    (ht : book.Firm targets disk traces n t digest) (top : s₁.stack = t :: rest) (hw : Works s₁ s₂)
    (hdisk : s₂.disk = s₁.disk)
    (htraces : ∀ {u}, ¬ t.Same u ∨ book.changed disk traces t = false →
      s₂.traces.get? u = s₁.traces.get? u)
    (hrebuilt : s₂.stats.rebuilt = s₁.stats.rebuilt + [t].countP (book.changed disk traces))
    (hunchanged : s₂.stats.unchanged = s₁.stats.unchanged + [t].countP (book.changed disk traces))
    (hclean : s₂.stats.clean = s₁.stats.clean + [t].countP (!book.changed disk traces ·))
    (hspared : s₂.stats.written = s₁.stats.written ∧ s₂.stats.failed = s₁.stats.failed)
    (htold : s₂.told.filterMap Event.work? =
      (t, book.changed disk traces t) :: s₁.told.filterMap Event.work?) :
    Refreshing book targets disk traces (ended ++ [t]) (finish t (.ok digest) s₂) where
  charted := (h.charted.work hw).finish (hw.stack.trans top) _
  progress {u p} hu hp := by
    by_cases hs : t.Same u
    · obtain rfl := hsame ht.target hu hs
      rw [get?_finish_of_same hs] at hp
      exact .inr ⟨n, digest, (Option.some.inj hp).symm, ht⟩
    · rw [get?_finish_of_not_same hs, hw.progress] at hp
      exact h.progress hu hp
  within {u} hu := by
    rcases List.mem_append.1 hu with hu | hu
    · exact h.within hu
    · exact List.mem_singleton.1 hu ▸ ht.target
  files := by rw [disk_finish, hdisk, h.files]
  kept {u} hu := by
    have hchanged : t.Same u → book.changed disk traces u = book.changed disk traces t := fun hs => by
      rw [Rulebook.changed, Rulebook.changed, PathTable.get?_congr hs]
    rw [traces_finish]
    by_cases hs : t.Same u
    · have hu' := hu.resolve_left (by simp [get?_finish_of_same hs])
      rw [htraces (.inr (hchanged hs ▸ hu'))]
      exact h.kept (.inr hu')
    · rw [htraces (.inl hs)]
      rw [get?_finish_of_not_same hs, hw.progress] at hu
      exact h.kept hu
  rebuilt := by
    change s₂.stats.rebuilt = _
    rw [hrebuilt, h.rebuilt, List.countP_append]
  unchanged := by
    change s₂.stats.unchanged = s₂.stats.rebuilt
    rw [hunchanged, hrebuilt, h.unchanged]
  clean := by
    change s₂.stats.clean = _
    rw [hclean, h.clean, List.countP_append]
  spared := ⟨hspared.1.trans h.spared.1, hspared.2.trans h.spared.2⟩
  told := by
    change s₂.told.filterMap Event.work? = _
    rw [htold, h.told, List.map_append, List.reverse_append]
    rfl

end Refreshing

section

variable (hreq : ∀ {s ended u digest}, book.Firm targets disk traces n u digest →
    Refreshing book targets disk traces ended s → Unhampered book targets disk traces n s →
      (req u).Ends s True fun r s' =>
        Refreshed book targets disk traces ended digest r s' ∧ Ended s u r s')

include hreq

/-- Checking a trace that holds brings the targets up to date that it tells of, and no more. -/
theorem allHold_refreshes (hdeps : ∀ d ∈ deps, d.Holds book disk (book.Firm targets disk traces n))
    (h : Refreshing book targets disk traces ended s) (hclear : Unhampered book targets disk traces n s)
    (top : s.stack = t :: rest) :
    (allHold book req t deps).Ends s True fun ok s' => ok = true ∧ s'.stack = t :: rest ∧
      ∃ more, Refreshing book targets disk traces (ended ++ more) s' := by
  induction deps generalizing s ended with
  | nil => exact .pure ⟨rfl, top, [], by simpa using h⟩
  | cons d deps ih =>
    rw [List.forall_mem_cons] at hdeps
    have hholds : (holds book req t d).Ends s True fun ok s' => ok = true ∧ Onward s s' ∧
        ∃ more, Refreshing book targets disk traces (ended ++ more) s' := by
      have hd := hdeps.1
      cases d with
      | content p digest =>
        refine SessionM.Ends.bind digestOf_course fun found s' hf => ?_
        obtain ⟨rfl, rfl⟩ := hf
        refine .pure ⟨beq_iff_eq.2 (h.files ▸ hd), .refl, [], by simpa using h⟩
      | presence p found =>
        refine SessionM.Ends.bind .of_get fun _ _ hs => ?_
        obtain ⟨rfl, rfl⟩ := hs
        refine .pure ⟨beq_iff_eq.2 (h.files ▸ hd), .refl, [], by simpa using h⟩
      | artifact u digest =>
        refine SessionM.Ends.bind (hreq hd h hclear) fun r s₁ hr => ?_
        obtain ⟨⟨rfl, more, h₁⟩, honward, hdone⟩ := hr
        refine SessionM.Ends.bind (addNeed_aside.and (h₁.need (honward.stack.trans top) hdone))
          fun _ s₂ hs₂ => .pure ⟨beq_iff_eq.2 rfl, ?_, more, hs₂.2⟩
        exact honward.trans hs₂.1.onward
    refine SessionM.Ends.bind hholds fun ok s₁ hok => ?_
    obtain ⟨rfl, honward, more, h₁⟩ := hok
    have hclear₁ : Unhampered book targets disk traces n s₁ := fun hv hstarted =>
      hclear hv (honward.started hstarted)
    refine (ih hdeps.2 h₁ hclear₁ (honward.stack.trans top)).mono fun ok s₂ hok => ?_
    obtain ⟨rfl, hstack, more', h₂⟩ := hok
    exact ⟨rfl, hstack, more ++ more', List.append_assoc ended more more' ▸ h₂⟩

/-- A firm target whose trace holds is found clean. -/
theorem bringUpToDate_clean {rule : Rule} {trace : Trace} {c : Content}
    (hsame : ∀ {t u}, targets t → targets u → t.Same u → t = u)
    (ht : book.Firm targets disk traces m t trace.output) (hgiven : traces.get? t = some trace)
    (hkept : s.traces.get? t = some trace) (hname : trace.rule = rule.name)
    (hread : disk.read t = .ok c) (hdigest : book.digest c = trace.output)
    (hdeps : ∀ d ∈ trace.deps, d.Holds book disk (book.Firm targets disk traces n))
    (h : Refreshing book targets disk traces ended s) (hclear : Unhampered book targets disk traces n s)
    (top : s.stack = t :: rest) :
    (bringUpToDate book req rule t).Ends s True fun r s' =>
      Refreshed book targets disk traces ended trace.output r (finish t r s') := by
  have hclean : (clean? book req rule t).Ends s True fun found s' =>
      found = some trace.output ∧ s'.stack = t :: rest ∧
        ∃ more, Refreshing book targets disk traces (ended ++ more) s' := by
    refine (clean?_of_kept hkept hname ?_ (allHold_refreshes hreq hdeps h hclear top)).mono
      fun found s' hfound => ?_
    · rw [h.files, hread, ← hdigest]
      rfl
    · obtain ⟨_, rfl, rfl, hmore⟩ := hfound
      exact ⟨rfl, hmore⟩
  have hsteady : book.changed disk traces t = false := by
    rw [Rulebook.changed, hgiven, Option.any_some, List.any_eq_false]
    exact fun d hd => by simp [(hdeps d hd).not_differs]
  refine (bringUpToDate_of_clean hclean).mono fun r s' hr => ?_
  obtain ⟨rfl, s₁, ⟨hstack, more, h₁⟩, rfl⟩ := hr
  refine ⟨rfl, more ++ [t], ?_⟩
  rw [← List.append_assoc]
  refine h₁.finish hsame ht hstack ⟨rfl, rfl, rfl⟩ rfl (fun _ => rfl) ?_ ?_ ?_ ⟨rfl, rfl⟩ ?_
  · simp [hsteady]
  · simp [hsteady]
  · simp [hsteady]
  · rw [hsteady]
    rfl

omit hreq in
/-- A target that needs no other and has changed is made anew, and comes out as before if its rule makes
    of the disk what its artifact holds. -/
theorem bringUpToDate_remade {rule : Rule} {trace : Trace} {c : Content}
    (hfind : book.find t = .ok rule) (hkept : s.traces.get? t = some trace)
    (hname : trace.rule = rule.name) (hread : s.disk.read t = .ok c)
    (hdigest : book.digest c = trace.output) (hdeps : ∀ u digest, .artifact u digest ∉ trace.deps)
    (hchanged : trace.deps.any (·.differs book s.disk) = true) (halone : (rule.recipe t).run.Alone)
    (hcompare : s.disk.refuses t .compare = none) (hmade : book.evaluate s.disk 1 t = some c) :
    (bringUpToDate book req rule t).Ends s True fun r s' => r = .ok trace.output ∧ Works s s' ∧
      s'.disk = s.disk ∧ s'.stats = s.stats.countRebuilt false ∧
      (∃ trace', s'.traces = s.traces.insert t trace') ∧
      s'.told.filterMap Event.work? = (t, true) :: s.told.filterMap Event.work? := by
  have hnone : (clean? book req rule t).Ends s True fun found s' => found = none ∧ Whispers s s' := by
    refine (clean?_of_kept hkept hname ?_ (allHold_alone hdeps)).mono fun found s' hfound => ?_
    · rw [hread, ← hdigest]
      rfl
    · obtain ⟨_, rfl, rfl, hs'⟩ := hfound
      rw [hchanged]
      exact ⟨rfl, hs'⟩
  refine SessionM.Ends.bind hnone fun found s₁ hfound => ?_
  obtain ⟨rfl, h₁⟩ := hfound
  refine SessionM.Ends.bind .of_modify fun _ s₂ hs₂ => ?_
  have hdisk₂ : s₂.disk = s.disk := hs₂ ▸ h₁.disk
  have hresult : (rule.recipe t).run.result book s₂.disk (book.evaluate s.disk 0) 0 = .ok c := by
    rw [Rulebook.evaluate, hfind] at hmade
    rw [hdisk₂]
    exact Disk.toOption_eq_some_iff.1 hmade
  refine SessionM.Ends.bind (answer_alone halone (book.evaluate s.disk 0)) fun a s₃ ha => ?_
  -- The trace is another one now, but what it tells of the artifact is the same.
  obtain ⟨result, deps⟩ := a
  obtain ⟨hok, h₃⟩ := ha
  obtain rfl : result = .ok c := hok.trans hresult
  have hdisk₃ : s₃.disk = s.disk := h₃.disk.trans hdisk₂
  -- The content is there already, so nothing is written.
  have hwrite : (writeArtifact t c).Ends s₃ True fun r s' => r = .ok false ∧ s' = s₃ := by
    have hsame : Disk.writeIfChanged t c s₃.disk = (.ok false, s₃.disk) := by
      rw [Disk.writeIfChanged_eq, hdisk₃, hcompare, hread]
      simp
    refine .of_eq_some ?_ ⟨rfl, rfl⟩
    change some ((Disk.writeIfChanged t c s₃.disk).1,
      { s₃ with disk := (Disk.writeIfChanged t c s₃.disk).2 }) = some (.ok false, s₃)
    rw [hsame]
  refine SessionM.Ends.bind hwrite fun written s₃' hw => ?_
  obtain ⟨rfl, rfl⟩ := hw
  refine SessionM.Ends.bind .of_modify fun _ s₄ hs₄ => ?_
  refine SessionM.Ends.bind (tell_whispers rfl) fun _ s' h' => .pure ⟨hdigest ▸ rfl, ?_⟩
  subst hs₂ hs₄
  refine ⟨⟨?_, ?_, ?_⟩, ?_, ?_, ⟨{ rule := rule.name, output := book.digest c, deps }, ?_⟩, ?_⟩
  · exact h'.progress.trans (h₃.progress.trans h₁.progress)
  · exact h'.stack.trans (h₃.stack.trans h₁.stack)
  · exact h'.graph.trans (h₃.graph.trans h₁.graph)
  · exact h'.disk.trans (h₃.disk.trans h₁.disk)
  · rw [h'.stats, h₃.stats, h₁.stats]
  · rw [h'.traces, h₃.traces, h₁.traces]
  · rw [h'.told, h₃.told]
    change (t, true) :: s₁.told.filterMap Event.work? = _
    rw [h₁.told]

omit hreq in
/-- A firm target that needs no other and has changed is made anew, and comes out as before. -/
theorem bringUpToDate_changed {rule : Rule} {trace : Trace} {c : Content}
    (hsame : ∀ {t u}, targets t → targets u → t.Same u → t = u)
    (ht : book.Firm targets disk traces m t trace.output) (hgiven : traces.get? t = some trace)
    (hfind : book.find t = .ok rule) (hkept : s.traces.get? t = some trace)
    (hname : trace.rule = rule.name) (hread : disk.read t = .ok c)
    (hdigest : book.digest c = trace.output) (hdeps : ∀ u digest, .artifact u digest ∉ trace.deps)
    (hchanged : trace.deps.any (·.differs book disk) = true) (halone : (rule.recipe t).run.Alone)
    (hcompare : disk.refuses t .compare = none) (hmade : book.evaluate disk 1 t = some c)
    (h : Refreshing book targets disk traces ended s) (top : s.stack = t :: rest) :
    (bringUpToDate book req rule t).Ends s True fun r s' =>
      Refreshed book targets disk traces ended trace.output r (finish t r s') := by
  have hwork : book.changed disk traces t = true := by
    rw [Rulebook.changed, hgiven, Option.any_some, hchanged]
  obtain rfl : s.disk = disk := h.files
  refine (bringUpToDate_remade hfind hkept hname hread hdigest hdeps hchanged halone hcompare
    hmade).mono fun r s' hr => ?_
  obtain ⟨rfl, hworks, hdisk, hstats, ⟨trace', htraces⟩, htold⟩ := hr
  refine ⟨rfl, [t], h.finish hsame ht top hworks hdisk (fun hu => ?_) ?_ ?_ ?_ ?_ ?_⟩
  · rw [htraces]
    exact PathTable.get?_insert_of_not_same (hu.resolve_right (by simp [hwork]))
  · rw [hstats]
    simp [hwork, Stats.countRebuilt]
  · rw [hstats]
    simp [hwork, Stats.countRebuilt]
  · rw [hstats]
    simp [hwork, Stats.countRebuilt]
  · rw [hstats]
    exact ⟨rfl, rfl⟩
  · rw [hwork]
    exact htold

/-- Bringing a firm target up to date makes it anew if it has changed, and finds it clean otherwise. -/
theorem visit_refreshes (hsame : ∀ {t u}, targets t → targets u → t.Same u → t = u)
    (ht : book.Firm targets disk traces (n + 1) t digest)
    (hleast : ∀ digest, ¬ book.Firm targets disk traces n t digest)
    (h : Refreshing book targets disk traces ended s) (hclear : Unhampered book targets disk traces n s)
    (hnew : s.progress.get? t = none) :
    (visit book req t).Ends s True (Refreshed book targets disk traces ended digest) := by
  have hfirm := ht
  obtain ⟨htarget, rule, trace, c, hfind, hkept, hname, rfl, hread, hdigest, hdeps⟩ := ht
  have hbegin := h.start hnew
  have hkept' : (start t s).traces.get? t = some trace := (h.kept (.inl hnew)).trans hkept
  -- The target itself is being brought up to date now, but it is firm to no such depth.
  have hclear' : Unhampered book targets disk traces n (start t s) := by
    intro v digest' hv hstarted hfirm'
    by_cases hs : t.Same v
    · obtain rfl := hsame htarget hv hs
      exact hleast _ hfirm'
    · rw [get?_start_of_not_same hs] at hstarted
      exact hclear hv hstarted hfirm'
  have hbring : (bringUpToDate book req rule t).Ends (start t s) True fun r s' =>
      Refreshed book targets disk traces ended trace.output r (finish t r s') := by
    -- Even a target whose rule is known to come to the same is clean if its trace holds.
    by_cases hholds : ∀ d ∈ trace.deps, d.Holds book disk (book.Firm targets disk traces n)
    · exact bringUpToDate_clean hreq hsame hfirm hkept hkept' hname hread hdigest hholds hbegin hclear' rfl
    · obtain ⟨hnone, halone, hcompare, hmade⟩ := hdeps.resolve_left hholds
      have hchanged : trace.deps.any (·.differs book disk) = true := by
        obtain ⟨d, hd, hnot⟩ : ∃ d ∈ trace.deps,
            ¬ d.Holds book disk (book.Firm targets disk traces n) := by simpa using hholds
        refine List.any_eq_true.2 ⟨d, hd, ?_⟩
        cases d with
        | content p digest => exact bne_iff_ne.2 hnot
        | presence p found => exact bne_iff_ne.2 hnot
        | artifact u digest => exact absurd hd (hnone u digest)
      exact bringUpToDate_changed hsame hfirm hkept hfind hkept' hname hread hdigest hnone hchanged
        halone hcompare hmade hbegin rfl
  rw [visit, hfind]
  refine SessionM.Ends.bind .of_modify fun _ s₁ hs => ?_
  subst hs
  refine SessionM.Ends.bind hbring fun r s₂ hr => ?_
  refine SessionM.Ends.bind .of_modify fun _ s₃ hs => .pure ?_
  exact hs ▸ hr

end

/-- Requiring a firm target brings it up to date, unless it is. -/
theorem require_refreshes (hsame : ∀ {t u}, targets t → targets u → t.Same u → t = u) (hnm : n ≤ m)
    (ht : book.Firm targets disk traces n t digest) (h : Refreshing book targets disk traces ended s)
    (hclear : Unhampered book targets disk traces n s) :
    (require book m t).Ends s True (Refreshed book targets disk traces ended digest) := by
  induction n generalizing m s t digest ended with
  | zero => exact ht.elim
  | succ n ih =>
    have hclear' : Unhampered book targets disk traces n s := fun hv hstarted hfirm =>
      hclear hv hstarted hfirm.succ
    -- At the least depth to which the target is firm, it is none of those that are being made.
    by_cases hleast : ∃ digest', book.Firm targets disk traces n t digest'
    · obtain ⟨digest', hfirm⟩ := hleast
      obtain rfl := hfirm.unique ht
      exact ih (Nat.le_of_succ_le hnm) hfirm h hclear'
    obtain ⟨m, rfl⟩ := Nat.exists_eq_add_of_le' hnm
    refine SessionM.Ends.bind .of_get fun _ _ hs => ?_
    obtain ⟨rfl, rfl⟩ := hs
    cases hp : s.progress.get? t with
    | none =>
      refine visit_refreshes (fun hu hi hc => ?_) hsame ht ?_ h hclear' hp
      · exact ((ended_of_require _ _ _).and (ih (Nat.le_add_left n m) hu hi hc)).mono
          fun _ _ hr => hr.symm
      · exact fun digest' hfirm => hleast ⟨digest', hfirm⟩
    | some p =>
      rcases h.progress ht.target hp with rfl | ⟨k, digest', rfl, hfirm⟩
      · exact absurd ht (hclear ht.target hp)
      · obtain rfl := hfirm.unique ht
        exact .pure ⟨rfl, [], by simpa using h⟩

/-- Firm targets are all brought up to date. -/
theorem requireAll_refreshes (hsame : ∀ {t u}, targets t → targets u → t.Same u → t = u) (hnm : n ≤ m)
    {ts : List Path} (hts : ∀ t ∈ ts, ∃ digest, book.Firm targets disk traces n t digest)
    (h : Refreshing book targets disk traces ended s) (hstack : s.stack = [])
    (hclear : Unhampered book targets disk traces n s) :
    (requireAll book m ts).Ends s True fun failed s' => failed = [] ∧ s'.stack = [] ∧
      ∃ more, Refreshing book targets disk traces (ended ++ more) s' := by
  induction ts generalizing s ended with
  | nil => exact .pure ⟨rfl, hstack, [], by simpa using h⟩
  | cons t ts ih =>
    rw [List.forall_mem_cons] at hts
    obtain ⟨⟨digest, ht⟩, hts⟩ := hts
    refine SessionM.Ends.bind .of_modify fun _ s₁ hs => ?_
    have h₁ : Refreshing book targets disk traces ended s₁ := hs ▸
      ⟨h.charted.work ⟨rfl, rfl, rfl⟩, h.progress, h.within, h.files, h.kept, h.rebuilt, h.unchanged,
        h.clean, h.spared, h.told⟩
    have hclear₁ : Unhampered book targets disk traces n s₁ := hs ▸ hclear
    refine SessionM.Ends.bind ((ended_of_require _ _ _).and (require_refreshes hsame hnm ht h₁ hclear₁))
      fun r s₂ hr => ?_
    obtain ⟨⟨honward, -⟩, rfl, more, h₂⟩ := hr
    have hstack₂ : s₂.stack = [] := by rw [honward.stack, hs, hstack]
    refine (ih hts h₂ hstack₂ fun hv hstarted => hclear₁ hv (honward.started hstarted)).mono
      fun failed s₃ h₃ => ?_
    obtain ⟨rfl, hstack₃, more', h₃⟩ := h₃
    exact ⟨rfl, hstack₃, more ++ more', List.append_assoc ended more more' ▸ h₃⟩

end Session

/-- Whether changes stopped in a build: it made those targets anew that had changed, which came out as
    before, and found the others clean. -/
structure Built.CutsOff (book : Rulebook) (disk : Disk) (traces : TraceTable) (built : Built) : Prop where
  /-- No target failed. -/
  failed : built.report.failed = []
  /-- Those that had changed were made. -/
  making : ∀ t, (∃ rule, .making t rule ∈ built.events) ↔
    t ∈ built.report.graph.tasks ∧ book.changed disk traces t = true
  /-- The others were clean. -/
  clean : ∀ t, .clean t ∈ built.events ↔
    t ∈ built.report.graph.tasks ∧ book.changed disk traces t = false
  /-- All that was made is counted as unchanged. -/
  rebuilt : built.report.stats.rebuilt = built.report.graph.tasks.countP (book.changed disk traces) ∧
    built.report.stats.unchanged = built.report.stats.rebuilt
  /-- All others are counted as clean. -/
  others : built.report.stats.clean = built.report.graph.tasks.countP (!book.changed disk traces ·)
  /-- Nothing else is counted. -/
  spared : built.report.stats.written = 0 ∧ built.report.stats.failed = 0
  /-- The traces of the others stay. -/
  kept : ∀ t, book.changed disk traces t = false → built.engine.traces.get? t = traces.get? t

namespace Engine

open Session

/-- A build of targets that are firm makes those anew that have changed, which come out as before, and
    finds the others clean. It changes nothing on the disk but the stored traces. -/
theorem build_of_firm {engine : Engine} {targets : Path → Prop} {n m : Nat} {ts : List Path} {disk : Disk}
    (hsame : ∀ {t u}, targets t → targets u → t.Same u → t = u) (hnm : n ≤ m)
    (hts : ∀ t ∈ ts, ∃ digest, engine.book.Firm targets disk engine.traces n t digest) :
    ∃ again : Built, engine.build m ts disk = some again ∧
      again.CutsOff engine.book disk engine.traces ∧ (∀ t ∈ again.report.graph.tasks, targets t) ∧
      (again.saved, again.disk) = Engine.save { engine with traces := again.engine.traces } disk := by
  obtain ⟨hends, hresult⟩ := requireAll_refreshes hsame hnm hts .session rfl fun _ hstarted => by
    simp at hstarted
  obtain ⟨⟨failed, s⟩, run⟩ := hresult trivial
  obtain ⟨rfl, hstack, ended, h⟩ := hends _ _ run
  rw [List.nil_append] at h
  have htasks : s.graph.tasks.Perm ended := by
    have hperm := h.charted.tasks
    rwa [hstack, List.append_nil] at hperm
  have htold : ∀ {t b}, (∃ e ∈ s.told.reverse, e.work? = some (t, b)) ↔
      t ∈ s.graph.tasks ∧ engine.book.changed disk engine.traces t = b := by
    intro t b
    have hmem : (t, b) ∈ s.told.filterMap Event.work? ↔ _ := List.mem_filterMap
    simp only [List.mem_reverse]
    rw [← hmem, h.told, List.mem_reverse, htasks.mem_iff]
    simp [eq_comm]
  refine ⟨_, build_of_requireAll run, ?_, fun t ht => h.within (htasks.mem_iff.1 ht), by rw [h.files]⟩
  exact {
    failed := rfl
    making := fun t => Event.exists_making_iff.trans htold
    clean := fun t => Event.clean_mem_iff.trans htold
    rebuilt := ⟨h.rebuilt.trans (htasks.countP_eq _).symm, h.unchanged⟩
    others := h.clean.trans (htasks.countP_eq _).symm
    spared := h.spared
    kept := fun t ht => h.kept (.inr ht) }

end Engine

end ImportIndex
