import ImportIndex.Proofs.Build.RootCause

/-!
# Sessions without failures

A session reports a target, or counts a failure, only if a target has failed in it
(`Session.requireAll_reports`). In a lawful scope a target may fail only with what may be refused, and a
cycle is refused before a target is started. So where nothing but cycles may be refused, no target fails
(`Scope.flawless`), however the rules go on where they are told of a cycle.
-/

namespace ImportIndex

namespace Session

variable {book : Rulebook} {s s' : Session} {t : Path} {r : Except Failure String}

/-- Whether no failure is counted unless a target has failed. -/
def Tallied (s : Session) : Prop := Flawless s → s.stats.failed = 0

theorem Tallied.start (hs : Tallied s) (hnew : s.progress.get? t = none) : Tallied (start t s) := by
  refine fun h => hs fun u hu => h u ?_
  rwa [get?_start_of_not_same fun hsame => ?_]
  simp [← PathTable.get?_congr hsame, hnew] at hu

theorem Tallied.finish (hs : Tallied s) (hstarted : s.progress.get? t = some .started) :
    Tallied (finish t r s) := by
  intro h
  cases r with
  | error cause => exact absurd (get?_finish_of_same rfl) (h t)
  | ok digest =>
    refine hs fun u hu => h u ?_
    rwa [get?_finish_of_not_same fun hsame => ?_]
    simp [← PathTable.get?_congr hsame, hstarted] at hu

theorem tallied_of_require (n : Nat) (s : Session) (t : Path) (hs : Tallied s) :
    (require book n t).Ends s False fun _ s' => Tallied s' :=
  keeps_of_require (P := Tallied) .start (fun _ hs _ => hs.finish) (fun hs _ _ => hs)
    (fun hs hw h => hw.failed.trans (hs fun u => hw.progress ▸ h u)) n s t hs

/-- If nothing is being brought up to date, and targets are required one after another, then those that
    are reported have failed, and no failure is counted unless a target has failed. -/
theorem requireAll_reports {n : Nat} {ts : List Path} (hs : Tallied s)
    (hidle : ∀ t, s.progress.get? t ≠ some .started) :
    (requireAll book n ts).Ends s False fun failed s' =>
      Tallied s' ∧ ∀ e ∈ failed, s'.progress.get? e.1 = some .failed := by
  induction ts generalizing s with
  | nil => exact .pure ⟨hs, by simp⟩
  | cons t ts ih =>
    refine SessionM.Ends.bind .of_modify fun _ s₁ h => ?_
    have hs₁ : Tallied s₁ := h ▸ hs
    have hidle₁ : ∀ t, s₁.progress.get? t ≠ some .started := h ▸ hidle
    refine ((ended_of_require n s₁ t).and (tallied_of_require n s₁ t hs₁)).bind fun r s₂ hr => ?_
    obtain ⟨⟨honward, hended⟩, hs₂⟩ := hr
    have hidle₂ : ∀ t, s₂.progress.get? t ≠ some .started := fun t ht =>
      hidle₁ t (honward.started ht)
    cases r with
    | ok digest => exact ih hs₂ hidle₂
    | error cause =>
      refine SessionM.Ends.bind .of_modify fun _ s₃ h => ?_
      have hs₃ : Tallied s₃ := h ▸ hs₂
      have hidle₃ : ∀ t, s₃.progress.get? t ≠ some .started := h ▸ hidle₂
      refine (requireAll_served.and (ih hs₃ hidle₃)).bind fun failed s₄ h' => .pure ?_
      obtain ⟨⟨hserved, -⟩, hs₄, hfailed⟩ := h'
      refine ⟨hs₄, List.forall_mem_cons.2 ⟨hserved.onward.progress ?_, hfailed⟩⟩
      rcases hended with ⟨-, hstarted, -⟩ | ⟨hfailed, -⟩
      · exact absurd hstarted (hidle₁ t)
      · exact h ▸ hfailed

end Session

open Session

/-- Where nothing but cycles may be refused, no target fails. All that are required are done, none is
    reported, and no failure is counted. -/
theorem Scope.flawless {scope : Scope} (hl : scope.Lawful)
    (hcycles : ∀ t cause, scope.refuses t cause → cause.isCycle = true) {depth : Nat}
    {targets : List Path} (ht : ∀ t ∈ targets, scope.allowed t) {failed : List (Path × Failure)}
    {s : Session} (run : requireAll scope.book depth targets
      { disk := scope.disk, traces := scope.traces } = some (failed, s)) :
    failed = [] ∧ s.stats.failed = 0 ∧ Flawless s ∧ ∀ t ∈ targets, s.Done t := by
  obtain ⟨hi, -, hended, -⟩ := (requireAll_ends hl (inv_session hl) rfl ht).1 _ _ run
  obtain ⟨htallied, hreported⟩ := (requireAll_reports (fun _ => rfl) (by simp)).1 _ _ run
  have hflawless : Flawless s := by
    intro t hfailed
    obtain ⟨u, hu, hsame⟩ := hi.visited hfailed
    have hrefused := hi.failed hu ((PathTable.get?_congr hsame).trans hfailed)
    cases hcycles _ _ hrefused
  have hnone : failed = [] := List.eq_nil_iff_forall_not_mem.2 fun e he =>
    hflawless e.1 (hreported e he)
  refine ⟨hnone, htallied hflawless, hflawless, fun t hmem => (hended t hmem).resolve_left ?_⟩
  simp [hnone]

end ImportIndex
