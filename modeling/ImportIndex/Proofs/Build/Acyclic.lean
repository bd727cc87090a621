import ImportIndex.Proofs.Build.Onward
import ImportIndex.Proofs.Build.TraceFile
import Mathlib.Logic.Relation

/-!
# Traces never need one another in a cycle

The trace of a target says which targets it needed. Rules may ask for one another in a cycle, they may
go on without what they were refused for that, and they may ask for something else each time. Even so,
no trace needs itself at any remove, whatever happened (`TraceTable.acyclic_of_history`): all that a
target needs is done before the target is, and what is done needs nothing but what is done
(`Session.Ordered`).
-/

namespace ImportIndex

open Relation

namespace TraceTable

variable {traces : TraceTable} {t u v : Path}

/-- Whether the trace of a target says that it needed another one. -/
def Needs (traces : TraceTable) (t u : Path) : Prop :=
  ∃ trace v digest, traces.get? t = some trace ∧ .artifact v digest ∈ trace.deps ∧ v.Same u

/-- Whether no target needs itself at any remove. -/
def Acyclic (traces : TraceTable) : Prop := ∀ t, ¬ TransGen traces.Needs t t

theorem Needs.congr {traces' : TraceTable} (h : traces.Needs t u)
    (ht : traces'.get? v = traces.get? t) : traces'.Needs v u := by
  obtain ⟨trace, w, digest, hget, hd, hs⟩ := h
  exact ⟨trace, w, digest, ht.trans hget, hd, hs⟩

/-- With a new trace of a target, no target needs itself if all that the new trace needs is of a kind
    that the target is not, and what is of this kind needs nothing but what is. -/
theorem Acyclic.insert {done : Path → Prop} {trace : Trace} (h : traces.Acyclic)
    (hclosed : ∀ {u v}, done u → traces.Needs u v → done v) (hnew : ∀ {u}, t.Same u → ¬ done u)
    (hneeds : ∀ {u v digest}, .artifact v digest ∈ trace.deps → v.Same u → done u) :
    Acyclic (PathTable.insert traces t trace) := by
  have hold : ∀ {u v}, ¬ t.Same u → Needs (PathTable.insert traces t trace) u v →
      traces.Needs u v := fun hu hv => hv.congr (PathTable.get?_insert_of_not_same hu).symm
  have hhere : ∀ {u v}, t.Same u → Needs (PathTable.insert traces t trace) u v → done v := by
    rintro u v hu ⟨trace', w, digest, hget, hd, hs⟩
    rw [PathTable.get?_insert_of_same hu] at hget
    obtain rfl := Option.some.inj hget
    exact hneeds hd hs
  -- A way either leads to what is done, or it avoids the new trace.
  have hway : ∀ {u v}, TransGen (Needs (PathTable.insert traces t trace)) u v →
      done v ∨ TransGen traces.Needs u v := by
    intro u v huv
    induction huv with
    | single hstep =>
      by_cases hu : t.Same u
      · exact .inl (hhere hu hstep)
      · exact .inr (.single (hold hu hstep))
    | @tail w v _ hstep ih =>
      by_cases hw : t.Same w
      · exact .inl (hhere hw hstep)
      · exact ih.imp (fun hd => hclosed hd (hold hw hstep)) fun h => h.tail (hold hw hstep)
  have hstay : ∀ {u v}, done u → TransGen (Needs (PathTable.insert traces t trace)) u v →
      done v ∧ TransGen traces.Needs u v := by
    intro u v hu huv
    induction huv with
    | single hstep =>
      have hstep := hold (fun hs => hnew hs hu) hstep
      exact ⟨hclosed hu hstep, .single hstep⟩
    | tail _ hstep ih =>
      have hstep := hold (fun hs => hnew hs ih.1) hstep
      exact ⟨hclosed ih.1 hstep, ih.2.tail hstep⟩
  intro u hu
  rcases hway hu with hd | hcycle
  · exact h u (hstay hd hu).2
  · exact h u hcycle

theorem Acyclic.erase (h : traces.Acyclic) (t : Path) : Acyclic (PathTable.erase traces t) := by
  refine fun u hu => h u (hu.lift id fun v w hvw => ?_)
  obtain ⟨trace, digest, w', hget, hmem⟩ := hvw
  exact ⟨trace, digest, w', PathTable.get?_of_get?_erase hget, hmem⟩

end TraceTable

namespace Session

variable {book : Rulebook} {s s' : Session} {t u : Path} {r : Except Failure String}

theorem Done.congr (h : s.Done t) (hs : t.Same u) : s.Done u := by
  obtain ⟨digest, hd⟩ := h
  exact ⟨digest, (PathTable.get?_congr hs).symm.trans hd⟩

/-- Whether no trace needs itself, and those of targets that are done need nothing but what is
    done. -/
structure Ordered (s : Session) : Prop where
  /-- No trace needs itself. -/
  acyclic : s.traces.Acyclic
  /-- What is done needs what is done. -/
  done : ∀ {t u}, s.Done t → s.traces.Needs t u → s.Done u

namespace Ordered

theorem aside (h : Ordered s) (ha : Aside s s') : Ordered s' where
  acyclic := ha.traces ▸ h.acyclic
  done {t u} := by
    rw [Done, Done, ha.progress, ha.traces]
    exact h.done

theorem start (h : Ordered s) (hnew : s.progress.get? t = none) : Ordered (start t s) where
  acyclic := h.acyclic
  done {u v} hu hv := by
    have hiff : ∀ {u}, (Session.start t s).Done u ↔ s.Done u :=
      exists_congr fun _ => done_start_iff hnew
    exact hiff.2 (h.done (hiff.1 hu) hv)

/-- What is being brought up to date may be done if all that its trace needs is. -/
theorem finish (h : Ordered s) (ht : s.progress.get? t = some .started)
    (hok : ∀ digest, r = .ok digest → ∀ u, s.traces.Needs t u → s.Done u) :
    Ordered (finish t r s) where
  acyclic := by
    rw [traces_finish]
    exact h.acyclic
  done {u v} hu hv := by
    rw [traces_finish] at hv
    have hnot : ∀ {u}, s.Done u → ¬ t.Same u := by
      rintro u ⟨digest, hd⟩ hs
      simp [← PathTable.get?_congr hs, ht] at hd
    have hother : ∀ {u}, ¬ t.Same u → ((Session.finish t r s).Done u ↔ s.Done u) := by
      intro u hs
      rw [Done, Done, get?_finish_of_not_same hs]
    have hdone : s.Done v := by
      by_cases hs : t.Same u
      · obtain ⟨digest, hd⟩ := hu
        rw [get?_finish_of_same hs] at hd
        cases r with
        | ok digest => exact hok digest rfl v (hv.congr (PathTable.get?_congr hs))
        | error cause => cases hd
      · exact h.done ((hother hs).1 hu) hv
    exact (hother (hnot hdone)).2 hdone

end Ordered

/-- Bringing a target up to date leaves the traces ordered, if requests do. -/
theorem Visits.ordered {ends : Ending} (hends : ∀ {s u r s'}, ends s u r s' → Ended s u r s')
    (hrequest : ∀ {s u r s'}, Ordered s → ends s u r s' → Ordered s')
    (hnew : s.progress.get? t = none) (h : Visits book ends t (Session.start t s) r s')
    (hs : Ordered s) : Ordered (Session.finish t r s') := by
  replace hs := hs.start hnew
  have hbegun : (Session.start t s).progress.get? t = some .started := get?_start_of_same rfl
  have haside : ∀ {s s'}, Ordered s → Aside s s' → Ordered s' := fun hs ha => hs.aside ha
  have hneeds : ∀ {s₁ : Session} {deps : List Dependency} {u v : Path} {digest : String},
      (∀ d ∈ deps, Seen book (fun _ => True) s₁ d) → .artifact v digest ∈ deps → v.Same u →
        s₁.Done u := fun hseen hd hsame => Done.congr ⟨_, hseen _ hd⟩ hsame
  have hunclean : ∀ {rule s₁}, Unclean book ends t rule (Session.start t s) s₁ → Ordered s₁ := fun h =>
    h.keeps hs haside fun hs _ _ => hrequest hs
  have hanswers : ∀ {x : Tracked (Except Failure Content)} {a s₁ s₂}, Ordered s₁ →
      Answers book ends s₁ x [] a s₂ → Ordered s₂ := fun {x} _ _ _ hs h =>
    h.keeps x.asksOnly_true hs haside fun hs _ => hrequest hs
  cases h with
  | unruled => exact hs.finish hbegun (by simp)
  | @clean s₁ _ rule trace find kept name output checks aside =>
    have honward := checks.onward hends
    have hs₁ : Ordered s₁ := checks.keeps hs haside fun hs _ => hrequest hs
    have hseen := checks.seen (P := fun _ => True) hends trivial (fun h _ => h) fun h _ _ => h
    refine (hs₁.aside aside).finish (aside.progress ▸ honward.progress hbegun) fun _ _ u hu => ?_
    obtain ⟨trace', v, digest, hget, hd, hsame⟩ := hu
    rw [aside.traces, honward.traces (.inl (by simp [hbegun])), kept] at hget
    obtain rfl := Option.some.inj hget
    exact hneeds (fun d hd => (hseen d hd).onward aside.onward) hd hsame
  | failed find unclean answers =>
    have honward := (unclean.onward hends).trans (answers.onward hends)
    exact (hanswers (hunclean unclean) answers).finish (honward.progress hbegun) (by simp)
  | unwritten find unclean answers write =>
    have honward := (unclean.onward hends).trans (answers.onward hends)
    have hs₁ := hanswers (hunclean unclean) answers
    exact Ordered.finish ⟨hs₁.acyclic, hs₁.done⟩ (honward.progress hbegun) (by simp)
  | @made s₁ s₂ _ rule content deps _ find unclean answers write aside =>
    have honward := (unclean.onward hends).trans (answers.onward hends)
    have hs₁ : Ordered s₂ := hanswers (hunclean unclean) answers
    have hstarted : s₂.progress.get? t = some .started := honward.progress hbegun
    have hseen : ∀ d ∈ deps, Seen book (fun _ => True) s₂ d :=
      answers.seen hends trivial (fun h _ => h) (Tracked.asksOnly_true _) (fun h _ _ => h) (by simp)
    have hnot : ∀ {u}, t.Same u → ¬ s₂.Done u := by
      rintro u hsame ⟨digest, hd⟩
      simp [← PathTable.get?_congr hsame, hstarted] at hd
    -- The new trace needs what is done, and what is done does not lead back to the target.
    have hs₂ : Ordered { s₂ with
        disk := (Disk.writeIfChanged t content s₂.disk).2
        traces := s₂.traces.insert t { rule := rule.name, output := book.digest content, deps } } := by
      refine ⟨hs₁.acyclic.insert hs₁.done hnot (hneeds hseen), fun {u v} hu hv => ?_⟩
      refine hs₁.done hu (hv.congr ?_)
      exact (PathTable.get?_insert_of_not_same fun hsame => hnot hsame hu).symm
    refine (hs₂.aside aside).finish (aside.progress ▸ hstarted) fun _ _ u hu => ?_
    obtain ⟨trace', v, digest, hget, hd, hsame⟩ := hu
    rw [aside.traces, PathTable.get?_insert_of_same rfl] at hget
    obtain rfl := Option.some.inj hget
    have hdone : s₂.Done u := hneeds hseen hd hsame
    rw [Done, aside.progress]
    exact hdone

/-- A target that is required leaves the traces ordered. -/
theorem ordered_of_require (n : Nat) (s : Session) (t : Path) :
    (require book n t).Ends s False fun r s' => Ended s t r s' ∧ (Ordered s → Ordered s') :=
  ends_of_ended (fun s _ _ s' => Ordered s → Ordered s') (fun _ => id) (fun _ => id) (fun _ => id)
    (fun hnew _ h => Visits.ordered And.left (fun hs hr => (And.right hr) hs) hnew h) n s t

/-- Targets that are required one after another leave the traces ordered. -/
theorem Served.ordered {asked : Path → Prop} (h : Served book asked s s') (hs : Ordered s) :
    Ordered s' := by
  induction h with
  | start => exact hs
  | require _ _ run ih => exact ((ordered_of_require _ _ _).1 _ _ run).2 ih
  | aside _ ha ih => exact ih.aside ha

end Session

/-! ### In the course of time -/

namespace TraceTable

/-- The traces that there may be in the course of time: none at first, and then those at the end of
    sessions, each with any rules, on any disk and for any targets, with traces removed in between, or
    stored in a file and read from it again. -/
inductive History : TraceTable → Prop
  | start : History ∅
  | session {traces book disk asked s} (h : History traces)
      (served : Session.Served book asked { disk, traces } s) : History s.traces
  | forget {traces} (h : History traces) (t : Path) : History (PathTable.erase traces t)
  | reopen {traces text disk path} (h : History traces) (stored : TraceTable.text? traces = some text)
      (read : Disk.readText disk path = .ok text) : History (TraceTable.load disk path)

/-- Whatever happened, no target needs itself by its traces. -/
theorem acyclic_of_history {traces : TraceTable} (h : History traces) : traces.Acyclic := by
  induction h with
  | start =>
    intro t ht
    obtain ⟨u, ⟨trace, _, _, hget, -⟩, -⟩ := TransGen.head'_iff.1 ht
    simp at hget
  | session _ served ih =>
    refine (served.ordered ⟨ih, fun ⟨digest, hd⟩ => ?_⟩).acyclic
    simp at hd
  | forget _ t ih => exact ih.erase t
  | reopen _ stored read ih => exact load_of_stored stored read ▸ ih

/-! ### Rules that ask for one another -/

/-- A rule whose target asks for another one, and does without it if that is refused. -/
def lenientRule (target needed : Path) : Rule where
  name := "lenient"
  makes := (· == target)
  recipe := fun _ => do
    try Recipe.need needed catch _ => pure ()
    return .ofText "made"

/-- Two targets that ask for one another. -/
def lenientPair : Rulebook where
  rules := [lenientRule (.ofText "/out/t") (.ofText "/out/u"),
    lenientRule (.ofText "/out/u") (.ofText "/out/t")]
  digest := Content.spelled

theorem acyclic_lenientPair :
    ∃ s, Session.requireAll lenientPair 3 [.ofText "/out/t"] { disk := { top := .empty }, traces := ∅ } =
        some ([], s) ∧
      (s.traces.get? (.ofText "/out/t")).map Trace.deps = some [.artifact (.ofText "/out/u") "made"] ∧
      (s.traces.get? (.ofText "/out/u")).map Trace.deps = some [] ∧ s.traces.Acyclic := by
  have hrun : (Session.requireAll lenientPair 3 [.ofText "/out/t"]
      { disk := { top := .empty }, traces := ∅ }).map (fun r => (r.1,
        (r.2.traces.get? (.ofText "/out/t")).map Trace.deps,
        (r.2.traces.get? (.ofText "/out/u")).map Trace.deps)) =
      some ([], some [.artifact (.ofText "/out/u") "made"], some []) := by
    decide +kernel
  obtain ⟨⟨failed, s⟩, run, hs⟩ := Option.map_eq_some_iff.1 hrun
  obtain ⟨rfl, ht, hu⟩ : failed = [] ∧ _ ∧ _ := by simpa only [Prod.mk.injEq] using hs
  have hserved := (Session.requireAll_served.1 _ _ run).1
  exact ⟨s, run, ht, hu, acyclic_of_history (History.start.session hserved)⟩

end TraceTable

end ImportIndex
