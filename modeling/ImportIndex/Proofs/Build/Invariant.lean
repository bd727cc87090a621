import ImportIndex.Proofs.Build.Scope
import Mathlib.Data.List.Chain
import Mathlib.Tactic.Choose

/-!
# What a session keeps

As long as a session does what its scope says, it keeps its invariant (`Scope.Inv`): targets that
are done are settled, those that failed may be refused, and those that are started are on the stack,
each asked for by the next. `SessionM.Ends` says of a part of a session how it ends, and under which
condition it has a result; such statements are put together along `bind`.
-/

namespace ImportIndex

namespace SessionM

variable {α β : Type} {x : SessionM α} {s : Session} {must must' : Prop}
  {post post' : α → Session → Prop}

/-- Whether what runs in a session ends so, and has a result if it must. -/
def Ends (x : SessionM α) (s : Session) (must : Prop) (post : α → Session → Prop) : Prop :=
  (∀ a s', x s = some (a, s') → post a s') ∧ (must → ∃ r, x s = some r)

namespace Ends

theorem of_eq_some {a : α} {s' : Session} (h : x s = some (a, s')) (hpost : post a s') :
    Ends x s must post := by
  refine ⟨fun b t ht => ?_, fun _ => ⟨_, h⟩⟩
  obtain ⟨rfl, rfl⟩ := Prod.mk.inj (Option.some.inj (h.symm.trans ht))
  exact hpost

theorem pure {a : α} (h : post a s) : Ends (Pure.pure a) s must post := of_eq_some rfl h

theorem mono (h : Ends x s must post) (hp : ∀ a s', post a s' → post' a s') :
    Ends x s must post' :=
  ⟨fun a s' hx => hp a s' (h.1 a s' hx), h.2⟩

theorem bind {f : α → SessionM β} {post' : β → Session → Prop} (h : Ends x s must post)
    (hf : ∀ a s', post a s' → Ends (f a) s' must post') : Ends (x >>= f) s must post' := by
  have hbind : (x >>= f) s = (x s).bind fun r => f r.1 r.2 := rfl
  constructor
  · intro b s'' hb
    rw [hbind] at hb
    obtain ⟨⟨a, s'⟩, ha, hb⟩ := Option.bind_eq_some_iff.1 hb
    exact (hf a s' (h.1 a s' ha)).1 b s'' hb
  · intro hm
    obtain ⟨⟨a, s'⟩, ha⟩ := h.2 hm
    obtain ⟨r, hr⟩ := (hf a s' (h.1 a s' ha)).2 hm
    exact ⟨r, by rw [hbind, ha]; exact hr⟩

theorem of_get : Ends (get : SessionM Session) s must fun found s' => s = found ∧ s = s' :=
  of_eq_some rfl ⟨rfl, rfl⟩

theorem of_modify {f : Session → Session} :
    Ends (modify f : SessionM Unit) s must fun _ s' => s' = f s :=
  of_eq_some rfl rfl

end Ends

end SessionM

namespace Session

/-- Whether a target is up to date. -/
def Done (s : Session) (t : Path) : Prop := ∃ digest, s.progress.get? t = some (.done digest)

/-- Whether sessions differ in nothing but what they count and tell. -/
structure Alike (s s' : Session) : Prop where
  /-- The disk. -/
  disk : s'.disk = s.disk
  /-- The traces. -/
  traces : s'.traces = s.traces
  /-- The progress of the targets. -/
  progress : s'.progress = s.progress
  /-- The targets that are being brought up to date. -/
  stack : s'.stack = s.stack

/-- Whether a session goes on from another one: what is done stays done, the same targets are being
    brought up to date, and the traces and files of those that are `kept` stay. -/
structure Later (kept : List Path) (s s' : Session) : Prop where
  /-- What is done stays done. -/
  done : ∀ {t digest}, s.progress.get? t = some (.done digest) →
    s'.progress.get? t = some (.done digest)
  /-- The targets that are being brought up to date. -/
  stack : s'.stack = s.stack
  /-- The traces that are kept. -/
  traces : ∀ t ∈ kept, s'.traces.get? t = s.traces.get? t
  /-- The files that are kept. -/
  files : ∀ t ∈ kept, ∀ c, s.disk.read t = .ok c → s'.disk.read t = .ok c

variable {s s' s'' : Session} {kept kept' : List Path}

theorem Alike.later (h : Alike s s') : Later kept s s' where
  done := h.progress ▸ id
  stack := h.stack
  traces _ _ := by rw [h.traces]
  files _ _ _ := h.disk ▸ id

theorem Later.refl : Later kept s s := ⟨id, rfl, fun _ _ => rfl, fun _ _ _ => id⟩

theorem Later.trans (h : Later kept s s') (h' : Later kept s' s'') : Later kept s s'' where
  done ht := h'.done (h.done ht)
  stack := h'.stack.trans h.stack
  traces t ht := (h'.traces t ht).trans (h.traces t ht)
  files t ht c hc := h'.files t ht c (h.files t ht c hc)

theorem Later.mono (h : Later kept s s') (hk : ∀ t ∈ kept', t ∈ kept) : Later kept' s s' where
  done := h.done
  stack := h.stack
  traces t ht := h.traces t (hk t ht)
  files t ht := h.files t (hk t ht)

theorem tell_ends {e : Event} {must : Prop} :
    SessionM.Ends (tell e) s must fun _ s' => Alike s s' :=
  SessionM.Ends.mono .of_modify fun _ _ h => h ▸ ⟨rfl, rfl, rfl, rfl⟩

theorem addNeed_ends {t u : Path} {must : Prop} :
    SessionM.Ends (addNeed t u) s must fun _ s' => Alike s s' :=
  SessionM.Ends.mono .of_modify fun _ _ h => h ▸ ⟨rfl, rfl, rfl, rfl⟩

end Session

namespace Scope

open Session

variable {scope : Scope} {s s' : Session} {t u : Path} {c : Content}

/-- What a session keeps. -/
structure Inv (scope : Scope) (s : Session) : Prop where
  /-- The disk was changed by nothing but writing targets. -/
  reaches : scope.Reaches s.disk
  /-- The traces are genuine. -/
  genuine : ∀ {t trace}, scope.allowed t → s.traces.get? t = some trace →
    ∃ c, trace.Genuine scope.book scope.refuses t c
  /-- The traces of other targets stay. -/
  others : ∀ {t}, (∀ u, scope.allowed u → ¬ u.Same t) → s.traces.get? t = scope.traces.get? t
  /-- Only targets that may be required were required. -/
  visited : ∀ {t p}, s.progress.get? t = some p → ∃ u, scope.allowed u ∧ u.Same t
  /-- Targets that are done are settled. -/
  done : ∀ {t digest}, scope.allowed t → s.progress.get? t = some (.done digest) →
    ∃ c, scope.Settled s.Done s.traces s.disk t c ∧ scope.book.digest c = digest
  /-- Targets that failed may be refused for that. -/
  failed : ∀ {t}, scope.allowed t → s.progress.get? t = some .failed →
    scope.refuses t (.dependencyFailed t)
  /-- Targets that are started are on the stack. -/
  started : ∀ {t}, scope.allowed t → s.progress.get? t = some .started → t ∈ s.stack
  /-- Targets on the stack are started. -/
  stack : ∀ {t}, t ∈ s.stack → scope.allowed t ∧ s.progress.get? t = some .started
  /-- No target is on the stack twice. -/
  nodup : s.stack.Nodup
  /-- Targets on the stack are asked for by the next. -/
  chain : s.stack.IsChain fun inner outer => scope.Needs outer inner

theorem Inv.of_alike (h : scope.Inv s) (hs : Alike s s') : scope.Inv s' where
  reaches := hs.disk ▸ h.reaches
  genuine := hs.traces ▸ h.genuine
  others := hs.traces ▸ h.others
  visited := hs.progress ▸ h.visited
  done ht hd := by
    obtain ⟨c, hc, rfl⟩ := h.done ht (hs.progress ▸ hd)
    refine ⟨c, ?_, rfl⟩
    rw [hs.traces, hs.disk, show s'.Done = s.Done from funext fun t => by rw [Done, Done, hs.progress]]
    exact hc
  failed := hs.progress ▸ h.failed
  started := by
    rw [hs.progress, hs.stack]
    exact h.started
  stack := by
    rw [hs.progress, hs.stack]
    exact h.stack
  nodup := hs.stack ▸ h.nodup
  chain := hs.stack ▸ h.chain

/-- A target that is done is not on the stack. -/
theorem Inv.ne_of_done (h : scope.Inv s) (ht : t ∈ s.stack) (hu : s.Done u) : t ≠ u := by
  rintro rfl
  obtain ⟨digest, hu⟩ := hu
  simp [(h.stack ht).2] at hu

/-- Writing a target that is being brought up to date keeps the invariant. -/
theorem Inv.write (hl : scope.Lawful) (h : scope.Inv s) (ht : t ∈ s.stack) (c : Content) :
    scope.Inv { s with disk := (Disk.writeIfChanged t c s.disk).2 } where
  reaches := .write h.reaches (h.stack ht).1 c
  genuine := h.genuine
  others := h.others
  visited := h.visited
  done hu hd := by
    obtain ⟨d, hd, hdigest⟩ := h.done hu hd
    refine ⟨d, hd.mono (fun _ _ => id) (fun _ _ _ => rfl) fun u d hu hdone hread => ?_, hdigest⟩
    exact hl.apart h.reaches (h.stack ht).1 hu (h.ne_of_done ht hdone) hread
  failed := h.failed
  started := h.started
  stack := h.stack
  nodup := h.nodup
  chain := h.chain

theorem Lawful.not_same (hl : scope.Lawful) (ht : scope.allowed t) (hu : scope.allowed u)
    (h : t ≠ u) : ¬ t.Same u := fun hs => h (hl.same ht hu hs)

/-- A genuine trace of a target that is being brought up to date keeps the invariant. -/
theorem Inv.trace (hl : scope.Lawful) (h : scope.Inv s) (ht : t ∈ s.stack) {trace : Trace}
    (hg : trace.Genuine scope.book scope.refuses t c) (stats : Stats) :
    scope.Inv { s with stats, traces := s.traces.insert t trace } where
  reaches := h.reaches
  genuine {u trace'} hu hget := by
    obtain ⟨hs, rfl⟩ | ⟨-, hget⟩ := PathTable.get?_insert_eq_some hget
    · obtain rfl := hl.same (h.stack ht).1 hu hs
      exact ⟨c, hg⟩
    · exact h.genuine hu hget
  others hu := (PathTable.get?_insert_of_not_same (hu t (h.stack ht).1)).trans (h.others hu)
  visited := h.visited
  done hu hd := by
    obtain ⟨d, hd, hdigest⟩ := h.done hu hd
    refine ⟨d, hd.mono (fun _ _ => id) (fun u hu hdone => ?_) (fun _ _ _ _ => id), hdigest⟩
    exact PathTable.get?_insert_of_not_same
      (hl.not_same (h.stack ht).1 hu (h.ne_of_done ht hdone))
  failed := h.failed
  started := h.started
  stack := h.stack
  nodup := h.nodup
  chain := h.chain

/-- A target on the stack leads to the one on top of it. -/
theorem reflTransGen_of_isChain {l : List Path} {top : Path}
    (h : (top :: l).IsChain fun inner outer => scope.Needs outer inner) (ht : t ∈ top :: l) :
    Relation.ReflTransGen scope.Needs t top := by
  induction l generalizing top with
  | nil =>
    obtain rfl := List.mem_singleton.1 ht
    exact .refl
  | cons next l ih =>
    rcases List.mem_cons.1 ht with rfl | ht
    · exact .refl
    · rw [List.isChain_cons_cons] at h
      exact (ih h.2 ht).tail h.1

/-- Whether a dependency has the recorded answer in a session, and stays so. -/
def Answered (scope : Scope) (s : Session) : Dependency → Prop
  | .artifact u digest => scope.allowed u ∧ s.progress.get? u = some (.done digest)
  | d => scope.world.Agrees scope.book d

theorem Answered.later {d : Dependency} {kept : List Path} (h : scope.Answered s d)
    (hs : Later kept s s') : scope.Answered s' d := by
  cases d with
  | artifact u digest => exact ⟨h.1, hs.done h.2⟩
  | content => exact h
  | presence => exact h

theorem Answered.alike {d : Dependency} (h : scope.Answered s d) (hs : Alike s s') :
    scope.Answered s' d :=
  have hlater : Later [] s s' := hs.later
  h.later hlater

/-- What is answered in a session is what the world at its start answers. -/
theorem Answered.agrees (hl : scope.Lawful) (hi : scope.Inv s) {d : Dependency}
    (h : scope.Answered s d) : scope.world.Agrees scope.book d := by
  cases d with
  | artifact u digest =>
    obtain ⟨c, hc, hd⟩ := hi.done h.1 h.2
    exact ⟨c, hc.makes hl, hd⟩
  | content => exact h
  | presence => exact h

/-- Whether a target is ready to be done: it has a genuine trace all of whose questions are answered,
    and the artifact that the trace is about. -/
structure Ready (scope : Scope) (s : Session) (t : Path) (c : Content) : Prop where
  /-- The trace. -/
  trace : ∃ trace, s.traces.get? t = some trace ∧ trace.Genuine scope.book scope.refuses t c ∧
    ∀ d ∈ trace.deps, scope.Answered s d
  /-- The artifact. -/
  read : s.disk.read t = .ok c

theorem Ready.of_alike (h : scope.Ready s t c) (hs : Alike s s') : scope.Ready s' t c := by
  obtain ⟨trace, hkept, hgenuine, hdeps⟩ := h.trace
  refine ⟨⟨trace, hs.traces ▸ hkept, hgenuine, fun d hd => ?_⟩, hs.disk ▸ h.read⟩
  exact Answered.alike (hdeps d hd) hs

/-- What is ready is settled, once it is done. -/
theorem Ready.settled (hi : scope.Inv s) (ht : scope.allowed t) (h : scope.Ready s t c)
    {done : Path → Prop} (here : done t) (hdone : ∀ u, scope.allowed u → s.Done u → done u) :
    scope.Settled done s.traces s.disk t c := by
  obtain ⟨trace, hkept, hgenuine, hdeps⟩ := h.trace
  have hbelow : ∀ u, ∃ c, ∀ digest, .artifact u digest ∈ trace.deps →
      scope.Settled s.Done s.traces s.disk u c ∧ scope.book.digest c = digest := by
    intro u
    by_cases hu : ∃ digest, .artifact u digest ∈ trace.deps
    · obtain ⟨digest, hd⟩ := hu
      obtain ⟨ha, hp⟩ := hdeps _ hd
      obtain ⟨c, hc, rfl⟩ := hi.done ha hp
      refine ⟨c, fun digest' hd' => ⟨hc, ?_⟩⟩
      simpa using hp.symm.trans (hdeps _ hd').2
    · exact ⟨c, fun digest hd => absurd ⟨digest, hd⟩ hu⟩
  choose contents hcontents using hbelow
  refine .intro contents ht here hkept hgenuine h.read (fun p d hd => hdeps _ hd)
    (fun p b hd => hdeps _ hd) (fun u d hd => (hcontents u d hd).2) fun u d hd => ?_
  exact (hcontents u d hd).1.mono hdone (fun _ _ _ => rfl) fun _ _ _ _ => id

end Scope

end ImportIndex
