import ImportIndex.Build.Session

/-!
# Building from scratch

A session that starts without traces compares no digests. So whatever the digest of a content is,
such sessions come to the same end (`exists_requireAll_of_digest`): two of them, with the same rules
and different digests, are run side by side (`SessionM.Together`) and stay alike but for the digests
(`Session.Twins`).
-/

namespace ImportIndex

/-- Whether two parts of sessions, run side by side, both have no result or end so. -/
def SessionM.Together {α β : Type} (x : SessionM α) (y : SessionM β) (s s' : Session)
    (post : α → β → Session → Session → Prop) : Prop :=
  match x s, y s' with
  | some (a, t), some (b, t') => post a b t t'
  | none, none => True
  | _, _ => False

namespace SessionM.Together

variable {α β γ δ : Type} {x : SessionM α} {y : SessionM β} {s s' : Session}
  {post post' : α → β → Session → Session → Prop}

theorem of_eq_some {a : α} {b : β} {t t' : Session} (hx : x s = some (a, t))
    (hy : y s' = some (b, t')) (h : post a b t t') : Together x y s s' post := by
  rw [Together, hx, hy]
  exact h

theorem mono (h : Together x y s s' post) (hp : ∀ a b t t', post a b t t' → post' a b t t') :
    Together x y s s' post' := by
  unfold Together at *
  split at h
  · exact hp _ _ _ _ h
  · trivial
  · exact h

theorem bind {f : α → SessionM γ} {g : β → SessionM δ} {post' : γ → δ → Session → Session → Prop}
    (h : Together x y s s' post)
    (hf : ∀ a b t t', post a b t t' → Together (f a) (g b) t t' post') :
    Together (x >>= f) (y >>= g) s s' post' := by
  have hbind : ∀ {α β : Type} {x : SessionM α} {f : α → SessionM β} {s : Session},
      (x >>= f) s = (x s).bind fun r => f r.1 r.2 := rfl
  unfold Together at *
  rw [hbind, hbind]
  split at h
  · next a t b t' hx hy =>
    rw [hx, hy]
    exact hf a b t t' h
  · next hx hy =>
    rw [hx, hy]
    trivial
  · contradiction

/-- If the one part has a result, so has the other. -/
theorem exists_of_eq_some {a : α} {t : Session} (h : Together x y s s' post) (hx : x s = some (a, t)) :
    ∃ b t', y s' = some (b, t') ∧ post a b t t' := by
  rw [Together, hx] at h
  cases hy : y s' with
  | none =>
    rw [hy] at h
    contradiction
  | some r =>
    rw [hy] at h
    exact ⟨r.1, r.2, rfl, h⟩

theorem modify {f g : Session → Session} :
    Together (modify f) (modify g) s s' fun _ _ t t' => t = f s ∧ t' = g s' :=
  of_eq_some rfl rfl ⟨rfl, rfl⟩

end SessionM.Together

/-- The progress of a target, without the digest. -/
def Progress.blank : Progress → Progress
  | .done _ => .done ""
  | p => p

namespace Session

/-- Whether sessions are alike but for the digests, and have traces of such targets only that were
    required. -/
structure Twins (s s' : Session) : Prop where
  /-- The disk. -/
  disk : s'.disk = s.disk
  /-- The targets that are being brought up to date. -/
  stack : s'.stack = s.stack
  /-- The progress of the targets. -/
  progress : ∀ t, (s'.progress.get? t).map Progress.blank = (s.progress.get? t).map Progress.blank
  /-- Targets without progress have no trace. -/
  new : ∀ t, s.progress.get? t = none → s.traces.get? t = none ∧ s'.traces.get? t = none

/-- Whether sessions that are alike have gone on from one in which there was progress. -/
structure TwinsAfter (before s s' : Session) : Prop extends Twins s s' where
  /-- There still is progress. -/
  kept : ∀ t, before.progress.get? t ≠ none → s.progress.get? t ≠ none

theorem TwinsAfter.trans {s₀ s₁ s₁' s₂ s₂' : Session} (h : TwinsAfter s₀ s₁ s₁')
    (h' : TwinsAfter s₁ s₂ s₂') : TwinsAfter s₀ s₂ s₂' :=
  ⟨h'.toTwins, fun t ht => h'.kept t (h.kept t ht)⟩

theorem Twins.after {s s' : Session} (h : Twins s s') : TwinsAfter s s s' := ⟨h, fun _ ht => ht⟩

/-- Whether results are the same but for the digest. -/
inductive SameResult {α β : Type} : Except Failure α → Except Failure β → Prop
  | ok (a : α) (b : β) : SameResult (.ok a) (.ok b)
  | error (cause : Failure) : SameResult (.error cause) (.error cause)

variable {book : Rulebook} {digest : Content → String} {req req' : Require} {t : Path}
  {s s' : Session}

/-- Twins stay alike when a target goes on in both. -/
theorem Twins.insert (h : Twins s s') {p p' : Progress} {stack stack' : List Path}
    (hp : p'.blank = p.blank) (hstack : stack' = stack) {graph graph' : TaskGraph}
    {stats stats' : Stats} :
    TwinsAfter s { s with progress := s.progress.insert t p, stack, graph, stats }
      { s' with progress := s'.progress.insert t p', stack := stack', graph := graph',
                stats := stats' } := by
  refine ⟨⟨h.disk, hstack, fun u => ?_, fun u hu => h.new u ?_⟩, fun u hu => ?_⟩ <;>
    by_cases hsame : t.Same u
  · rw [PathTable.get?_insert_of_same hsame, PathTable.get?_insert_of_same hsame]
    exact congrArg some hp
  · rw [PathTable.get?_insert_of_not_same hsame, PathTable.get?_insert_of_not_same hsame]
    exact h.progress u
  · rw [PathTable.get?_insert_of_same hsame] at hu
    cases hu
  · rwa [PathTable.get?_insert_of_not_same hsame] at hu
  · rw [PathTable.get?_insert_of_same hsame]
    exact Option.some_ne_none _
  · rwa [PathTable.get?_insert_of_not_same hsame]

theorem tell_together (h : Twins s s') {e : Event} :
    SessionM.Together (tell e) (tell e) s s' fun _ _ => TwinsAfter s :=
  .of_eq_some rfl rfl ⟨⟨h.disk, h.stack, h.progress, h.new⟩, fun _ ht => ht⟩

section

variable (hreq : ∀ s s' u, Twins s s' →
  SessionM.Together (req u) (req' u) s s' fun r r' u u' => SameResult r r' ∧ TwinsAfter s u u')

include hreq

theorem needFor_together (h : Twins s s') {u : Path} :
    SessionM.Together (needFor req t u) (needFor req' t u) s s' fun r r' u u' =>
      SameResult r r' ∧ TwinsAfter s u u' := by
  refine (hreq s s' u h).bind fun r r' s₁ s₁' ⟨hr, h₁⟩ => ?_
  cases hr with
  | error cause => exact .of_eq_some rfl rfl ⟨.error cause, h₁⟩
  | ok d d' =>
    exact .of_eq_some rfl rfl ⟨.ok _ _, ⟨h₁.disk, h₁.stack, h₁.progress, h₁.new⟩, h₁.kept⟩

theorem answer_together {α : Type} {x : Tracked α} {before before' : List Dependency}
    (hlen : before'.length = before.length) (h : Twins s s') :
    SessionM.Together (answer book req t x before)
      (answer { book with digest := digest } req' t x before') s s' fun r r' u u' =>
        r'.1 = r.1 ∧ TwinsAfter s u u' := by
  induction x generalizing s s' before before' with
  | done a => exact .of_eq_some rfl rfl ⟨rfl, h.after⟩
  | readText path next ih =>
    have hread : ∀ found : Except IoFault Content,
        (contentRead? { book with digest := digest } path found).toList.length =
          (contentRead? book path found).toList.length := by
      rintro (fault | c)
      · cases fault <;> rfl
      · rfl
    change SessionM.Together (answer book req t (next ((s.disk.read path).bind textOf)) _)
      (answer _ req' t (next ((s'.disk.read path).bind textOf)) _) s s' _
    rw [h.disk]
    exact ih _ (by rw [List.length_append, List.length_append, hread, hlen]) h
  | isFile path next ih =>
    change SessionM.Together (answer book req t (next (s.disk.isFile path)) _)
      (answer _ req' t (next (s'.disk.isFile path)) _) s s' _
    rw [h.disk]
    exact ih _ (congrArg Nat.succ hlen) h
  | need u next ih =>
    rw [answer, answer]
    refine (needFor_together hreq h).bind fun r r' s₁ s₁' ⟨hr, h₁⟩ => ?_
    cases hr with
    | error cause => exact (ih _ hlen h₁.toTwins).mono fun _ _ _ _ h => ⟨h.1, h₁.trans h.2⟩
    | ok d d' =>
      have hrest := @ih (.ok ()) s₁ s₁' (d :: before) (d' :: before') (congrArg Nat.succ hlen)
        h₁.toTwins
      exact hrest.mono fun _ _ _ _ h => ⟨h.1, h₁.trans h.2⟩
  | artifact u next ih =>
    rw [answer, answer]
    refine (needFor_together hreq h).bind fun r r' s₁ s₁' ⟨hr, h₁⟩ => ?_
    cases hr with
    | error cause => exact (ih _ hlen h₁.toTwins).mono fun _ _ _ _ h => ⟨h.1, h₁.trans h.2⟩
    | ok d d' =>
      have hrest := @ih ((s₁.disk.readText u).mapError (.readArtifact u)) s₁ s₁' (d :: before)
        (d' :: before') (congrArg Nat.succ hlen) h₁.toTwins
      change SessionM.Together (answer book req t (next _) (d :: before))
        (answer _ req' t (next ((s₁'.disk.readText u).mapError (.readArtifact u)))
          (d' :: before')) s₁ s₁' _
      rw [h₁.disk]
      exact hrest.mono fun _ _ _ _ h => ⟨h.1, h₁.trans h.2⟩
  | count next ih =>
    rw [answer, answer, hlen]
    exact ih _ hlen h
  | tell event next ih =>
    refine (tell_together h).bind fun _ _ s₁ s₁' h₁ => ?_
    exact (ih hlen h₁.toTwins).mono fun _ _ _ _ h => ⟨h.1, h₁.trans h.2⟩

/-- A target is made in both sessions, or in neither. -/
theorem make_together {rule : Rule} (h : Twins s s') (ht : s.progress.get? t ≠ none) :
    SessionM.Together (make book req rule t) (make { book with digest := digest } req' rule t) s s'
      fun r r' u u' => SameResult r r' ∧ TwinsAfter s u u' := by
  refine (answer_together hreq rfl h).bind fun (r, deps) (r', deps') s₁ s₁' hr => ?_
  obtain ⟨rfl, h₁⟩ : r' = r ∧ TwinsAfter s s₁ s₁' := hr
  cases r' with
  | error cause => exact .of_eq_some rfl rfl ⟨.error _, h₁⟩
  | ok c =>
    -- Both write the same content on the same disk.
    have hwrite : SessionM.Together (writeArtifact t c) (writeArtifact t c) s₁ s₁' fun r r' u u' =>
        r' = r ∧ TwinsAfter s u u' := by
      have hdisk := h₁.disk
      refine .of_eq_some rfl rfl ⟨?_, ⟨?_, h₁.stack, h₁.progress, h₁.new⟩, h₁.kept⟩
      · rw [hdisk]
      · rw [hdisk]
    refine hwrite.bind fun r r' s₂ s₂' hr => ?_
    obtain ⟨rfl, h₂⟩ := hr
    cases r' with
    | error fault => exact .of_eq_some rfl rfl ⟨.error _, h₂⟩
    | ok written =>
      -- Only the target gets a trace, and there is progress of it.
      have hnew : ∀ {traces : TraceTable} {trace : Trace} {u : Path},
          s₂.progress.get? u = none → traces.get? u = none →
            (traces.insert t trace).get? u = none := by
        intro traces trace u hu hget
        rw [PathTable.get?_insert_of_not_same fun hsame => ?_]
        · exact hget
        · exact h₂.kept t ht ((PathTable.get?_congr hsame).trans hu)
      have h₃ : ∀ trace trace' stats stats', TwinsAfter s
          { s₂ with stats := stats, traces := s₂.traces.insert t trace }
          { s₂' with stats := stats', traces := s₂'.traces.insert t trace' } := by
        refine fun _ _ _ _ => ⟨⟨h₂.disk, h₂.stack, h₂.progress, fun u hu => ?_⟩, h₂.kept⟩
        exact ⟨hnew hu (h₂.new u hu).1, hnew hu (h₂.new u hu).2⟩
      refine SessionM.Together.modify.bind fun _ _ s₃ s₃' h => ?_
      have h₃ : TwinsAfter s s₃ s₃' := by
        rw [h.1, h.2]
        exact h₃ _ _ _ _
      cases written with
      | true => exact .of_eq_some rfl rfl ⟨.ok _ _, h₃⟩
      | false =>
        refine (tell_together h₃.toTwins).bind fun _ _ s₄ s₄' h₄ => ?_
        exact .of_eq_some rfl rfl ⟨.ok _ _, h₃.trans h₄⟩

/-- A target without a trace is made. -/
theorem bringUpToDate_together {rule : Rule} (h : Twins s s') (ht : s.progress.get? t ≠ none)
    (hnone : s.traces.get? t = none ∧ s'.traces.get? t = none) :
    SessionM.Together (bringUpToDate book req rule t)
      (bringUpToDate { book with digest := digest } req' rule t) s s'
      fun r r' u u' => SameResult r r' ∧ TwinsAfter s u u' := by
  -- There is no trace to check in either session.
  have hclean : ∀ {book : Rulebook} {req : Require} {s : Session},
      s.traces.get? t = none → clean? book req rule t s = some (none, s) := by
    intro book req s hget
    have hfound : (get : SessionM Session) s = some (s, s) := rfl
    simp only [clean?, bind, StateT.bind, hfound, Option.bind_some, hget]
    rfl
  have hboth : SessionM.Together (clean? book req rule t)
      (clean? { book with digest := digest } req' rule t) s s'
      fun r r' u u' => r = none ∧ r' = none ∧ u = s ∧ u' = s' :=
    .of_eq_some (hclean hnone.1) (hclean hnone.2) ⟨rfl, rfl, rfl, rfl⟩
  refine hboth.bind ?_
  rintro _ _ _ _ ⟨rfl, rfl, rfl, rfl⟩
  refine (tell_together h).bind fun _ _ s₁ s₁' h₁ => ?_
  exact (make_together hreq h₁.toTwins (h₁.kept t ht)).mono fun _ _ _ _ h => ⟨h.1, h₁.trans h.2⟩

/-- A target that was not required before is brought up to date in both sessions alike. -/
theorem visit_together (h : Twins s s') (ht : s.progress.get? t = none) :
    SessionM.Together (visit book req t) (visit { book with digest := digest } req' t) s s'
      fun r r' u u' => SameResult r r' ∧ TwinsAfter s u u' := by
  refine SessionM.Together.modify.bind fun _ _ s₁ s₁' hs => ?_
  have h₁ : TwinsAfter s s₁ s₁' := by
    rw [hs.1, hs.2]
    exact h.insert rfl (congrArg (t :: ·) h.stack)
  have hfinish : ∀ r r' s₂ s₂', SameResult r r' ∧ TwinsAfter s₁ s₂ s₂' →
      SessionM.Together
        (do
          modify (finish t r)
          return r : SessionM (Except Failure String))
        (do
          modify (finish t r')
          return r' : SessionM (Except Failure String)) s₂ s₂'
        fun r r' u u' => SameResult r r' ∧ TwinsAfter s u u' := by
    rintro r r' s₂ s₂' ⟨hr, h₂⟩
    refine SessionM.Together.modify.bind fun _ _ s₃ s₃' hs => ?_
    have h₃ : TwinsAfter s₂ s₃ s₃' := by
      rw [hs.1, hs.2]
      cases hr with
      | ok d d' =>
        have hblank : (Progress.done d').blank = (Progress.done d).blank := rfl
        exact h₂.toTwins.insert hblank (congrArg List.tail h₂.stack)
      | error cause =>
        exact h₂.toTwins.insert (p := .failed) rfl (congrArg List.tail h₂.stack)
    exact .of_eq_some rfl rfl ⟨hr, h₁.trans (h₂.trans h₃)⟩
  have hfind : Rulebook.find { book with digest := digest } t = book.find t := rfl
  rw [hfind]
  cases book.find t with
  | error cause =>
    exact SessionM.Together.bind (.of_eq_some rfl rfl ⟨.error _, h₁.toTwins.after⟩) hfinish
  | ok rule =>
    refine (bringUpToDate_together hreq h₁.toTwins ?_ ?_).bind hfinish
    · rw [hs.1, start, PathTable.get?_insert_of_same rfl]
      exact Option.some_ne_none _
    · rw [hs.1, hs.2]
      exact h.new t ht

end

/-- Sessions require a target alike. -/
theorem require_together (n : Nat) (h : Twins s s') :
    SessionM.Together (require book n t) (require { book with digest := digest } n t) s s'
      fun r r' u u' => SameResult r r' ∧ TwinsAfter s u u' := by
  induction n generalizing t s s' with
  | zero => trivial
  | succ n ih =>
    have hget : SessionM.Together (get : SessionM Session) get s s'
        fun r r' u u' => s = r ∧ s' = r' ∧ s = u ∧ s' = u' := .of_eq_some rfl rfl ⟨rfl, rfl, rfl, rfl⟩
    refine hget.bind ?_
    rintro _ _ _ _ ⟨rfl, rfl, rfl, rfl⟩
    have hprogress := h.progress t
    cases hp : s.progress.get? t with
    | none =>
      rw [hp, Option.map_none, Option.map_eq_none_iff] at hprogress
      rw [hprogress]
      exact visit_together (fun _ _ _ h => ih h) h hp
    | some p =>
      rw [hp, Option.map_some, Option.map_eq_some_iff] at hprogress
      obtain ⟨p', hp', hblank⟩ := hprogress
      rw [hp']
      cases p with
      | done d =>
        cases p' with
        | done d' => exact .of_eq_some rfl rfl ⟨.ok _ _, h.after⟩
        | _ => cases hblank
      | failed =>
        cases p' with
        | failed => exact .of_eq_some rfl rfl ⟨.error _, h.after⟩
        | _ => cases hblank
      | started =>
        cases p' with
        | started =>
          rw [h.stack]
          exact .of_eq_some rfl rfl ⟨.error _, h.after⟩
        | _ => cases hblank

/-- Sessions require targets alike. -/
theorem requireAll_together {n : Nat} {ts : List Path} (h : Twins s s') :
    SessionM.Together (requireAll book n ts) (requireAll { book with digest := digest } n ts) s s'
      fun r r' u u' => r' = r ∧ TwinsAfter s u u' := by
  induction ts generalizing s s' with
  | nil => exact .of_eq_some rfl rfl ⟨rfl, h.after⟩
  | cons t ts ih =>
    refine SessionM.Together.modify.bind fun _ _ s₀ s₀' hs => ?_
    have h₀ : TwinsAfter s s₀ s₀' := by
      rw [hs.1, hs.2]
      exact ⟨⟨h.disk, h.stack, h.progress, h.new⟩, fun _ ht => ht⟩
    refine (require_together n h₀.toTwins).bind fun r r' s₁ s₁' ⟨hr, h₁⟩ => ?_
    cases hr with
    | ok d d' => exact (ih h₁.toTwins).mono fun _ _ _ _ h => ⟨h.1, h₀.trans (h₁.trans h.2)⟩
    | error cause =>
      refine (tell_together h₁.toTwins).bind fun _ _ s₂ s₂' h₂ => ?_
      refine (ih h₂.toTwins).bind fun failed failed' s₃ s₃' h₃ => ?_
      obtain ⟨rfl, h₃⟩ := h₃
      exact .of_eq_some rfl rfl ⟨rfl, h₀.trans (h₁.trans (h₂.trans h₃))⟩

/-- A session without traces comes to the same end, whatever the digest is. -/
theorem exists_requireAll_of_digest {n : Nat} {ts : List Path} {disk : Disk}
    {failed : List (Path × Failure)} (run : requireAll book n ts { disk, traces := ∅ } =
      some (failed, s)) (digest : Content → String) :
    ∃ s', requireAll { book with digest } n ts { disk, traces := ∅ } = some (failed, s') ∧
      s'.disk = s.disk ∧
        ∀ t d, s.progress.get? t = some (.done d) → ∃ d', s'.progress.get? t = some (.done d') := by
  have hstart : Twins { disk, traces := ∅ } { disk, traces := ∅ } :=
    ⟨rfl, rfl, fun _ => rfl, fun _ _ => ⟨PathTable.get?_empty, PathTable.get?_empty⟩⟩
  have htogether : SessionM.Together (requireAll book n ts) (requireAll { book with digest } n ts)
      { disk, traces := ∅ } { disk, traces := ∅ } (fun r r' u u' => r' = r ∧ TwinsAfter _ u u') :=
    requireAll_together hstart
  obtain ⟨failed', s', hs', rfl, h⟩ := htogether.exists_of_eq_some run
  refine ⟨s', hs', h.disk, fun t d hdone => ?_⟩
  have hprogress := h.progress t
  rw [hdone] at hprogress
  obtain ⟨p, hp, hblank⟩ := Option.map_eq_some_iff.1 hprogress
  cases p with
  | done d' => exact ⟨d', hp⟩
  | _ => cases hblank

end Session

end ImportIndex
