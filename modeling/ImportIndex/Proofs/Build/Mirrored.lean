import ImportIndex.Proofs.Build.Attested
import ImportIndex.Proofs.Build.FromScratch
import ImportIndex.Proofs.Build.Storing

/-!
# Sessions that mirror one another

Two sessions with the same rules go on alike as long as all that is asked on behalf of certain targets
has the same answers in both (`Mirror.Lawful`): each request ends with the same result, and the counts,
the events and the graphs are the same (`Mirror.requireAll_together`). The disks and the traces may
differ elsewhere. A trace is only checked as far as its questions are those that the rule asks now, so
that what it says of other targets does not matter.
-/

namespace ImportIndex

/-- Tables that came from two others as the same traces of targets were put in. -/
inductive TraceTable.Alongside (targets : Path → Prop) (traces traces' : TraceTable) :
    TraceTable → TraceTable → Prop
  | start : Alongside targets traces traces' traces traces'
  | insert {now now' : TraceTable} {t : Path} (h : Alongside targets traces traces' now now')
      (ht : targets t) (trace : Trace) :
      Alongside targets traces traces' (now.insert t trace) (now'.insert t trace)

namespace TraceTable.Alongside

variable {targets : Path → Prop} {traces traces' now now' : TraceTable} {t : Path} {e : Path × Trace}

theorem symm (h : Alongside targets traces traces' now now') :
    Alongside targets traces' traces now' now := by
  induction h with
  | start => exact .start
  | insert _ ht trace ih => exact ih.insert ht trace

theorem eq_of_eq (h : Alongside targets traces traces' now now') (heq : traces' = traces) :
    now' = now := by
  induction h with
  | start => exact heq
  | insert _ _ trace ih => rw [ih]

theorem get?_eq (h : Alongside targets traces traces' now now') (ht : traces'.get? t = traces.get? t) :
    now'.get? t = now.get? t := by
  induction h with
  | start => exact ht
  | @insert now now' u _ _ trace ih =>
    by_cases hs : u.Same t
    · rw [PathTable.get?_insert_of_same hs, PathTable.get?_insert_of_same hs]
    · rw [PathTable.get?_insert_of_not_same hs, PathTable.get?_insert_of_not_same hs, ih]

theorem spelling?_eq (h : Alongside targets traces traces' now now')
    (ht : traces'.spelling? t = traces.spelling? t) : now'.spelling? t = now.spelling? t := by
  induction h with
  | start => exact ht
  | @insert now now' u _ _ trace ih =>
    by_cases hs : u.Same t
    · rw [PathTable.spelling?_insert_of_same hs, PathTable.spelling?_insert_of_same hs, ih]
    · rw [PathTable.spelling?_insert_of_not_same hs, PathTable.spelling?_insert_of_not_same hs, ih]

/-- An entry of the one table is one of the other, or it was there at the start. -/
theorem mem_entries (h : Alongside targets traces traces' now now')
    (hspelling : ∀ t, targets t → traces'.spelling? t = traces.spelling? t) (he : e ∈ now.entries) :
    e ∈ now'.entries ∨ e ∈ traces.entries := by
  induction h with
  | start => exact .inr he
  | @insert now now' u h hu trace ih =>
    rw [PathTable.mem_entries] at he ⊢
    by_cases hs : u.Same e.1
    · have hsame : now'.spelling? e.1 = now.spelling? e.1 := by
        rw [← PathTable.spelling?_congr hs, ← PathTable.spelling?_congr hs]
        exact h.spelling?_eq (hspelling u hu)
      rw [PathTable.spelling?_insert_of_same hs, PathTable.get?_insert_of_same hs] at he ⊢
      rw [hsame]
      exact .inl he
    · rw [PathTable.spelling?_insert_of_not_same hs, PathTable.get?_insert_of_not_same hs] at he ⊢
      rw [← PathTable.mem_entries]
      exact ih (PathTable.mem_entries.2 he)

/-- The one table can be written if the other one can, if both could be at the start. -/
theorem textual_iff (h : Alongside targets traces traces' now now')
    (hspelling : ∀ t, targets t → traces'.spelling? t = traces.spelling? t) (htraces : traces.Textual)
    (htraces' : traces'.Textual) : now'.Textual ↔ now.Textual := by
  constructor
  · exact fun hnow e he => (h.mem_entries hspelling he).elim (hnow e) (htraces e)
  · exact fun hnow e he => (h.symm.mem_entries (fun t ht => (hspelling t ht).symm) he).elim (hnow e)
      (htraces' e)

end TraceTable.Alongside

/-- Two sessions that are to go on alike. -/
structure Mirror where
  /-- The rules. -/
  book : Rulebook
  /-- The targets that both sessions treat alike. -/
  targets : Path → Prop
  /-- The contents that their artifacts may have. -/
  makes : Path → Content → Prop
  /-- The disks on which they are treated alike. -/
  near : Disk → Disk → Prop
  /-- The traces at the start of the one session. -/
  traces : TraceTable
  /-- The traces at the start of the other. -/
  traces' : TraceTable

namespace Mirror

/-- The world in which files are as on a disk. -/
def world (m : Mirror) (disk : Disk) : World where
  content p := (disk.read p).toOption
  makes := m.makes
  refuses _ _ := True

/-- The questions that have the same answer on two disks, or that are about targets. -/
def Shares (m : Mirror) (disk disk' : Disk) : Question → Prop
  | .content p => disk'.read p = disk.read p
  | .presence p => disk'.isFile p = disk.isFile p
  | .artifact u => m.targets u

/-- Whether rules ask only what is treated alike, and keep to the contents that artifacts may have. -/
structure Lawful (m : Mirror) : Prop where
  /-- No two contents have the same digest. -/
  injective : Function.Injective m.book.digest
  /-- Targets that are the same path are equal. -/
  same : ∀ {t u}, m.targets t → m.targets u → t.Same u → t = u
  /-- A rule asks for no target, or for targets only. -/
  alone_or_asksOnly : ∀ {t rule}, m.targets t → m.book.find t = .ok rule →
    (rule.recipe t).run.Alone ∨ (rule.recipe t).run.AsksOnly fun q => ∃ u, q = .artifact u
  /-- A rule fails if a file cannot be read. -/
  heedsFaults : ∀ {t rule}, m.targets t → m.book.find t = .ok rule →
    (rule.recipe t).run.HeedsFaults
  /-- What a rule asks has the same answers, and what it makes is such a content. -/
  meets : ∀ {disk disk' t rule}, m.near disk disk' → m.targets t → m.book.find t = .ok rule →
    (rule.recipe t).run.Meets (m.world disk) (m.Shares disk disk') fun r => ∀ c, r = .ok c → m.makes t c
  /-- Targets hold the same. -/
  read : ∀ {disk disk' t}, m.near disk disk' → m.targets t → disk'.read t = disk.read t
  /-- Targets are written alike. -/
  write : ∀ {disk disk' t c}, m.near disk disk' → m.targets t →
    (Disk.writeIfChanged t c disk').1 = (Disk.writeIfChanged t c disk).1 ∧
      m.near (Disk.writeIfChanged t c disk).2 (Disk.writeIfChanged t c disk').2
  /-- Writing a target does not change what another one holds. -/
  apart : ∀ {disk disk' t u c d}, m.near disk disk' → m.targets t → m.targets u → t ≠ u →
    disk.read u = .ok c → (Disk.writeIfChanged t d disk).2.read u = .ok c
  /-- Targets have the same traces at the start. -/
  traces : ∀ {t}, m.targets t → m.traces'.get? t = m.traces.get? t
  /-- These traces are genuine. -/
  genuine : ∀ {t trace}, m.targets t → m.traces.get? t = some trace →
    ∃ c, trace.Genuine m.book (fun _ _ => True) t c

/-- Whether a target is up to date with a content that it may have. -/
def Ready (m : Mirror) (disk : Disk) (t : Path) (digest : String) : Prop :=
  ∃ c, disk.read t = .ok c ∧ m.makes t c ∧ m.book.digest c = digest

/-- Whether sessions are alike. -/
structure Alike (m : Mirror) (s s' : Session) : Prop where
  /-- The disks. -/
  near : m.near s.disk s'.disk
  /-- The traces. -/
  traces : TraceTable.Alongside m.targets m.traces m.traces' s.traces s'.traces
  /-- The progress of the targets. -/
  progress : s'.progress = s.progress
  /-- The targets that are being brought up to date. -/
  stack : s'.stack = s.stack
  /-- The targets that were required, and which of them needed which. -/
  graph : s'.graph = s.graph
  /-- What was done. -/
  stats : s'.stats = s.stats
  /-- What was told. -/
  told : s'.told = s.told
  /-- What was not required has the trace that it had at the start. -/
  intact : ∀ {t}, s.progress.get? t = none → s.traces.get? t = m.traces.get? t
  /-- What is done is up to date. -/
  done : ∀ {t digest}, m.targets t → s.progress.get? t = some (.done digest) → m.Ready s.disk t digest

/-- Whether sessions that are alike have gone on from another one. -/
structure AlikeAfter (m : Mirror) (before s s' : Session) : Prop extends Alike m s s' where
  /-- The progress of targets stays. -/
  kept : ∀ {t p}, before.progress.get? t = some p → s.progress.get? t = some p
  /-- Targets that were required before hold what they held. -/
  files : ∀ {t c}, m.targets t → before.progress.get? t ≠ none → before.disk.read t = .ok c →
    s.disk.read t = .ok c

/-- Whether the files that a computation asks for stay as they are: it asks for no target, so that nothing
    happens in between, or for no file. -/
def Rests (disk disk' : Disk) (s s' : Session) (x : Tracked (Except Failure Content)) : Prop :=
  (s.disk = disk ∧ s'.disk = disk' ∧ x.AsksOnly fun q => ∀ u, q ≠ .artifact u) ∨
    x.AsksOnly fun q => ∃ u, q = .artifact u

variable {m : Mirror} {s s' s₀ s₁ s₁' s₂ s₂' : Session} {t u : Path} {req : Session.Require} {rule : Rule}
  {c : Content} {digest : String} {deps before : List Dependency} {disk disk' : Disk}

open Session

theorem Alike.after (h : m.Alike s s') : m.AlikeAfter s s s' := ⟨h, id, fun _ _ => id⟩

theorem AlikeAfter.trans (h : m.AlikeAfter s₀ s₁ s₁') (h' : m.AlikeAfter s₁ s₂ s₂') :
    m.AlikeAfter s₀ s₂ s₂' where
  toAlike := h'.toAlike
  kept hp := h'.kept (h.kept hp)
  files ht hp hc := by
    obtain ⟨p, hp⟩ := Option.ne_none_iff_exists'.1 hp
    refine h'.files ht ?_ (h.files ht (by simp [hp]) hc)
    simp [h.kept hp]

/-- Sessions stay alike when both do the same that touches neither files nor traces nor progress. -/
theorem Alike.aside (h : m.Alike s s') (f : Session → Session)
    (hdisk : ∀ s, (f s).disk = s.disk) (htraces : ∀ s, (f s).traces = s.traces)
    (hprogress : ∀ s, (f s).progress = s.progress) (hstack : ∀ s, (f s).stack = s.stack)
    (hgraph : (f s').graph = (f s).graph) (hstats : (f s').stats = (f s).stats)
    (htold : (f s').told = (f s).told) : m.AlikeAfter s (f s) (f s') where
  near := by rw [hdisk, hdisk]; exact h.near
  traces := by rw [htraces, htraces]; exact h.traces
  progress := by rw [hprogress, hprogress]; exact h.progress
  stack := by rw [hstack, hstack]; exact h.stack
  graph := hgraph
  stats := hstats
  told := htold
  intact hp := by rw [htraces]; exact h.intact (hprogress s ▸ hp)
  done ht hp := by rw [hdisk]; exact h.done ht (hprogress s ▸ hp)
  kept hp := by rw [hprogress]; exact hp
  files _ _ hc := by rw [hdisk]; exact hc

theorem tell_together (h : m.Alike s s') (e : Event) :
    SessionM.Together (tell e) (tell e) s s' fun _ _ s₁ s₁' =>
      m.AlikeAfter s s₁ s₁' ∧ s₁.disk = s.disk ∧ s₁'.disk = s'.disk :=
  .of_eq_some rfl rfl ⟨h.aside (fun s => { s with told := e :: s.told }) (fun _ => rfl) (fun _ => rfl)
    (fun _ => rfl) (fun _ => rfl) h.graph h.stats (congrArg (e :: ·) h.told), rfl, rfl⟩

theorem addNeed_together (h : m.Alike s s') (t u : Path) :
    SessionM.Together (addNeed t u) (addNeed t u) s s' fun _ _ => m.AlikeAfter s :=
  .of_eq_some rfl rfl <| h.aside (fun s => { s with graph := s.graph.addDependency t u }) (fun _ => rfl)
    (fun _ => rfl) (fun _ => rfl) (fun _ => rfl) (congrArg (·.addDependency t u) h.graph) h.stats h.told

/-- Whether a target is treated alike if there is a rule for it. -/
def Requestable (m : Mirror) (t : Path) : Prop := ∀ rule, m.book.find t = .ok rule → m.targets t

/-- Whether requests end alike. -/
def Serves (m : Mirror) (req : Session.Require) : Prop :=
  ∀ {s s' u}, m.Alike s s' → m.Requestable u → SessionM.Together (req u) (req u) s s'
    fun r r' s₁ s₁' => r' = r ∧ m.AlikeAfter s s₁ s₁' ∧
      ∀ digest, r = .ok digest → s₁.progress.get? u = some (.done digest)

section

variable (hl : m.Lawful) (hreq : m.Serves req)

include hreq

theorem needFor_together (h : m.Alike s s') (hu : m.targets u) :
    SessionM.Together (needFor req t u) (needFor req t u) s s' fun r r' s₁ s₁' => r' = r ∧
      m.AlikeAfter s s₁ s₁' ∧ ∀ d, r = .ok d → ∃ digest, d = .artifact u digest ∧
        m.Ready s₁.disk u digest := by
  refine (hreq h fun _ _ => hu).bind fun r r' s₁ s₁' ⟨hr, h₁, hdone⟩ => ?_
  subst hr
  cases r' with
  | error cause => exact .of_eq_some rfl rfl ⟨rfl, h₁, fun _ hd => by cases hd⟩
  | ok digest =>
    refine (addNeed_together h₁.toAlike t u).bind fun _ _ s₂ s₂' h₂ => ?_
    refine .of_eq_some rfl rfl ⟨rfl, h₁.trans h₂, fun d hd => ⟨digest, (Except.ok.inj hd).symm, ?_⟩⟩
    exact h₂.done hu (h₂.kept (hdone digest rfl))

include hl

/-- A rule is answered alike. -/
theorem answer_together {x : Tracked (Except Failure Content)} {post : Except Failure Content → Prop}
    (hx : x.Meets (m.world disk) (m.Shares disk disk') post)
    (hrests : Rests disk disk' s s' x) (h : m.Alike s s') :
    SessionM.Together (answer m.book req t x before) (answer m.book req t x before) s s'
      fun r r' s₁ s₁' => r' = r ∧ m.AlikeAfter s s₁ s₁' ∧ post r.1 := by
  induction x generalizing s s' before with
  | done a => exact .of_eq_some rfl rfl ⟨rfl, h.after, hx⟩
  | readText p next ih =>
    obtain ⟨rfl, rfl, honly⟩ := hrests.resolve_right fun honly => by
      obtain ⟨u, hu⟩ := honly.1
      cases hu
    change SessionM.Together (answer m.book req t (next ((s.disk.read p).bind textOf)) _)
      (answer m.book req t (next ((s'.disk.read p).bind textOf)) (_ ++ before)) s s' _
    have hread : s'.disk.read p = s.disk.read p := hx.1
    rw [hread]
    exact ih _ (hx.2 _ rfl) (.inl ⟨rfl, rfl, honly.2 _⟩) h
  | isFile p next ih =>
    obtain ⟨rfl, rfl, honly⟩ := hrests.resolve_right fun honly => by
      obtain ⟨u, hu⟩ := honly.1
      cases hu
    change SessionM.Together (answer m.book req t (next (s.disk.isFile p)) _)
      (answer m.book req t (next (s'.disk.isFile p)) (.presence p (s'.disk.isFile p) :: before)) s s' _
    have hfile : s'.disk.isFile p = s.disk.isFile p := hx.1
    have hworld : (m.world s.disk).isFile p = s.disk.isFile p := by
      rw [World.isFile, Disk.isFile_eq_isSome_read]
      rfl
    rw [hfile]
    exact ih _ (hworld ▸ hx.2) (.inl ⟨rfl, rfl, honly.2 _⟩) h
  | need u next ih =>
    have honly := hrests.resolve_left fun h => h.2.2.1 u rfl
    rw [answer]
    refine (needFor_together hreq h hx.1).bind ?_
    rintro r r' s₁ s₁' ⟨hr, h₁, hready⟩
    subst hr
    cases r' with
    | error cause =>
      exact (ih _ (hx.2.2 cause trivial) (.inr (honly.2 _)) h₁.toAlike).mono
        fun _ _ _ _ h => ⟨h.1, h₁.trans h.2.1, h.2.2⟩
    | ok d =>
      obtain ⟨digest, rfl, c, -, hc, -⟩ := hready d rfl
      exact (ih _ (hx.2.1 c hc) (.inr (honly.2 _)) h₁.toAlike).mono
        fun _ _ _ _ h => ⟨h.1, h₁.trans h.2.1, h.2.2⟩
  | artifact u next ih =>
    have honly := hrests.resolve_left fun h => h.2.2.1 u rfl
    rw [answer]
    refine (needFor_together hreq h hx.1).bind ?_
    rintro r r' s₁ s₁' ⟨hr, h₁, hready⟩
    subst hr
    cases r' with
    | error cause =>
      exact (ih _ (hx.2.2 cause trivial) (.inr (honly.2 _)) h₁.toAlike).mono
        fun _ _ _ _ h => ⟨h.1, h₁.trans h.2.1, h.2.2⟩
    | ok d =>
      obtain ⟨digest, rfl, c, hread, hc, -⟩ := hready d rfl
      have hread' : s₁'.disk.read u = .ok c := (hl.read h₁.near hx.1).trans hread
      change SessionM.Together (answer m.book req t
          (next ((s₁.disk.readText u).mapError (.readArtifact u))) _)
        (answer m.book req t (next ((s₁'.disk.readText u).mapError (.readArtifact u)))
          (.artifact u digest :: before)) s₁ s₁' _
      rw [readText_eq_artifactText hread, readText_eq_artifactText hread']
      exact (ih _ (hx.2.1 c hc) (.inr (honly.2 _)) h₁.toAlike).mono
        fun _ _ _ _ h => ⟨h.1, h₁.trans h.2.1, h.2.2⟩
  | count next ih =>
    exact ih _ (hx _) (hrests.imp (fun h => ⟨h.1, h.2.1, h.2.2 _⟩) (· _)) h
  | tell event next ih =>
    refine (tell_together h event).bind ?_
    rintro _ _ s₁ s₁' ⟨h₁, hd, hd'⟩
    have hrests₁ : Rests disk disk' s₁ s₁' next :=
      hrests.imp_left fun h => ⟨hd.trans h.1, hd'.trans h.2.1, h.2.2⟩
    exact (ih hx hrests₁ h₁.toAlike).mono fun _ _ _ _ h => ⟨h.1, h₁.trans h.2.1, h.2.2⟩

/-! ### Checking a trace -/

omit hl in
/-- A dependency is checked alike. -/
theorem holds_together {d : Dependency} (hd : m.Shares disk disk' d.question)
    (hrests : (s.disk = disk ∧ s'.disk = disk' ∧ ∀ u, d.question ≠ .artifact u) ∨
      ∃ u, d.question = .artifact u) (h : m.Alike s s') :
    SessionM.Together (holds m.book req t d) (holds m.book req t d) s s' fun r r' s₁ s₁' =>
      r' = r ∧ m.AlikeAfter s s₁ s₁' ∧ (r = true → (m.world disk).Agrees m.book d) ∧
        ((∀ u, d.question ≠ .artifact u) → s₁.disk = s.disk ∧ s₁'.disk = s'.disk) := by
  cases d with
  | content p digest =>
    obtain ⟨rfl, rfl, -⟩ := hrests.resolve_right (by simp [Dependency.question])
    have hread : s'.disk.read p = s.disk.read p := hd
    refine .of_eq_some rfl rfl ⟨?_, h.after, fun hr => beq_iff_eq.1 hr, fun _ => ⟨rfl, rfl⟩⟩
    rw [hread]
  | presence p found =>
    obtain ⟨rfl, rfl, -⟩ := hrests.resolve_right (by simp [Dependency.question])
    have hfile : s'.disk.isFile p = s.disk.isFile p := hd
    refine .of_eq_some rfl rfl ⟨?_, h.after, fun hr => ?_, fun _ => ⟨rfl, rfl⟩⟩
    · rw [hfile]
    · change World.isFile _ p = found
      rw [World.isFile, ← beq_iff_eq.1 hr, Disk.isFile_eq_isSome_read]
      rfl
  | artifact u digest =>
    have hu : m.targets u := hd
    rw [holds]
    refine (hreq h fun _ _ => hu).bind fun r r' s₁ s₁' ⟨hr, h₁, hdone⟩ => ?_
    subst hr
    cases r' with
    | error cause =>
      refine (tell_together h₁.toAlike _).bind fun _ _ s₂ s₂' ⟨h₂, _⟩ => ?_
      exact .of_eq_some rfl rfl ⟨rfl, h₁.trans h₂, by simp, fun hne => absurd rfl (hne u)⟩
    | ok current =>
      refine (addNeed_together h₁.toAlike t u).bind fun _ _ s₂ s₂' h₂ => ?_
      refine .of_eq_some rfl rfl ⟨rfl, h₁.trans h₂, fun hr => ?_, fun hne => absurd rfl (hne u)⟩
      obtain ⟨c, -, hc, hdigest⟩ := h₁.done hu (hdone current rfl)
      exact ⟨c, hc, hdigest.trans (beq_iff_eq.1 hr)⟩

/-- The rest of a genuine trace is checked alike if the dependencies before it are what the world
    answers, as the rule asks for the next one then. -/
theorem allHold_together {x : Tracked (Except Failure Content)} {post : Except Failure Content → Prop}
    (hheeds : x.HeedsFaults) (hx : x.Meets (m.world disk) (m.Shares disk disk') post)
    {w : World} {pre : List Dependency} (hsteps : x.Steps m.book w 0 (pre ++ deps) (.done (.ok c)))
    (hpre : ∀ d ∈ pre, (m.world disk).Agrees m.book d)
    (hrests : Rests disk disk' s s' x) (h : m.Alike s s') :
    SessionM.Together (allHold m.book req t deps) (allHold m.book req t deps) s s' fun r r' s₁ s₁' =>
      r' = r ∧ m.AlikeAfter s s₁ s₁' ∧ (r = true → ∀ d ∈ deps, (m.world disk).Agrees m.book d) := by
  induction deps generalizing pre s s' with
  | nil => exact .of_eq_some rfl rfl ⟨rfl, h.after, by simp⟩
  | cons d deps ih =>
    obtain ⟨y, hy, hq⟩ := hsteps.asks hl.injective hheeds (fun _ _ _ => trivial) rfl hpre
    have hd := (hx.steps hy).asked hq
    have hone : (s.disk = disk ∧ s'.disk = disk' ∧ ∀ u, d.question ≠ .artifact u) ∨
        ∃ u, d.question = .artifact u :=
      hrests.imp (fun hr => ⟨hr.1, hr.2.1, (hr.2.2.steps hy).asked hq⟩) fun hr => (hr.steps hy).asked hq
    rw [allHold]
    refine (holds_together hreq hd hone h).bind ?_
    rintro r r' s₁ s₁' ⟨hr, h₁, hagrees, hdisk⟩
    subst hr
    cases r' with
    | false =>
      refine (tell_together h₁.toAlike _).bind ?_
      rintro _ _ s₂ s₂' ⟨h₂, _⟩
      exact .of_eq_some rfl rfl ⟨rfl, h₁.trans h₂, by simp⟩
    | true =>
      have hagrees := hagrees rfl
      have hrests₁ : Rests disk disk' s₁ s₁' x := hrests.imp_left fun hr => by
        obtain ⟨hd₁, hd₁'⟩ := hdisk ((hr.2.2.steps hy).asked hq)
        exact ⟨hd₁.trans hr.1, hd₁'.trans hr.2.1, hr.2.2⟩
      have hpre₁ : ∀ e ∈ pre ++ [d], (m.world disk).Agrees m.book e := by
        simpa [or_imp, forall_and] using And.intro hpre hagrees
      refine (ih (by rwa [List.append_assoc]) hpre₁ hrests₁ h₁.toAlike).mono ?_
      rintro _ _ _ _ ⟨hr, h₂, hrest⟩
      refine ⟨hr, h₁.trans h₂, fun hr => ?_⟩
      exact List.forall_mem_cons.2 ⟨hagrees, hrest hr⟩

/-- A target is found clean in both sessions or in neither, and if it is, it is up to date. -/
theorem clean?_together (ht : m.targets t) (hfind : m.book.find t = .ok rule)
    (htraces : s.traces.get? t = m.traces.get? t) (hnew : s.progress.get? t ≠ none) (h : m.Alike s s') :
    SessionM.Together (clean? m.book req rule t) (clean? m.book req rule t) s s' fun r r' s₁ s₁' =>
      r' = r ∧ m.AlikeAfter s s₁ s₁' ∧ ∀ digest, r = some digest → m.Ready s₁.disk t digest := by
  have hget : SessionM.Together (get : SessionM Session) get s s'
      fun r r' s₁ s₁' => s = r ∧ s' = r' ∧ s = s₁ ∧ s' = s₁' := .of_eq_some rfl rfl ⟨rfl, rfl, rfl, rfl⟩
  refine hget.bind ?_
  rintro _ _ _ _ ⟨rfl, rfl, rfl, rfl⟩
  rw [show s'.traces.get? t = s.traces.get? t from h.traces.get?_eq (hl.traces ht)]
  cases htrace : s.traces.get? t with
  | none => exact .of_eq_some rfl rfl ⟨rfl, h.after, by simp⟩
  | some trace =>
    obtain ⟨c, houtput, w, rule', hfind', hname, -, hsteps⟩ := hl.genuine ht (htraces ▸ htrace)
    obtain rfl := Except.ok.inj (hfind.symm.trans hfind')
    simp only
    rw [if_neg (not_not.2 hname)]
    have hdigestOf : SessionM.Together (digestOf m.book t) (digestOf m.book t) s s'
        fun r r' s₁ s₁' => r = (s.disk.read t).toOption.map m.book.digest ∧ r' = r ∧ s = s₁ ∧ s' = s₁' :=
      .of_eq_some rfl rfl ⟨rfl, by rw [hl.read h.near ht], rfl, rfl⟩
    refine hdigestOf.bind ?_
    rintro found _ _ _ ⟨hfound, rfl, rfl, rfl⟩
    split
    · exact (tell_together h _).bind fun _ _ s₁ s₁' ⟨h₁, _⟩ => .of_eq_some rfl rfl ⟨rfl, h₁, by simp⟩
    · next hout =>
      rw [not_not, hfound, houtput] at hout
      obtain ⟨c', hc', hdigest⟩ := Option.map_eq_some_iff.1 hout
      obtain rfl := hl.injective hdigest
      have hread := Disk.toOption_eq_some_iff.1 hc'
      have hmeets := hl.meets h.near ht hfind
      have hrests : Rests s.disk s'.disk s s' (rule.recipe t).run :=
        (hl.alone_or_asksOnly ht hfind).imp_left fun halone => ⟨rfl, rfl, halone.asksOnly⟩
      have hnone : ∀ d ∈ ([] : List Dependency), (m.world s.disk).Agrees m.book d := by simp
      have hall := allHold_together (t := t) hl hreq (hl.heedsFaults ht hfind) hmeets hsteps hnone hrests h
      refine hall.bind fun r r' s₁ s₁' ⟨hr, h₁, hagrees⟩ => ?_
      subst hr
      cases r' with
      | false => exact .of_eq_some rfl rfl ⟨rfl, h₁, by simp⟩
      | true =>
        refine .of_eq_some rfl rfl ⟨rfl, h₁, fun digest hd => ⟨c', ?_, ?_, ?_⟩⟩
        · exact h₁.files ht hnew hread
        · -- The rule makes the content now, as all that it asks is answered as it was.
          have hagain := hsteps.replay hl.injective (hl.heedsFaults ht hfind) (v := m.world s.disk)
            (fun _ _ _ => trivial) (hagrees rfl)
          exact hmeets.steps hagain c' rfl
        · rw [← houtput]
          exact Option.some.inj hd

/-! ### Making a target -/

/-- A target is made alike, and is up to date then. -/
theorem make_together (ht : m.targets t) (hfind : m.book.find t = .ok rule)
    (hnew : s₀.progress.get? t = none) (hstarted : s.progress.get? t = some .started)
    (h : m.AlikeAfter s₀ s s') :
    SessionM.Together (make m.book req rule t) (make m.book req rule t) s s' fun r r' s₁ s₁' =>
      r' = r ∧ m.AlikeAfter s₀ s₁ s₁' ∧ s₁.progress.get? t = some .started ∧
        ∀ digest, r = .ok digest → m.Ready s₁.disk t digest := by
  have hrests : Rests s.disk s'.disk s s' (rule.recipe t).run :=
    (hl.alone_or_asksOnly ht hfind).imp_left fun halone => ⟨rfl, rfl, halone.asksOnly⟩
  refine (answer_together hl hreq (hl.meets h.near ht hfind) hrests h.toAlike).bind
    fun (r, deps) r' s₁ s₁' ⟨hr, h₁, hmakes⟩ => ?_
  subst hr
  have hstarted₁ := h₁.kept hstarted
  replace h₁ := h.trans h₁
  cases r with
  | error cause => exact .of_eq_some rfl rfl ⟨rfl, h₁, hstarted₁, by simp⟩
  | ok c =>
    have hmakes : m.makes t c := hmakes c rfl
    -- What else is done is not this target, and stays as it is.
    have hwrite : SessionM.Together (writeArtifact t c) (writeArtifact t c) s₁ s₁' fun r r' s₂ s₂' =>
        r' = r ∧ m.AlikeAfter s₀ s₂ s₂' ∧ s₂.progress.get? t = some .started ∧
          ∀ written, r = .ok written → s₂.disk.read t = .ok c := by
      obtain ⟨hresult, hnear⟩ := hl.write (c := c) h₁.near ht
      refine .of_eq_some rfl rfl ⟨hresult, ?_, hstarted₁, fun written hr => ?_⟩
      · refine ⟨⟨hnear, h₁.traces, h₁.progress, h₁.stack, h₁.graph, h₁.stats, h₁.told, h₁.intact, ?_⟩,
          h₁.kept, fun {u d} hu hp hread => ?_⟩
        · intro u digest hu hdone
          obtain ⟨d, hread, hd⟩ := h₁.done hu hdone
          have hne : t ≠ u := by
            rintro rfl
            cases hstarted₁.symm.trans hdone
          exact ⟨d, hl.apart h₁.near ht hu hne hread, hd⟩
        · have hne : t ≠ u := by
            rintro rfl
            exact hp hnew
          exact hl.apart h₁.near ht hu hne (h₁.files hu hp hread)
      · exact Disk.read_of_writeIfChanged (Prod.ext hr rfl)
    refine hwrite.bind fun r r' s₂ s₂' ⟨hr, h₂, hstarted₂, hread⟩ => ?_
    subst hr
    cases r' with
    | error fault => exact .of_eq_some rfl rfl ⟨rfl, h₂, hstarted₂, by simp⟩
    | ok written =>
      refine SessionM.Together.modify.bind fun _ _ s₃ s₃' hs => ?_
      have h₃ : m.AlikeAfter s₀ s₃ s₃' ∧ s₃.progress.get? t = some .started ∧
          s₃.disk.read t = .ok c := by
        rw [hs.1, hs.2]
        refine ⟨⟨⟨h₂.near, h₂.traces.insert ht _, h₂.progress, h₂.stack, h₂.graph, ?_, h₂.told, ?_, h₂.done⟩,
          h₂.kept, h₂.files⟩, hstarted₂, hread written rfl⟩
        · exact congrArg (·.countRebuilt written) h₂.stats
        · intro u hu
          have hother : ¬ t.Same u := fun hsame => by
            cases hstarted₂.symm.trans ((PathTable.get?_congr hsame).trans hu)
          exact (PathTable.get?_insert_of_not_same hother).trans (h₂.intact hu)
      obtain ⟨h₃, hstarted₃, hread₃⟩ := h₃
      cases written with
      | true =>
        refine .of_eq_some rfl rfl ⟨rfl, h₃, hstarted₃, fun digest hd => ⟨c, hread₃, hmakes, ?_⟩⟩
        exact Except.ok.inj hd
      | false =>
        refine (tell_together h₃.toAlike _).bind fun _ _ s₄ s₄' ⟨h₄, hdisk, _⟩ => ?_
        refine .of_eq_some rfl rfl ⟨rfl, h₃.trans h₄, h₄.kept hstarted₃, fun digest hd => ⟨c, ?_, hmakes, ?_⟩⟩
        · exact hdisk ▸ hread₃
        · exact Except.ok.inj hd

/-- A target is brought up to date alike. -/
theorem bringUpToDate_together (ht : m.targets t) (hfind : m.book.find t = .ok rule)
    (hnew : s₀.progress.get? t = none) (hstarted : s.progress.get? t = some .started)
    (htraces : s.traces.get? t = m.traces.get? t) (h : m.AlikeAfter s₀ s s') :
    SessionM.Together (bringUpToDate m.book req rule t) (bringUpToDate m.book req rule t) s s'
      fun r r' s₁ s₁' => r' = r ∧ m.AlikeAfter s₀ s₁ s₁' ∧
        ∀ digest, r = .ok digest → m.Ready s₁.disk t digest := by
  refine (clean?_together hl hreq ht hfind htraces (by simp [hstarted]) h.toAlike).bind
    fun found found' s₁ s₁' ⟨hfound, h₁, hready⟩ => ?_
  subst hfound
  cases found' with
  | some digest =>
    refine SessionM.Together.modify.bind fun _ _ s₂ s₂' hs => ?_
    have h₂ : m.AlikeAfter s₁ s₂ s₂' ∧ s₂.disk = s₁.disk := by
      rw [hs.1, hs.2]
      refine ⟨h₁.aside (fun s => { s with stats := { s.stats with clean := s.stats.clean + 1 } })
        (fun _ => rfl) (fun _ => rfl) (fun _ => rfl) (fun _ => rfl) h₁.graph ?_ h₁.told, rfl⟩
      exact congrArg (fun stats : Stats => { stats with clean := stats.clean + 1 }) h₁.stats
    refine (tell_together h₂.1.toAlike _).bind fun _ _ s₃ s₃' ⟨h₃, hdisk, _⟩ => ?_
    refine .of_eq_some rfl rfl ⟨rfl, h.trans (h₁.trans (h₂.1.trans h₃)), fun digest hd => ?_⟩
    obtain rfl := Except.ok.inj hd
    rw [hdisk, h₂.2]
    exact hready _ rfl
  | none =>
    refine (tell_together h₁.toAlike _).bind fun _ _ s₂ s₂' ⟨h₂, _⟩ => ?_
    have hstarted₂ := h₂.kept (h₁.kept hstarted)
    exact (make_together hl hreq ht hfind hnew hstarted₂ (h.trans (h₁.trans h₂))).mono
      fun _ _ _ _ ⟨hr, h₃, _, hready⟩ => ⟨hr, h₃, hready⟩

omit hreq in
/-- Sessions stay alike when they end to bring a target up to date. -/
theorem AlikeAfter.finish {r : Except Failure String} (hnew : s₀.progress.get? t = none)
    (h : m.AlikeAfter s₀ s s')
    (hready : ∀ digest, r = .ok digest → m.targets t ∧ m.Ready s.disk t digest) :
    m.AlikeAfter s₀ (finish t r s) (finish t r s') where
  near := by simpa using h.near
  traces := by simpa using h.traces
  progress := by rw [progress_finish, progress_finish, h.progress]
  stack := by rw [stack_finish, stack_finish, h.stack]
  graph := by rw [graph_finish, graph_finish, h.graph]
  stats := by cases r <;> simp [Session.finish, h.stats]
  told := by cases r <;> simp [Session.finish, h.told]
  intact {u} hu := by
    have hother : ¬ t.Same u := fun hs => by simp [get?_finish_of_same hs] at hu
    rw [get?_finish_of_not_same hother] at hu
    rw [traces_finish]
    exact h.intact hu
  done {u digest} hu hdone := by
    rw [disk_finish]
    by_cases hs : t.Same u
    · rw [get?_finish_of_same hs] at hdone
      cases r with
      | error cause => cases hdone
      | ok digest' =>
        obtain rfl := Progress.done.inj (Option.some.inj hdone)
        obtain ⟨ht, hready⟩ := hready _ rfl
        exact hl.same ht hu hs ▸ hready
    · rw [get?_finish_of_not_same hs] at hdone
      exact h.done hu hdone
  kept {u p} hu := by
    have hother : ¬ t.Same u := fun hs => by
      cases hnew.symm.trans ((PathTable.get?_congr hs).trans hu)
    rw [get?_finish_of_not_same hother]
    exact h.kept hu
  files hu hp hread := by
    rw [disk_finish]
    exact h.files hu hp hread

/-- A target that was not required before is brought up to date alike. -/
theorem visit_together (ht : m.Requestable t) (hnew : s.progress.get? t = none) (h : m.Alike s s') :
    SessionM.Together (visit m.book req t) (visit m.book req t) s s' fun r r' s₁ s₁' =>
      r' = r ∧ m.AlikeAfter s s₁ s₁' ∧
        ∀ digest, r = .ok digest → s₁.progress.get? t = some (.done digest) := by
  refine SessionM.Together.modify.bind fun _ _ s₁ s₁' hs => ?_
  have h₁ : m.AlikeAfter s s₁ s₁' := by
    rw [hs.1, hs.2]
    exact {
      near := h.near
      traces := h.traces
      progress := congrArg (·.insert t .started) h.progress
      stack := congrArg (t :: ·) h.stack
      graph := congrArg (·.addTask t) h.graph
      stats := h.stats
      told := h.told
      intact := fun hu => h.intact (get?_eq_none_of_start hu)
      done := fun hu hdone => h.done hu (done_of_start hdone)
      kept := fun {u p} hu => by
        have hother : ¬ t.Same u := fun hsame => by
          cases hnew.symm.trans ((PathTable.get?_congr hsame).trans hu)
        exact (get?_start_of_not_same hother).trans hu
      files := fun _ _ hread => hread }
  have hstarted : s₁.progress.get? t = some .started := by
    rw [hs.1]
    exact get?_start_of_same rfl
  have hfinish : ∀ r r' s₂ s₂', r' = r ∧ m.AlikeAfter s s₂ s₂' ∧
        (∀ digest, r = .ok digest → m.targets t ∧ m.Ready s₂.disk t digest) →
      SessionM.Together
        (do
          modify (finish t r)
          return r : SessionM (Except Failure String))
        (do
          modify (finish t r')
          return r' : SessionM (Except Failure String)) s₂ s₂'
        fun r r' s₃ s₃' => r' = r ∧ m.AlikeAfter s s₃ s₃' ∧
          ∀ digest, r = .ok digest → s₃.progress.get? t = some (.done digest) := by
    rintro r _ s₂ s₂' ⟨rfl, h₂, hready⟩
    refine SessionM.Together.modify.bind fun _ _ s₃ s₃' hs => ?_
    obtain ⟨rfl, rfl⟩ := hs
    refine .of_eq_some rfl rfl ⟨rfl, ?_, fun digest hr => ?_⟩
    · exact h₂.finish hl hnew hready
    · rw [get?_finish_of_same rfl, hr]
      rfl
  cases hfind : m.book.find t with
  | error cause =>
    exact SessionM.Together.bind (.of_eq_some rfl rfl ⟨rfl, h₁, by simp⟩) hfinish
  | ok rule =>
    have hintact : s₁.traces.get? t = m.traces.get? t := by
      rw [hs.1]
      exact h.intact hnew
    refine SessionM.Together.bind ((bringUpToDate_together hl hreq (ht rule hfind) hfind hnew hstarted
      hintact h₁).mono fun _ _ _ _ ⟨hr, h₂, hready⟩ => ?_) hfinish
    exact ⟨hr, h₂, fun digest hd => ⟨ht rule hfind, hready digest hd⟩⟩

end

/-! ### Requiring targets -/

variable (hl : m.Lawful)

include hl

/-- Requests end alike, to whatever depth they are followed. -/
theorem require_together (n : Nat) : m.Serves (require m.book n) := by
  induction n with
  | zero => exact fun _ _ => trivial
  | succ n ih =>
    intro s s' t h ht
    have hget : SessionM.Together (get : SessionM Session) get s s'
        fun r r' s₁ s₁' => s = r ∧ s' = r' ∧ s = s₁ ∧ s' = s₁' := .of_eq_some rfl rfl ⟨rfl, rfl, rfl, rfl⟩
    refine hget.bind ?_
    rintro _ _ _ _ ⟨rfl, rfl, rfl, rfl⟩
    rw [h.progress, h.stack]
    cases hp : s.progress.get? t with
    | none => exact visit_together hl ih ht hp h
    | some p =>
      cases p with
      | done digest =>
        exact .of_eq_some rfl rfl ⟨rfl, h.after, fun digest' hr => by rw [hp, Except.ok.inj hr]⟩
      | failed => exact .of_eq_some rfl rfl ⟨rfl, h.after, by simp⟩
      | started => exact .of_eq_some rfl rfl ⟨rfl, h.after, by simp⟩

/-- Targets are required alike, one after another. -/
theorem requireAll_together {n : Nat} {ts : List Path} (hts : ∀ t ∈ ts, m.Requestable t)
    (h : m.Alike s s') : SessionM.Together (requireAll m.book n ts) (requireAll m.book n ts) s s'
      fun r r' s₁ s₁' => r' = r ∧ m.Alike s₁ s₁' := by
  induction ts generalizing s s' with
  | nil => exact .of_eq_some rfl rfl ⟨rfl, h⟩
  | cons t ts ih =>
    obtain ⟨ht, hts⟩ := List.forall_mem_cons.1 hts
    refine SessionM.Together.modify.bind fun _ _ s₁ s₁' hs => ?_
    have h₁ : m.Alike s₁ s₁' := by
      rw [hs.1, hs.2]
      refine (h.aside (fun s => { s with stats := { s.stats with requested := s.stats.requested + 1 } })
        (fun _ => rfl) (fun _ => rfl) (fun _ => rfl) (fun _ => rfl) h.graph ?_ h.told).toAlike
      exact congrArg (fun stats : Stats => { stats with requested := stats.requested + 1 }) h.stats
    refine (require_together hl n h₁ ht).bind fun r r' s₂ s₂' ⟨hr, h₂, _⟩ => ?_
    subst hr
    cases r' with
    | ok digest => exact ih hts h₂.toAlike
    | error cause =>
      refine (tell_together h₂.toAlike _).bind fun _ _ s₃ s₃' ⟨h₃, _⟩ => ?_
      refine (ih hts h₃.toAlike).bind fun failed failed' s₄ s₄' ⟨hr, h₄⟩ => ?_
      exact .of_eq_some rfl rfl ⟨by rw [hr], h₄⟩

omit hl in
/-- Sessions start alike on disks that are near. -/
theorem alike_start (h : m.near disk disk') :
    m.Alike { disk, traces := m.traces } { disk := disk', traces := m.traces' } where
  near := h
  traces := .start
  progress := rfl
  stack := rfl
  graph := rfl
  stats := rfl
  told := rfl
  intact _ := rfl
  done _ hdone := by simp at hdone

end Mirror

end ImportIndex
