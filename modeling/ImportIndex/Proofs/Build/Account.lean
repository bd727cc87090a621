import ImportIndex.Proofs.Build.Repeat
import ImportIndex.Proofs.Build.Moves
import ImportIndex.Proofs.FileTree.Filled

/-!
# The account of a build

Every target that ends in a session is counted once. A *ledger* lists the targets that have ended, in
this order, each with its outcome; at any time, what was counted is what the ledger adds up to
(`Session.Account`). A request for a target that was required before enters nothing, and one that is not
answered yet is entered when it ends, below all that it needed, so that an account can be stated of a
session in the midst of nested requests and is kept by each of them (`Session.account_of_require`).

A target is entered as written exactly if another content can be read there now than before, as long as
different targets lead to different files and no target is let through to a file that was there
(`Engine.written_iff`). The trace file is written after the session, so it must be no target; if it is,
its content may change although it was entered as unchanged (`Engine.exists_written_miscounted`).
-/

namespace ImportIndex

/-- How a target ended. -/
inductive Outcome where
  /-- It was made anew, and its artifact was written. -/
  | written
  /-- It was made anew, and its artifact came out as before. -/
  | unchanged
  /-- Its trace still held. -/
  | clean
  /-- It failed. -/
  | failed
deriving DecidableEq, Repr

/-- Counts a target that ended so. -/
def Stats.enter (stats : Stats) : Outcome → Stats
  | .written => stats.countRebuilt true
  | .unchanged => stats.countRebuilt false
  | .clean => { stats with clean := stats.clean + 1 }
  | .failed => { stats with failed := stats.failed + 1 }

/-- Targets that have ended, in this order, each with its outcome. -/
abbrev Ledger := List (Path × Outcome)

namespace Ledger

/-- The targets. -/
def targets (ledger : Ledger) : List Path := ledger.map Prod.fst

/-- How many targets ended so. -/
def number (ledger : Ledger) (o : Outcome) : Nat := ledger.countP fun e => e.2 = o

/-- The counts, when the targets are added to those counted before. -/
def addTo (ledger : Ledger) (stats : Stats) : Stats := ledger.foldl (fun stats e => stats.enter e.2) stats

variable {ledger : Ledger} {stats : Stats} {t : Path} {o : Outcome}

theorem addTo_concat : Ledger.addTo (ledger ++ [(t, o)]) stats = (ledger.addTo stats).enter o := by
  rw [addTo, List.foldl_append]
  rfl

/-- What a ledger adds to each of the counts. -/
theorem addTo_eq : ledger.addTo stats = { stats with
    rebuilt := stats.rebuilt + (ledger.number .written + ledger.number .unchanged)
    clean := stats.clean + ledger.number .clean
    written := stats.written + ledger.number .written
    unchanged := stats.unchanged + ledger.number .unchanged
    failed := stats.failed + ledger.number .failed } := by
  induction ledger generalizing stats with
  | nil => rfl
  | cons e ledger ih =>
    obtain ⟨t, o⟩ := e
    rw [addTo, List.foldl_cons, ← addTo, ih]
    cases o <;> simp [Stats.enter, Stats.countRebuilt, number] <;> omega

/-- Every target has one of the outcomes. -/
theorem length_targets : ledger.targets.length = ledger.number .written + ledger.number .unchanged +
    ledger.number .clean + ledger.number .failed := by
  induction ledger with
  | nil => rfl
  | cons e ledger ih =>
    obtain ⟨t, o⟩ := e
    rw [targets, List.map_cons, List.length_cons, ← targets, ih]
    cases o <;> simp [number] <;> omega

/-- If every target is listed once, those that ended so are as many as the targets that are entered
    so. -/
theorem number_eq (h : ledger.targets.Nodup) :
    ledger.number o = ledger.targets.countP fun t => (t, o) ∈ ledger := by
  rw [number, targets, List.countP_map]
  refine List.countP_congr fun e he => ?_
  simp only [Function.comp_apply, decide_eq_true_eq]
  refine ⟨fun ho => ho ▸ he, fun hmem => ?_⟩
  exact congrArg Prod.snd (List.inj_on_of_nodup_map h he hmem rfl)

end Ledger

namespace Session

variable {book : Rulebook} {s₀ s s' s₁ s₂ : Session} {t u : Path} {r : Except Failure String}
  {ledger : Ledger} {o : Outcome} {rest : List Path} {digest : String}

/-- Whether a target was made anew in a session, with an artifact that was written or came out as
    before. -/
def Rebuilt (book : Rulebook) (s : Session) (t : Path) (written : Bool) : Prop :=
  ∃ rule n c deps s₁ s₂, book.find t = .ok rule ∧
    answer book (require book n) t (rule.recipe t).run [] s₁ = some ((.ok c, deps), s₂) ∧
    (Disk.writeIfChanged t c s₂.disk).1 = .ok written ∧
    s.traces.get? t = some { rule := rule.name, output := book.digest c, deps } ∧
    s.progress.get? t = some (.done (book.digest c))

/-- Whether a target ended so in a session that was begun as `s₀`. -/
def EndedAs (book : Rulebook) (s₀ s : Session) (t : Path) : Outcome → Prop
  | .written => Rebuilt book s t true
  | .unchanged => Rebuilt book s t false
  | .clean => ∃ rule trace, book.find t = .ok rule ∧ trace.rule = rule.name ∧
      s₀.traces.get? t = some trace ∧ s.traces.get? t = some trace ∧
      s.progress.get? t = some (.done trace.output)
  | .failed => s.progress.get? t = some .failed

theorem EndedAs.mono (h : EndedAs book s₀ s t o) (hprogress : s'.progress.get? t = s.progress.get? t)
    (htraces : s'.traces.get? t = s.traces.get? t) : EndedAs book s₀ s' t o := by
  cases o <;> simpa only [EndedAs, Rebuilt, hprogress, htraces] using h

/-- What has ended is not under way. -/
theorem EndedAs.ne_started (h : EndedAs book s₀ s t o) : s.progress.get? t ≠ some .started ∧
    s.progress.get? t ≠ none := by
  cases o with
  | written | unchanged =>
    obtain ⟨_, _, _, _, _, _, _, _, _, _, hdone⟩ := h
    simp [hdone]
  | clean =>
    obtain ⟨_, _, _, _, _, _, hdone⟩ := h
    simp [hdone]
  | failed => simp [show s.progress.get? t = _ from h]

/-- Whether a ledger accounts for all that has ended since a session was begun as `s₀`. -/
structure Account (book : Rulebook) (s₀ : Session) (ledger : Ledger) (s : Session) : Prop where
  /-- These targets have ended, in this order. -/
  moves : Moves s₀ ledger.targets s
  /-- What was counted is what they add up to. -/
  stats : s.stats = ledger.addTo s₀.stats
  /-- They ended as they are entered. -/
  ended : ∀ {t o}, (t, o) ∈ ledger → EndedAs book s₀ s t o
  /-- The traces of all others are as before. -/
  traces : ∀ {u}, (∀ t ∈ ledger.targets, ¬ t.Same u) → s.traces.get? u = s₀.traces.get? u
  /-- The files that are not as before are those of targets that were written. -/
  filled : s₀.disk.Filled (fun t => (t, .written) ∈ ledger) s.disk
  /-- What was written holds a content that it did not hold before, unless another target leads to the
      same file. -/
  put : ∀ {t}, (t, .written) ∈ ledger → ∃ c, s.disk.Holds (fun t => (t, .written) ∈ ledger) t c ∧
    (s₀.disk.read t ≠ .ok c ∨ s.disk.Clashes (fun t => (t, .written) ∈ ledger) t)

namespace Account

theorem refl : Account book s [] s where
  moves := .refl
  stats := rfl
  ended h := by cases h
  traces _ := rfl
  filled := .refl
  put h := by cases h

/-- A target that is entered is not under way. -/
theorem not_same (h : Account book s₀ ledger s)
    (ht : s.progress.get? t = some .started ∨ s.progress.get? t = none) :
    ∀ u ∈ ledger.targets, ¬ u.Same t := by
  intro u hu hs
  obtain ⟨⟨_, o⟩, he, rfl⟩ := List.mem_map.1 hu
  have hne := (h.ended he).ne_started
  rw [PathTable.get?_congr hs] at hne
  exact ht.elim hne.1 hne.2

/-- What does not end a target keeps an account. -/
theorem next {s' : Session} (h : Account book s₀ ledger s) (hmove : Move s none s')
    (hstats : s'.stats = s.stats) (htraces : s'.traces = s.traces) (hdisk : s'.disk = s.disk)
    (hprogress : ∀ u ∈ ledger.targets, s'.progress.get? u = s.progress.get? u) :
    Account book s₀ ledger s' where
  moves := by simpa using h.moves.tail hmove
  stats := hstats.trans h.stats
  ended he := (h.ended he).mono (hprogress _ (List.mem_map_of_mem (f := Prod.fst) he)) (by rw [htraces])
  traces hu := htraces ▸ h.traces hu
  filled := hdisk ▸ h.filled
  put ht := hdisk ▸ h.put ht

theorem tell (h : Account book s₀ ledger s) (e : Event) :
    Account book s₀ ledger { s with told := e :: s.told } :=
  h.next (.work ⟨rfl, rfl, rfl⟩) rfl rfl rfl fun _ _ => rfl

theorem start (h : Account book s₀ ledger s) (hnew : s.progress.get? t = none) :
    Account book s₀ ledger (Session.start t s) :=
  h.next (.start hnew) rfl rfl rfl fun u hu =>
    get?_start_of_not_same fun hs => h.not_same (.inr hnew) u hu hs.symm

theorem need (h : Account book s₀ ledger s) (top : s.stack = t :: rest)
    (hdone : s.progress.get? u = some (.done digest)) :
    Account book s₀ ledger { s with graph := s.graph.addDependency t u } :=
  h.next (.need top hdone) rfl rfl rfl fun _ _ => rfl

/-- A request from outside is counted. -/
theorem request (h : Account book s₀ ledger s) :
    Account book { s₀ with stats := { s₀.stats with requested := s₀.stats.requested + 1 } } ledger
      { s with stats := { s.stats with requested := s.stats.requested + 1 } } where
  moves := by
    have hfirst : Move { s₀ with stats := { s₀.stats with requested := s₀.stats.requested + 1 } } none s₀ :=
      .work ⟨rfl, rfl, rfl⟩
    have hlast : Move s none { s with stats := { s.stats with requested := s.stats.requested + 1 } } :=
      .work ⟨rfl, rfl, rfl⟩
    simpa using ((Moves.refl.tail hfirst).trans h.moves).tail hlast
  stats := by
    rw [h.stats, Ledger.addTo_eq, Ledger.addTo_eq]
  ended he := by
    have hended := h.ended he
    cases ‹Outcome› <;> exact hended
  traces hu := h.traces hu
  filled := h.filled
  put ht := h.put ht

end Account

/-- Whether the innermost target ends with this result and outcome: `s₁` is the session before anything
    was counted and written for it, and `s₂` the one after that. -/
structure Closes (book : Rulebook) (s₀ s₁ s₂ : Session) (t : Path) (r : Except Failure String)
    (o : Outcome) : Prop where
  /-- It is the innermost one. -/
  top : ∃ rest, s₁.stack = t :: rest
  /-- It is being brought up to date. -/
  started : s₁.progress.get? t = some .started
  /-- Nothing else ends meanwhile. -/
  works : Works s₁ s₂
  /-- It is counted. -/
  stats : (finish t r s₂).stats = s₁.stats.enter o
  /-- No other trace is stored. -/
  traces : ∀ {u}, ¬ t.Same u → s₂.traces.get? u = s₁.traces.get? u
  /-- Nothing is written but the target, if it is. -/
  disk : s₂.disk = s₁.disk ∧ o ≠ .written ∨ ∃ c result,
    Disk.writeIfChanged t c s₁.disk = (result, s₂.disk) ∧ (result = .ok true ↔ o = .written)
  /-- It ends so. -/
  ended : EndedAs book s₀ (finish t r s₂) t o

/-- A target that ends is entered. -/
theorem Closes.account (h : Closes book s₀ s₁ s₂ t r o) (ha : Account book s₀ ledger s₁) :
    Account book s₀ (ledger ++ [(t, o)]) (finish t r s₂) := by
  have hnew := ha.not_same (.inl h.started)
  have hmem : ∀ {u}, (u, Outcome.written) ∈ ledger ++ [(t, o)] ↔
      (u, .written) ∈ ledger ∨ u = t ∧ o = .written := by
    intro u
    rw [List.mem_append, List.mem_singleton, Prod.mk.injEq, eq_comm (a := Outcome.written)]
  have hwrote : ∀ u, (u, Outcome.written) ∈ ledger → (u, .written) ∈ ledger ++ [(t, o)] :=
    fun u hu => List.mem_append_left _ hu
  have hne : ∀ u, (u, Outcome.written) ∈ ledger → ¬ u.Same t :=
    fun u hu => hnew u (List.mem_map_of_mem (f := Prod.fst) hu)
  constructor
  case moves =>
    obtain ⟨rest, htop⟩ := h.top
    have hmoves := (ha.moves.tail (.work h.works)).tail (.finish (h.works.stack.trans htop) r)
    simpa [Ledger.targets] using hmoves
  case stats => rw [Ledger.addTo_concat, ← ha.stats, h.stats]
  case ended =>
    intro u o' hu
    rcases List.mem_append.1 hu with hu | hu
    · have hother : ¬ t.Same u := fun hs => hnew u (List.mem_map_of_mem (f := Prod.fst) hu) hs.symm
      refine (ha.ended hu).mono ?_ ?_
      · rw [get?_finish_of_not_same hother, h.works.progress]
      · rw [traces_finish, h.traces hother]
    · obtain ⟨rfl, rfl⟩ := Prod.mk.inj (List.mem_singleton.1 hu)
      exact h.ended
  case traces =>
    intro u hu
    have hboth : (∀ v ∈ ledger.targets, ¬ v.Same u) ∧ ¬ t.Same u := by
      simpa [Ledger.targets, or_imp, forall_and] using hu
    rw [traces_finish, h.traces hboth.2, ha.traces hboth.1]
  case filled =>
    rw [disk_finish]
    rcases h.disk with ⟨hdisk, -⟩ | ⟨c, result, hwrite, hresult⟩
    · exact hdisk ▸ ha.filled.mono hwrote
    · refine (ha.filled.mono hwrote).trans (Disk.filled_writeIfChanged hwrite fun hr => ?_)
      exact hmem.2 (.inr ⟨rfl, hresult.1 hr⟩)
  case put =>
    intro u hu
    rw [disk_finish]
    rcases h.disk with ⟨hdisk, ho⟩ | ⟨c, result, hwrite, hresult⟩
    · obtain ⟨d, hd, hread⟩ := ha.put ((hmem.1 hu).resolve_right fun h => ho h.2)
      have hgrows : Disk.Grows (fun _ => True) (fun _ _ => True) s₁.disk s₂.disk := hdisk ▸ .refl
      exact ⟨d, hdisk ▸ hd.mono hwrote, hread.imp_right fun hc => hc.grows hwrote hgrows⟩
    · have hgrows : Disk.Grows (fun _ => True) (fun _ _ => True) s₁.disk s₂.disk := by
        have hw : s₁.disk.Filled (fun _ => True) s₂.disk :=
          Disk.filled_writeIfChanged hwrite fun _ => trivial
        exact Disk.Grows.mono hw (fun _ => id) fun _ _ _ => trivial
      rcases hmem.1 hu with hu | ⟨rfl, ho⟩
      · obtain ⟨d, hd, hread⟩ := ha.put hu
        refine ⟨d, (hd.mono hwrote).write hwrite fun hr => ⟨hmem.2 (.inr ⟨rfl, hresult.1 hr⟩), ?_⟩,
          hread.imp_right fun hc => hc.grows hwrote hgrows⟩
        exact fun hs => hne u hu hs.symm
      · -- What is written now could not be read before.
        obtain rfl := hresult.2 ho
        obtain ⟨_, hr, -⟩ | ⟨written, l, hr, -, -, -, hnot⟩ := Disk.writeIfChanged_ends hwrite
        · cases hr
        · refine ⟨c, .inl (Disk.read_of_writeIfChanged hwrite), ?_⟩
          exact (ha.filled.read_ne (hnot (Except.ok.inj hr).symm) hne).imp_right
            fun hc => hc.grows hwrote hgrows

/-! ### Requests -/

section

variable {req : Require} {rule : Rule}

/-- While a target is brought up to date, requests below it enter what they end. -/
structure Books (book : Rulebook) (s₀ : Session) (req : Require) (t : Path) (rest : List Path) : Prop where
  /-- Checking its trace and running its rule keep an account. -/
  minds : Minds req t fun s => s.stack = t :: rest ∧ s.progress.get? t = some .started ∧
    ∃ ledger, Account book s₀ ledger s
  /-- Requests are followed to some depth. -/
  depth : ∃ n, req = require book n

/-- What is left when a target was brought up to date: to enter how it ended. -/
def Entering (book : Rulebook) (s₀ : Session) (t : Path) (r : Except Failure String) (s : Session) : Prop :=
  ∃ ledger s₁ o, Account book s₀ ledger s₁ ∧ Closes book s₀ s₁ s t r o

namespace Books

variable (k : Books book s₀ req t rest) (hfind : book.find t = .ok rule)

include k hfind

theorem make (hs : s.stack = t :: rest ∧ s.progress.get? t = some .started ∧
    ∃ ledger, Account book s₀ ledger s) :
    (make book req rule t).Ends s False (Entering book s₀ t) := by
  obtain ⟨n, rfl⟩ := k.depth
  have hrun : (answer book (require book n) t (rule.recipe t).run []).Ends s False fun a s₁ =>
      answer book (require book n) t (rule.recipe t).run [] s = some (a, s₁) :=
    ⟨fun _ _ h => h, False.elim⟩
  refine ((k.minds.answer hs).and hrun).bind fun a s₁ h => ?_
  obtain ⟨⟨hstack, hstarted, ledger, ha⟩, hrun⟩ := h
  obtain ⟨result, deps⟩ := a
  cases result with
  | error cause =>
    exact .pure ⟨ledger, s₁, .failed, ha, ⟨⟨rest, hstack⟩, hstarted, ⟨rfl, rfl, rfl⟩, rfl, fun _ => rfl,
      .inl ⟨rfl, by simp⟩, get?_finish_of_same rfl⟩⟩
  | ok c =>
    have hwrite : (writeArtifact t c).Ends s₁ False fun result s₂ =>
        Disk.writeIfChanged t c s₁.disk = (result, s₂.disk) ∧ s₂ = { s₁ with disk := s₂.disk } :=
      .of_eq_some rfl ⟨rfl, rfl⟩
    refine hwrite.bind fun result s₂ h => ?_
    obtain ⟨hwrite, hs₂⟩ := h
    have hworks : Works s₁ s₂ := hs₂ ▸ ⟨rfl, rfl, rfl⟩
    cases result with
    | error fault =>
      refine .pure ⟨ledger, s₁, .failed, ha, ⟨⟨rest, hstack⟩, hstarted, hworks, ?_, fun _ => ?_,
        .inr ⟨c, _, hwrite, by simp⟩, get?_finish_of_same rfl⟩⟩
      · rw [hs₂]
        rfl
      · rw [hs₂]
    | ok written =>
      -- It is told, or not, that the artifact came out as before.
      have hclose : ∀ {s₃ : Session}, Works s₁ s₃ → s₃.stats = s₁.stats.countRebuilt written →
          s₃.traces = s₁.traces.insert t { rule := rule.name, output := book.digest c, deps } →
          s₃.disk = s₂.disk → Entering book s₀ t (.ok (book.digest c)) s₃ := by
        intro s₃ hworks hstats htraces hdisk
        have hrebuilt : Rebuilt book (finish t (.ok (book.digest c)) s₃) t written := by
          refine ⟨rule, n, c, deps, s, s₁, hfind, hrun, congrArg Prod.fst hwrite, ?_,
            get?_finish_of_same rfl⟩
          rw [traces_finish, htraces]
          exact PathTable.get?_insert_of_same rfl
        have htraces' : ∀ {u}, ¬ t.Same u → s₃.traces.get? u = s₁.traces.get? u := fun hu => by
          rw [htraces]
          exact PathTable.get?_insert_of_not_same hu
        refine ⟨ledger, s₁, if written then .written else .unchanged, ha, ⟨⟨rest, hstack⟩, hstarted,
          hworks, ?_, htraces', .inr ⟨c, _, hdisk ▸ hwrite, ?_⟩, ?_⟩⟩ <;> cases written
        · exact hstats
        · exact hstats
        · simp
        · simp
        · exact hrebuilt
        · exact hrebuilt
      refine SessionM.Ends.bind .of_modify fun _ s₃ hs₃ => ?_
      subst hs₃
      have hworks₃ : Works s₁ { s₂ with
          stats := s₂.stats.countRebuilt written
          traces := s₂.traces.insert t { rule := rule.name, output := book.digest c, deps } } :=
        ⟨hworks.progress, hworks.stack, hworks.graph⟩
      have hstats : s₂.stats = s₁.stats := by rw [hs₂]
      have htraces : s₂.traces = s₁.traces := by rw [hs₂]
      cases written with
      | true => exact .pure (hclose hworks₃ (by rw [hstats]) (by rw [htraces]) rfl)
      | false =>
        refine SessionM.Ends.bind .of_modify fun _ s₄ hs₄ => .pure ?_
        subst hs₄
        exact hclose ⟨hworks.progress, hworks.stack, hworks.graph⟩ (by rw [hstats]) (by rw [htraces]) rfl

theorem bringUpToDate (hs : s.stack = t :: rest ∧ s.progress.get? t = some .started ∧
    ∃ ledger, Account book s₀ ledger s) :
    (bringUpToDate book req rule t).Ends s False (Entering book s₀ t) := by
  have hcourse := @clean?_course book req (fun _ _ _ _ => True) s t fun _ _ =>
    ⟨fun _ _ _ => trivial, False.elim⟩
  refine ((k.minds.clean? hs).and hcourse).bind fun found s₁ h => ?_
  obtain ⟨hs₁, hfound⟩ := h
  cases found with
  | none => exact SessionM.Ends.bind .of_modify fun _ s₂ h => k.make hfind (h ▸ k.minds.tell _ hs₁)
  | some digest =>
    obtain ⟨trace, hkept, hname, -, -, rfl⟩ := hfound
    obtain ⟨-, hstarted, before, hbefore⟩ := hs
    obtain ⟨hstack, hstarted₁, ledger, ha⟩ := hs₁
    -- The trace was looked at before what it needs was required, and is there still.
    have hfirst : s₀.traces.get? t = some trace :=
      (hbefore.traces (hbefore.not_same (.inl hstarted))).symm.trans hkept
    have hnow : s₁.traces.get? t = some trace := (ha.traces (ha.not_same (.inl hstarted₁))).trans hfirst
    refine SessionM.Ends.bind .of_modify fun _ s₂ h => ?_
    subst h
    refine SessionM.Ends.bind .of_modify fun _ s₃ h => .pure ?_
    subst h
    exact ⟨ledger, s₁, .clean, ha, ⟨⟨rest, hstack⟩, hstarted₁, ⟨rfl, rfl, rfl⟩, rfl, fun _ => rfl,
      .inl ⟨rfl, by simp⟩, rule, trace, hfind, hname, hfirst, hnow, get?_finish_of_same rfl⟩⟩

end Books

end

/-- What has ended is accounted for after every request, if it was before, however deep requests are
    nested and whatever the rules do. -/
theorem account_of_require (n : Nat) (s : Session) (t : Path) (h : ∃ ledger, Account book s₀ ledger s) :
    (require book n t).Ends s False fun _ s' => ∃ ledger, Account book s₀ ledger s' := by
  induction n generalizing s t with
  | zero => exact ⟨fun _ _ h => (by cases h), False.elim⟩
  | succ n ih =>
    refine SessionM.Ends.bind .of_get fun _ _ h => ?_
    obtain ⟨rfl, rfl⟩ := h
    cases hp : s.progress.get? t with
    | some p => cases p <;> exact .pure h
    | none =>
      have hbooks : Books book s₀ (require book n) t s.stack := by
        refine ⟨⟨?_, ?_, ?_⟩, n, rfl⟩
        · rintro s₁ e ⟨hstack, hstarted, ledger, ha⟩
          exact ⟨hstack, hstarted, ledger, ha.tell e⟩
        · rintro s₁ u ⟨hstack, hstarted, ha⟩
          refine ((ended_of_require n s₁ u).and (ih s₁ u ha)).mono fun r s₂ hr => ?_
          obtain ⟨⟨honward, hr⟩, ha'⟩ := hr
          refine ⟨⟨honward.stack.trans hstack, honward.progress hstarted, ha'⟩, ?_⟩
          rintro digest rfl
          exact hr
        · rintro s₁ u digest ⟨hstack, hstarted, ledger, ha⟩ hdone
          exact ⟨hstack, hstarted, ledger, ha.need hstack hdone⟩
      obtain ⟨ledger, ha⟩ := h
      refine SessionM.Ends.bind .of_modify fun _ s₁ hs₁ => ?_
      subst hs₁
      have hfinish : ∀ r s₂, Entering book s₀ t r s₂ →
          (do
            modify (finish t r)
            return r : SessionM (Except Failure String)).Ends s₂ False
              fun _ s' => ∃ ledger, Account book s₀ ledger s' := by
        rintro r s₂ ⟨ledger, s₁, o, ha, hcloses⟩
        exact SessionM.Ends.bind .of_modify fun _ s₃ hs₃ =>
          .pure (hs₃ ▸ ⟨_, hcloses.account ha⟩)
      have hstarted : (start t s).progress.get? t = some .started := get?_start_of_same rfl
      cases hfind : book.find t with
      | error cause =>
        refine SessionM.Ends.bind (.pure (s := start t s) ?_) hfinish
        exact ⟨ledger, start t s, .failed, ha.start hp, ⟨⟨_, rfl⟩, hstarted, ⟨rfl, rfl, rfl⟩, rfl,
          fun _ => rfl, .inl ⟨rfl, by simp⟩, get?_finish_of_same rfl⟩⟩
      | ok rule =>
        exact (hbooks.bringUpToDate hfind ⟨rfl, hstarted, ledger, ha.start hp⟩).bind hfinish

/-- Every request from outside is counted, and what has ended is accounted for after several of them. -/
theorem account_of_requireAll {n : Nat} {targets : List Path}
    (h : ∃ ledger, Account book s₀ ledger s) :
    (requireAll book n targets).Ends s False fun _ s' => ∃ ledger, Account book
      { s₀ with stats := { s₀.stats with requested := s₀.stats.requested + targets.length } } ledger s' := by
  induction targets generalizing s₀ s with
  | nil => exact .pure h
  | cons t targets ih =>
    obtain ⟨ledger, ha⟩ := h
    refine SessionM.Ends.bind .of_modify fun _ s₁ hs₁ => ?_
    have ha₁ : ∃ ledger, Account book
        { s₀ with stats := { s₀.stats with requested := s₀.stats.requested + 1 } } ledger s₁ :=
      ⟨ledger, hs₁ ▸ ha.request⟩
    rw [List.length_cons, Nat.add_comm targets.length, ← Nat.add_assoc]
    refine (account_of_require n s₁ t ha₁).bind fun r s₂ ha₂ => ?_
    cases r with
    | ok digest => exact ih ha₂
    | error cause =>
      refine SessionM.Ends.bind .of_modify fun _ s₃ hs₃ => ?_
      obtain ⟨more, ha₃⟩ := ha₂
      exact (ih ⟨more, hs₃ ▸ ha₃.tell _⟩).bind fun _ _ h => .pure h

end Session

namespace Engine

variable {engine : Engine} {depth : Nat} {targets : List Path} {disk : Disk} {built : Built}

/-- Storing the traces writes nothing but the trace file. -/
theorem filled_save {saved : Except Failure Unit} {disk' : Disk}
    (h : engine.save disk = (saved, disk')) : disk.Filled (fun p => engine.store = some p) disk' := by
  rw [save] at h
  split at h
  · exact (Prod.mk.inj h).2 ▸ .refl
  · next path hstore =>
    rw [TraceTable.save] at h
    split at h
    · exact (Prod.mk.inj h).2 ▸ .refl
    · split at h <;> next hwrite =>
        exact (Prod.mk.inj h).2 ▸ Disk.filled_writeIfChanged hwrite fun _ => hstore

end Engine

/-- Whether the targets of a build lead to different files, and the trace file is none of them. -/
structure Built.Apart (built : Built) : Prop where
  /-- No two targets lead to the same file. -/
  tasks : ∀ t ∈ built.report.graph.tasks, ∀ u ∈ built.report.graph.tasks, ∀ l,
    built.disk.goal t = .ok l → built.disk.goal u = .ok l → t = u
  /-- No target leads to the trace file. -/
  store : ∀ p, built.engine.store = some p → ∀ t ∈ built.report.graph.tasks, ∀ l,
    built.disk.goal t = .ok l → built.disk.goal p ≠ .ok l

namespace Engine

variable {engine : Engine} {depth : Nat} {targets : List Path} {disk : Disk} {built : Built}

section

variable {s : Session} {ledger : Ledger} {s₀ : Session} {t : Path}
  (account : Session.Account engine.book s₀ ledger s)
  (tasks : ledger.targets.Perm built.report.graph.tasks)
  (saved : s.disk.Filled (fun p => built.engine.store = some p) built.disk) (apart : built.Apart)

include account tasks saved apart

/-- What is entered as written is what holds another content than before. -/
theorem written_iff (ht : t ∈ built.report.graph.tasks) (hsees : s₀.disk.Foresees built.disk t) :
    (t, .written) ∈ ledger ↔ (built.disk.read t).toOption ≠ (s₀.disk.read t).toOption := by
  have htask : ∀ {u}, (u, Outcome.written) ∈ ledger → u ∈ built.report.graph.tasks :=
    fun hu => tasks.mem_iff.1 (List.mem_map_of_mem (f := Prod.fst) hu)
  have hsaved : Disk.Grows (fun _ => True) (fun _ _ => True) s.disk built.disk :=
    Disk.Grows.mono saved (fun _ => id) fun _ _ _ => trivial
  constructor
  · intro hwritten
    -- No other target leads there, neither at the end of the session nor after it.
    have hclash : ¬ s.disk.Clashes (fun t => (t, .written) ∈ ledger) t := by
      rintro ⟨u, l, hu, hne, hgt, hgu⟩
      exact hne (apart.tasks u (htask hu) t ht l (hsaved.goal hgu) (hsaved.goal hgt) ▸ rfl)
    obtain ⟨c, hread, hfirst⟩ := account.put hwritten
    obtain ⟨l, hgoal, hs⟩ := Disk.read_eq_ok_iff.1 (hread.resolve_right hclash)
    have hgoal' := hsaved.goal hgoal
    have hs' : built.disk.sight l = .file c :=
      (saved.sight_file_iff fun p hp hgp => apart.store p hp t ht l hgoal' hgp).2 hs
    rw [Disk.read_eq_ok_iff.2 ⟨l, hgoal', hs'⟩]
    intro heq
    exact hfirst.resolve_right hclash (Disk.toOption_eq_some_iff.1 heq.symm)
  · intro hread
    by_contra hnot
    have hfilled : s₀.disk.Filled
        (fun u => (u, .written) ∈ ledger ∨ built.engine.store = some u) built.disk :=
      (account.filled.mono fun _ => .inl).trans (saved.mono fun _ => .inr)
    refine hread (Disk.Grows.toOption_read hfilled hsees fun l c hgoal => hfilled.sight_file_iff ?_)
    rintro u (hu | hp) hgu
    · exact hnot (apart.tasks u (htask hu) t ht l hgu hgoal ▸ hu)
    · exact apart.store u hp t ht l hgoal hgu

/-- As many targets are counted as written as hold another content than before. -/
theorem number_written (hsees : ∀ t ∈ built.report.graph.tasks, s₀.disk.Foresees built.disk t) :
    ledger.number .written = built.report.graph.tasks.countP fun t =>
      (built.disk.read t).toOption ≠ (s₀.disk.read t).toOption := by
  rw [Ledger.number_eq (tasks.nodup_iff.2 TaskGraph.nodup_tasks), tasks.countP_eq]
  refine List.countP_congr fun t ht => ?_
  simpa using written_iff account tasks saved apart ht (hsees t ht)

end

/-- Whatever the rules are, whatever the traces and the files say: every target that a build requires,
    however often and by whatever target, is one task, and ends as made anew, as clean or as failed. A
    ledger lists the tasks with their outcomes, and what the report counts is what they add up to. The
    targets that are counted as written are those where another content can be read than before, if
    different targets lead to different files, the trace file is none of them, and no target leads now
    to a file that was there and that it did not lead to, which takes a path that leads up. -/
theorem account_of_build (h : engine.build depth targets disk = some built) :
    (built.report.stats.requested = targets.length ∧
      built.report.stats.rebuilt = built.report.stats.written + built.report.stats.unchanged ∧
      built.report.graph.tasks.length =
        built.report.stats.rebuilt + built.report.stats.clean + built.report.stats.failed) ∧
    (built.report.graph.tasks.Pairwise (fun t u => ¬ t.Same u) ∧
      (∀ t ∈ targets, ∃ u ∈ built.report.graph.tasks, u.Same t)) ∧
    (∃ failed s, Session.requireAll engine.book depth targets (engine.session disk) = some (failed, s) ∧
      ∃ ledger : Ledger, ledger.targets.Perm built.report.graph.tasks ∧
        (∀ t o, (t, o) ∈ ledger → Session.EndedAs engine.book (engine.session disk) s t o) ∧
        built.report.stats = ledger.addTo { requested := targets.length }) ∧
    (∀ t, Path.upPiece ∉ disk.start t ++ t.steps → disk.Foresees built.disk t) ∧
    (built.Apart → (∀ t ∈ built.report.graph.tasks, disk.Foresees built.disk t) →
      built.report.stats.written = built.report.graph.tasks.countP fun t =>
        (built.disk.read t).toOption ≠ (disk.read t).toOption) := by
  obtain ⟨failed, s, hrun, hengine, -, hsave⟩ := exists_of_build_eq_some h
  have hreport : built.report.stats = s.stats ∧ built.report.graph = s.graph := by
    obtain rfl := Option.some.inj ((build_of_requireAll hrun).symm.trans h)
    exact ⟨rfl, rfl⟩
  obtain ⟨ledger, ha⟩ := (Session.account_of_requireAll ⟨[], .refl⟩).1 _ _ hrun
  obtain ⟨-, hstack, hrequired⟩ := (Session.requests_of_requireAll .start).1 _ _ hrun |>.moves
  have hcharted : Session.Charted ledger.targets s := by
    have hfirst : Session.Charted [] (engine.session disk) := .session
    have hmoved : Session.Charted ([] ++ ledger.targets) s := by
      refine .moves ?_ ha.moves
      exact hfirst.work ⟨rfl, rfl, rfl⟩
    exact hmoved
  have htasks : ledger.targets.Perm built.report.graph.tasks := by
    rw [hreport.2]
    simpa [show s.stack = [] from hstack] using hcharted.tasks.symm
  have hstats : built.report.stats = ledger.addTo { requested := targets.length } := by
    rw [hreport.1, ha.stats]
    simp [session]
  have hsaved : s.disk.Filled (fun p => built.engine.store = some p) built.disk := by
    rw [hengine]
    exact filled_save hsave.symm
  have hnumbers := @Ledger.addTo_eq ledger { requested := targets.length }
  refine ⟨⟨?_, ?_, ?_⟩, ⟨FirstSeen.pairwise_toList, ?_⟩, ⟨failed, s, hrun, ledger, htasks, ?_, hstats⟩,
    fun t hup => ?_, ?_⟩
  · rw [hstats, hnumbers]
  · rw [hstats, hnumbers]
    simp
  · rw [← htasks.length_eq, hstats, hnumbers, Ledger.length_targets]
    simp
  · intro t ht
    rw [hreport.2]
    exact FirstSeen.contains_iff.1 (hcharted.required.2 (hrequired t ht))
  · exact fun t o he => ha.ended he
  · have hsession : disk.Filled (fun _ => True) s.disk := ha.filled.mono fun _ _ => trivial
    exact (hsession.trans (hsaved.mono fun _ _ => trivial)).foresees hup
  · intro hapart hsees
    rw [hstats, hnumbers]
    have hnumber := number_written ha htasks hsaved hapart hsees
    exact (Nat.zero_add _).trans hnumber

/-- A disk with the file `/src/x` and the empty file `/out/q`. -/
def emptyMade : Disk where
  top := .dir (.ofText "out") (.file (.ofText "q") (.ofText "") .empty)
    (.dir (.ofText "src") (.file (.ofText "x") (.ofText "") .empty) .empty)

/-- The rules for a target that looks for `/src/x`, with the trace of the target that it needs. -/
def emptyTraced : Engine where
  book := .lookTwice (.ofText "/src/x")
  traces := PathTable.insert ∅ (.ofText "/out/q") { rule := "empty", output := "", deps := [] }

/-- A target that is written, the one that it needs, which is clean, and one that has no rule. -/
theorem account_of_build_emptyTraced :
    ∃ built, emptyTraced.build 2
        [.ofText "/out/t", .ofText "/out/q", .ofText "/out/z"] emptyMade = some built ∧
      built.report.graph.tasks = [.ofText "/out/t", .ofText "/out/q", .ofText "/out/z"] ∧
      built.report.stats.clean = 1 ∧ built.report.stats.failed = 1 ∧ built.Apart ∧
      (∀ t ∈ built.report.graph.tasks, emptyMade.Foresees built.disk t) ∧
      built.report.stats.requested = 3 ∧ built.report.stats.rebuilt = 1 ∧
      built.report.stats.written = built.report.graph.tasks.countP fun t =>
        (built.disk.read t).toOption ≠ (emptyMade.read t).toOption := by
  have hrun : (emptyTraced.build 2 [.ofText "/out/t", .ofText "/out/q", .ofText "/out/z"]
      emptyMade).any (fun built =>
        built.report.graph.tasks = [.ofText "/out/t", .ofText "/out/q", .ofText "/out/z"] ∧
        built.report.stats.clean = 1 ∧ built.report.stats.failed = 1 ∧ built.engine.store = none ∧
        (built.report.graph.tasks.map fun t => (built.disk.goal t).toOption).Nodup) = true := by
    decide +kernel
  obtain ⟨built, hbuilt, h⟩ := (Option.any_eq_true _ _).1 hrun
  obtain ⟨htasks, hclean, hfailed, hstore, hgoals⟩ := of_decide_eq_true h
  obtain ⟨⟨hrequested, -, htotal⟩, -, -, hforesees, hwritten⟩ := account_of_build hbuilt
  have hapart : built.Apart := by
    refine ⟨fun t ht u hu l hgt hgu => ?_, by simp [hstore]⟩
    refine List.inj_on_of_nodup_map hgoals ht hu ?_
    simp only [hgt, hgu]
  have hsees : ∀ t ∈ built.report.graph.tasks, emptyMade.Foresees built.disk t := by
    rw [htasks]
    intro t ht
    refine hforesees t ?_
    revert t
    decide +kernel
  refine ⟨built, hbuilt, htasks, hclean, hfailed, hapart, hsees, hrequested, ?_, hwritten hapart hsees⟩
  simp only [htasks, hclean, hfailed, List.length_cons, List.length_nil] at htotal
  omega

/-- The rule for one empty target. -/
def emptyAt (target : Path) : Rulebook where
  rules := [{ name := "empty", makes := (· == target), recipe := fun _ => return .ofText "" }]
  digest := Content.spelled

/-- A target that is written through a directory that was not there leads to a file that holds what it
    held before. And a target whose artifact comes out as before is overwritten by the traces, if they
    are stored in its place. -/
theorem exists_written_miscounted :
    (∃ built, Engine.build { book := emptyAt (.ofText "/out/../src/x") } 1 [.ofText "/out/../src/x"]
          Rulebook.sourceDisk = some built ∧
      built.report.stats.written = 1 ∧ built.Apart ∧
      built.disk.goal (.ofText "/out/../src/x") = .ok [.ofText "src", .ofText "x"] ∧
      built.disk.sight [.ofText "src", .ofText "x"] =
        Rulebook.sourceDisk.sight [.ofText "src", .ofText "x"]) ∧
    ∃ built, Engine.build (.storing (emptyAt (.ofText "/out/q")) (.ofText "/out/q") ∅) 1
          [.ofText "/out/q"] emptyMade = some built ∧
      built.report.stats.written = 0 ∧ built.report.stats.unchanged = 1 ∧
      emptyMade.read (.ofText "/out/q") = .ok (.ofText "") ∧
      built.disk.read (.ofText "/out/q") = .ok (.ofText Rulebook.emptyTraces) := by
  constructor
  · have hrun : (Engine.build { book := emptyAt (.ofText "/out/../src/x") } 1
        [.ofText "/out/../src/x"] Rulebook.sourceDisk).any (fun built =>
          built.report.stats.written = 1 ∧ built.engine.store = none ∧
          built.report.graph.tasks = [.ofText "/out/../src/x"] ∧
          built.disk.goal (.ofText "/out/../src/x") = .ok [.ofText "src", .ofText "x"] ∧
          built.disk.sight [.ofText "src", .ofText "x"] =
            Rulebook.sourceDisk.sight [.ofText "src", .ofText "x"]) = true := by
      decide +kernel
    obtain ⟨built, hbuilt, h⟩ := (Option.any_eq_true _ _).1 hrun
    obtain ⟨hwritten, hstore, htasks, hgoal, hs⟩ := of_decide_eq_true h
    refine ⟨built, hbuilt, hwritten, ⟨fun t ht u hu _ _ _ => ?_, by simp [hstore]⟩, hgoal, hs⟩
    rw [htasks, List.mem_singleton] at ht hu
    rw [ht, hu]
  · let q : Path := .ofText "/out/q"
    let trace : Trace := { rule := "empty", output := "", deps := [] }
    have hrun : (Session.requireAll (emptyAt q) 1 [q] { disk := emptyMade, traces := ∅ }).any (fun r =>
        r.2.traces.entries = [(q, trace)] ∧ r.2.stats.written = 0 ∧ r.2.stats.unchanged = 1 ∧
        (Disk.writeIfChanged q (.ofText Rulebook.emptyTraces) r.2.disk).1 = .ok true) = true := by
      decide +kernel
    obtain ⟨⟨failed, s⟩, run, h⟩ := (Option.any_eq_true _ _).1 hrun
    obtain ⟨hentries, hwritten, hunchanged, hwrite⟩ := of_decide_eq_true h
    have htraces : s.traces = PathTable.insert ∅ q trace :=
      PathTable.entries_inj.1 (hentries.trans (by decide +kernel))
    have htext : TraceTable.text? s.traces = some Rulebook.emptyTraces :=
      htraces ▸ Rulebook.text?_emptyTrace
    have hsave : (Engine.save (.storing (emptyAt q) q s.traces) s.disk).2 =
        (Disk.writeIfChanged q (.ofText Rulebook.emptyTraces) s.disk).2 := by
      rw [Engine.save, Engine.storing]
      simp only [TraceTable.save, htext]
      rcases hstore : Disk.writeIfChanged q (.ofText Rulebook.emptyTraces) s.disk with
        ⟨fault | written, disk⟩ <;> rfl
    refine ⟨_, Engine.build_of_requireAll run, hwritten, hunchanged, by decide +kernel, ?_⟩
    exact (congrArg (Disk.read · q) hsave).trans (Disk.read_of_writeIfChanged (Prod.ext hwrite rfl))

end Engine

end ImportIndex
