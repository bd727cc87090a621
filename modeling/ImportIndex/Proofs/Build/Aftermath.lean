import ImportIndex.Proofs.Build.History
import ImportIndex.Proofs.Build.Lifecycle
import ImportIndex.Proofs.FileTree.Filled
import ImportIndex.Proofs.FileTree.Folded

/-!
# What a failed target leaves behind

Whatever the rules are, whatever the traces and the files say, and whichever step of a write the disk
refuses: the files and the traces that a session changes are those of targets that succeed
(`Session.Unspoiled`). Every step keeps this, as nothing is changed but by the write that ends a target
well. So if different targets lead to different files (`Session.Apart`),

* a request that ends with a failure, however deep it is nested, leaves the trace of its target and the
  file that it leads to as they were before the session (`Unspoiled.traces_of_not_done`,
  `Unspoiled.sight_of_not_done`);
* a trace that was changed is that of a target that is done, and tells the digest of its artifact
  (`Unspoiled.exists_done`).

A path that leads through a directory that is not there, and up again, may lead to a file after the
session that was there and could not be reached (`Session.exists_file_appearing`).
-/

namespace ImportIndex

namespace Session

variable {book : Rulebook} {targets : List Path} {disk : Disk} {traces : TraceTable}
  {s s' : Session} {t u : Path} {m m' : Moment} {marks more : List Mark} {digest : String}
  {frames : List (Path × Stage)}

/-- Whether a target is done with this digest, or about to be. -/
def Succeeds (s : Session) (frames : List (Path × Stage)) (t : Path) (digest : String) : Prop :=
  s.progress.get? t = some (.done digest) ∨ (t, .ending (.ok digest)) ∈ frames

/-- Whether a target is done at a moment, or about to be. -/
def Moment.HasMade (m : Moment) (t : Path) : Prop := ∃ digest, m.session.Succeeds m.frames t digest

/-- Whether nothing was changed since the session was begun but for targets that succeed. -/
structure Unspoiled (book : Rulebook) (disk : Disk) (traces : TraceTable) (m : Moment) : Prop where
  /-- The files that are not as before are theirs. -/
  filled : disk.Filled m.HasMade m.session.disk
  /-- So are the traces, and they tell what the artifacts hold. -/
  changed : ∀ {u}, m.session.traces.get? u ≠ traces.get? u → ∃ t trace c, t.Same u ∧
    m.session.traces.get? u = some trace ∧ m.session.Succeeds m.frames t trace.output ∧
    book.digest c = trace.output ∧ m.session.disk.Holds m.HasMade t c

/-- Whether different targets that were required lead to different files. -/
def Apart (s : Session) : Prop :=
  ∀ {t u l}, s.progress.get? t ≠ none → s.progress.get? u ≠ none →
    s.disk.goal t = .ok l → s.disk.goal u = .ok l → t.Same u

namespace Unspoiled

theorem session : Unspoiled book disk traces ⟨{ disk, traces }, [], .working⟩ where
  filled := .refl
  changed h := absurd rfl h

/-- Where no file and no trace is changed, it is enough that what succeeds does so still. -/
theorem next (h : Unspoiled book disk traces m) (hdisk : m'.session.disk = m.session.disk)
    (htraces : m'.session.traces = m.session.traces)
    (hmade : ∀ {t digest}, m.session.Succeeds m.frames t digest →
      m'.session.Succeeds m'.frames t digest) :
    Unspoiled book disk traces m' where
  filled := hdisk ▸ h.filled.mono fun _ ⟨digest, ht⟩ => ⟨digest, hmade ht⟩
  changed hu := by
    rw [htraces] at hu ⊢
    obtain ⟨t, trace, c, hs, htrace, ht, hc, hholds⟩ := h.changed hu
    exact ⟨t, trace, c, hs, htrace, hmade ht, hc,
      hdisk ▸ hholds.mono fun _ ⟨digest, hu⟩ => ⟨digest, hmade hu⟩⟩

/-- What succeeds does so still when the innermost target comes to another stage, unless it was about to
    end well. -/
theorem succeeds_frame {stage stage' : Stage} (hprogress : s'.progress = s.progress)
    (hstage : ∀ digest, stage ≠ .ending (.ok digest)) (hu : s.Succeeds ((t, stage) :: frames) u digest) :
    s'.Succeeds ((t, stage') :: frames) u digest := by
  refine hu.imp (fun hdone => hprogress ▸ hdone) fun hmem => ?_
  rcases List.mem_cons.1 hmem with heq | hmem
  · exact absurd (Prod.mk.inj heq).2.symm (hstage digest)
  · exact List.mem_cons_of_mem _ hmem

/-- A target that is being made has not succeeded yet. -/
theorem not_same_of_succeeds {stage : Stage} {now : Now}
    (horderly : Orderly marks ⟨s, (t, stage) :: frames, now⟩)
    (hstage : ∀ digest, stage ≠ .ending (.ok digest))
    (hu : s.Succeeds ((t, stage) :: frames) u digest) : ¬ t.Same u := by
  intro hs
  rcases hu with hdone | hmem
  · have hstarted := horderly.started.2 ⟨t, horderly.stack ▸ List.mem_cons_self, hs⟩
    cases hdone.symm.trans hstarted
  · rcases List.mem_cons.1 hmem with heq | hmem
    · exact hstage digest (Prod.mk.inj heq).2.symm
    · obtain ⟨v, hasks⟩ := horderly.exists_asks hmem
      cases hasks

/-- A target that cannot be written leaves all files and traces. -/
theorem unwritten {rule : Rule} {c : Content} {before : List Dependency} {fault : IoFault}
    (h : Unspoiled book disk traces ⟨s, (t, .running rule (.done (.ok c)) before) :: frames, .working⟩)
    (hwrite : (Disk.writeIfChanged t c s.disk).1 = .error fault) :
    Unspoiled book disk traces ⟨{ s with disk := (Disk.writeIfChanged t c s.disk).2 },
      (t, .ending (.error (.writeArtifact t fault))) :: frames, .working⟩ := by
  have hmade : ∀ {u digest}, s.Succeeds ((t, .running rule (.done (.ok c)) before) :: frames) u digest →
      Succeeds { s with disk := (Disk.writeIfChanged t c s.disk).2 }
        ((t, .ending (.error (.writeArtifact t fault))) :: frames) u digest :=
    succeeds_frame rfl (by simp)
  have hrun : Disk.writeIfChanged t c s.disk =
      (.error fault, (Disk.writeIfChanged t c s.disk).2) := Prod.ext hwrite rfl
  constructor
  case filled =>
    exact (h.filled.mono fun _ ⟨digest, hu⟩ => ⟨digest, hmade hu⟩).trans
      (Disk.filled_writeIfChanged hrun (by simp))
  case changed =>
    intro u hu
    obtain ⟨v, trace, d, hs, htrace, hv, hd, hholds⟩ := h.changed hu
    exact ⟨v, trace, d, hs, htrace, hmade hv, hd,
      Disk.Holds.write (hholds.mono fun _ ⟨digest, hu⟩ => ⟨digest, hmade hu⟩) hrun (by simp)⟩

/-- A target that is made changes its own file and trace. -/
theorem made {rule : Rule} {c : Content} {before : List Dependency} {written : Bool}
    (h : Unspoiled book disk traces ⟨s, (t, .running rule (.done (.ok c)) before) :: frames, .working⟩)
    (horderly : Orderly marks ⟨s, (t, .running rule (.done (.ok c)) before) :: frames, .working⟩)
    (hwrite : (Disk.writeIfChanged t c s.disk).1 = .ok written) :
    Unspoiled book disk traces ⟨{ s with
        disk := (Disk.writeIfChanged t c s.disk).2
        traces := s.traces.insert t
          { rule := rule.name, output := book.digest c, deps := before.reverse } },
      (t, .ending (.ok (book.digest c))) :: frames, .working⟩ := by
  have hmade : ∀ {u digest}, s.Succeeds ((t, .running rule (.done (.ok c)) before) :: frames) u digest →
      Succeeds { s with
          disk := (Disk.writeIfChanged t c s.disk).2
          traces := s.traces.insert t
            { rule := rule.name, output := book.digest c, deps := before.reverse } }
        ((t, .ending (.ok (book.digest c))) :: frames) u digest :=
    succeeds_frame rfl (by simp)
  have ht : ∀ {s' : Session}, s'.Succeeds ((t, .ending (.ok (book.digest c))) :: frames) t
      (book.digest c) := .inr List.mem_cons_self
  have hrun : Disk.writeIfChanged t c s.disk =
      (.ok written, (Disk.writeIfChanged t c s.disk).2) := Prod.ext hwrite rfl
  constructor
  case filled =>
    exact (h.filled.mono fun _ ⟨digest, hu⟩ => ⟨digest, hmade hu⟩).trans
      (Disk.filled_writeIfChanged hrun fun _ => ⟨_, ht⟩)
  case changed =>
    intro u hu
    by_cases hs : t.Same u
    · exact ⟨t, _, c, hs, PathTable.get?_insert_of_same hs, ht, rfl,
        .inl (Disk.read_of_writeIfChanged hrun)⟩
    · have hget := PathTable.get?_insert_of_not_same (t := s.traces) (v :=
        { rule := rule.name, output := book.digest c, deps := before.reverse }) hs
      obtain ⟨v, trace, d, hv, htrace, hmadev, hd, hholds⟩ := h.changed (hget ▸ hu)
      have hne := not_same_of_succeeds horderly (by simp) hmadev
      exact ⟨v, trace, d, hv, hget.trans htrace, hmade hmadev, hd,
        Disk.Holds.write (hholds.mono fun _ ⟨digest, hu⟩ => ⟨digest, hmade hu⟩) hrun
          fun _ => ⟨⟨_, ht⟩, hne⟩⟩

/-- What succeeds does so still when the innermost target ends. -/
theorem succeeds_finish {r : Except Failure String}
    (horderly : Orderly marks ⟨s, (t, .ending r) :: frames, .working⟩)
    (hu : s.Succeeds ((t, .ending r) :: frames) u digest) :
    (finish t r s).Succeeds frames u digest := by
  rcases hu with hdone | hmem
  · refine .inl ((get?_finish_of_not_same fun hs => ?_).trans hdone)
    have hstarted := horderly.started.2 ⟨t, horderly.stack ▸ List.mem_cons_self, hs⟩
    cases hdone.symm.trans hstarted
  · rcases List.mem_cons.1 hmem with heq | hmem
    · obtain ⟨rfl, hr⟩ := Prod.mk.inj heq
      exact .inl (Stage.ending.inj hr ▸ get?_finish_of_same rfl)
    · exact .inr hmem

theorem step (h : Unspoiled book disk traces m) (horderly : Orderly marks m)
    (hstep : Step book (.requests targets) m more m') : Unspoiled book disk traces m' := by
  cases hstep with
  | aside same => exact h.next same.disk same.traces fun ht => ht.imp (same.progress ▸ ·) id
  | change hchanges => exact hchanges.elim
  | request | reply | done | failed | cycle | ask => exact h.next rfl rfl id
  | start hnew =>
    exact h.next rfl rfl fun ht => ht.imp (done_start_iff hnew).2 (List.mem_cons_of_mem _)
  | resume hresumes =>
    exact h.next rfl rfl fun ht => succeeds_frame rfl (by rintro _ rfl; cases hresumes) ht
  | finish =>
    exact h.next disk_finish traces_finish fun ht => succeeds_finish horderly ht
  | go hgoes =>
    cases hgoes with
    | unwritten write => exact h.unwritten write
    | made write => exact h.made horderly write
    | _ => exact h.next rfl rfl fun ht => succeeds_frame rfl (by simp) ht

/-- Nothing is spoiled wherever a session leads. -/
theorem of_walk (hwalk : Walk book (.requests targets) ⟨{ disk, traces }, [], .working⟩ marks m) :
    Unspoiled book disk traces m := by
  induction hwalk with
  | refl => exact session
  | tail before last ih => exact ih.step (by simpa using Orderly.session.walk before) last

/-! ### When no target is about to end -/

section

variable (h : Unspoiled book disk traces ⟨s, frames, now⟩) {now : Now}
  (hnone : ∀ e ∈ frames, ∀ r, e.2 ≠ .ending r) (hapart : s.Apart)

include h hnone hapart

/-- A file that a target leads to which was required and is not done is as before. -/
theorem sight_of_not_done (ht : s.progress.get? t ≠ none) (hnot : ¬ s.Done t) {l : Location}
    {c : Content} (hgoal : s.disk.goal t = .ok l) : s.disk.sight l = .file c ↔ disk.sight l = .file c := by
  refine h.filled.sight_file_iff fun u hu hgu => ?_
  obtain ⟨digest, hdone | hmem⟩ := hu
  · have hs := hapart (by simp [show s.progress.get? u = _ from hdone]) ht hgu hgoal
    exact hnot ⟨digest, (PathTable.get?_congr hs).symm.trans hdone⟩
  · exact hnone _ hmem _ rfl

/-- A trace that is not as before is that of a target that is done, and tells what its artifact
    holds. -/
theorem exists_done (hu : s.traces.get? u ≠ traces.get? u) : ∃ t trace c, t.Same u ∧
    s.traces.get? u = some trace ∧ s.progress.get? t = some (.done trace.output) ∧
    s.disk.read t = .ok c ∧ book.digest c = trace.output := by
  obtain ⟨t, trace, c, hs, htrace, hdone | hmem, hc, hholds⟩ := h.changed hu
  · refine ⟨t, trace, c, hs, htrace, hdone, hholds.read ?_, hc⟩
    rintro v l ⟨digest, hdonev | hmem⟩ hgoal hgv
    · exact hapart (by simp [show s.progress.get? v = _ from hdonev])
        (by simp [show s.progress.get? t = _ from hdone]) hgv hgoal
    · exact absurd rfl (hnone _ hmem _)
  · exact absurd rfl (hnone _ hmem _)

/-- The trace of a target that is not done is as before. -/
theorem traces_of_not_done (hnot : ¬ s.Done t) : s.traces.get? t = traces.get? t := by
  by_contra hne
  obtain ⟨u, trace, -, hs, -, hdone, -⟩ := h.exists_done hnone hapart hne
  exact hnot ⟨_, (PathTable.get?_congr hs).symm.trans hdone⟩

end

end Unspoiled

/-- While a target is required, those that are being brought up to date wait. -/
theorem Orderly.not_ending (h : Orderly marks ⟨s, frames, .asking t⟩) :
    ∀ e ∈ frames, ∀ r, e.2 ≠ .ending r := by
  intro e he r hr
  cases frames with
  | nil => cases he
  | cons top frames =>
    have hasks : ∃ u, e.2.Asks u := by
      rcases List.mem_cons.1 he with rfl | he
      · exact ⟨t, h.asking rfl _ rfl⟩
      · exact h.exists_asks he
    obtain ⟨u, hu⟩ := hasks
    rw [hr] at hu
    cases hu

/-- Absolute targets that were required lead to different files if, as they are spelled in the table,
    they lead to different ones. -/
theorem apart_of_entries {required : List Path} {places : List Location}
    (hkeys : s.progress.entries.map Prod.fst = required)
    (habs : ∀ t ∈ required, t.isAbsolute = true)
    (hgoals : required.map (fun t => (s.disk.goal t).toOption) = places.map some) (hplaces : places.Nodup) : s.Apart := by
  have hkey : ∀ {t l}, s.progress.get? t ≠ none → s.disk.goal t = .ok l →
      ∃ i, ∃ hi : i < required.length, required[i].Same t ∧ places[i]? = some l := by
    intro t l ht hgoal
    obtain ⟨p, hp⟩ := Option.ne_none_iff_exists'.1 ht
    obtain ⟨e, he, hs, -, -⟩ := PathTable.exists_of_get? hp
    obtain ⟨i, hi, hreq⟩ := List.getElem_of_mem (hkeys ▸ List.mem_map_of_mem (f := Prod.fst) he)
    have hplace : (places[i]?).map some = some (s.disk.goal required[i]).toOption := by
      rw [← List.getElem?_map, ← hgoals, List.getElem?_map, List.getElem?_eq_getElem hi]
      rfl
    obtain ⟨m, hm, hgm⟩ := Option.map_eq_some_iff.1 hplace
    have hgoal' := Disk.toOption_eq_some_iff.1 hgm.symm
    refine ⟨i, hi, hreq ▸ hs, hm.trans (congrArg some ?_)⟩
    exact Disk.goal_eq_of_same (habs _ (List.getElem_mem hi)) (hreq ▸ hs) hgoal' hgoal
  intro t u l ht hu hgt hgu
  obtain ⟨i, hi, hti, hpi⟩ := hkey ht hgt
  obtain ⟨j, hj, huj, hpj⟩ := hkey hu hgu
  obtain ⟨hip, hli⟩ := List.getElem?_eq_some_iff.1 hpi
  obtain ⟨hjp, hlj⟩ := List.getElem?_eq_some_iff.1 hpj
  obtain rfl : i = j := hplaces.getElem_inj_iff.1 (hli.trans hlj.symm)
  exact hti.symm.trans huj

/-- Whatever the rules are, whatever the traces and the files say, and whichever steps of a write the disk
    refuses:

    * a write that fails changes no file, and what could be read still can;
    * a request that ends with a failure, however deep it is nested, leaves the trace of its target and
      the file that it leads to as they were before the session, and what is read at the target too,
      unless the target leads now to a file that was there and that it did not lead to, which takes a
      path that leads up;
    * a trace that is not as before at the end of a session is that of a target that is done, and tells
      the digest of its artifact.

    Different targets lead to different files. -/
theorem failed_leaves (book : Rulebook) (disk : Disk) (traces : TraceTable) (targets : List Path) :
    (∀ {p c fault before after}, Disk.writeIfChanged p c before = (.error fault, after) →
      (∀ l d, after.sight l = .file d ↔ before.sight l = .file d) ∧
        ∀ q d, before.read q = .ok d → after.read q = .ok d) ∧
    (∀ {n failed s}, requireAll book n targets { disk, traces } = some (failed, s) →
      Leads book (.requests targets) ⟨{ disk, traces }, [], .working⟩ ⟨s, [], .working⟩) ∧
    (∀ {s frames t n cause s'},
      Leads book (.requests targets) ⟨{ disk, traces }, [], .working⟩ ⟨s, frames, .asking t⟩ →
      require book n t s = some (.error cause, s') → s'.Apart →
        s'.traces.get? t = traces.get? t ∧
        (∀ l c, s'.disk.goal t = .ok l → (s'.disk.sight l = .file c ↔ disk.sight l = .file c)) ∧
        (disk.Foresees s'.disk t → (s'.disk.read t).toOption = (disk.read t).toOption) ∧
        (Path.upPiece ∉ disk.start t ++ t.steps → disk.Foresees s'.disk t)) ∧
    ∀ {s}, Leads book (.requests targets) ⟨{ disk, traces }, [], .working⟩ ⟨s, [], .working⟩ →
      s.Apart → ∀ u, s.traces.get? u ≠ traces.get? u → ∃ t trace c, t.Same u ∧
        s.traces.get? u = some trace ∧ s.progress.get? t = some (.done trace.output) ∧
        s.disk.read t = .ok c ∧ book.digest c = trace.output := by
  refine ⟨fun hwrite => ⟨fun l d => Disk.sight_of_writeIfChanged_error hwrite l d,
    fun q d => Disk.read_of_writeIfChanged_error hwrite⟩, ?_, ?_, ?_⟩
  · intro n failed s hrun
    exact (leads_of_requireAll (fun _ => id) .refl).1 _ _ hrun
  · intro s frames t n cause s' hasking hrun hapart
    obtain ⟨marks, hwalk⟩ := hasking
    have hframes : ∀ e ∈ frames, ∀ r, e.2 ≠ .ending r :=
      (Orderly.session.walk hwalk).not_ending
    obtain ⟨more, hwalk'⟩ := (leads_of_require n ⟨marks, hwalk⟩).1 _ _ hrun
    have h : Unspoiled book disk traces ⟨s', frames, .answered (.error cause)⟩ := .of_walk hwalk'
    -- A request fails for a target that is started or has failed.
    have hend : s'.progress.get? t ≠ none ∧ ¬ s'.Done t := by
      obtain ⟨-, ⟨rfl, hstarted, -⟩ | ⟨hfailed, -⟩⟩ := (ended_of_require n s t).1 _ _ hrun
      · simp [Done, hstarted]
      · simp [Done, hfailed]
    have hfile : ∀ l c, s'.disk.goal t = .ok l →
        (s'.disk.sight l = .file c ↔ disk.sight l = .file c) :=
      fun l c => h.sight_of_not_done hframes hapart hend.1 hend.2
    exact ⟨h.traces_of_not_done hframes hapart hend.2, hfile,
      fun hsees => h.filled.toOption_read hsees hfile, h.filled.foresees⟩
  · intro s hleads hapart u hu
    obtain ⟨marks, hwalk⟩ := hleads
    have h : Unspoiled book disk traces ⟨s, [], .working⟩ := .of_walk hwalk
    exact h.exists_done (by simp) hapart hu

/-- A disk with the files `/src/x` and `/out/t`, of which the second cannot be replaced. -/
def lockedDisk : Disk where
  top := .dir (.ofText "out") (.file (.ofText "t") (.ofText "old") .empty)
    (.dir (.ofText "src") (.file (.ofText "x") (.ofText "") .empty) .empty)
  refuses p step := if p = .ofText "/out/t" ∧ step = .replace then some .busy else none

/-- A target that cannot be written, after one was made that it needs. -/
theorem failed_leaves_locked :
    (∃ s, require (Rulebook.lookTwice (.ofText "/src/x")) 2 (.ofText "/out/t")
        { disk := lockedDisk, traces := ∅ } = some (.error (.writeArtifact (.ofText "/out/t") .busy), s) ∧
      s.Apart ∧ s.traces.get? (.ofText "/out/t") = none ∧
      (s.disk.read (.ofText "/out/t")).toOption = some (.ofText "old") ∧
      ∃ trace, s.traces.get? (.ofText "/out/q") = some trace ∧ ∃ t c, t.Same (.ofText "/out/q") ∧
        s.progress.get? t = some (.done trace.output) ∧ s.disk.read t = .ok c ∧ c.spelled = trace.output) ∧
    ∃ after, Disk.writeIfChanged (.ofText "/out/t") (.ofText "new") lockedDisk = (.error .busy, after) ∧
      after.read (.ofText "/out/t") = .ok (.ofText "old") := by
  have hleaves := failed_leaves (Rulebook.lookTwice (.ofText "/src/x")) lockedDisk ∅ [.ofText "/out/t"]
  refine ⟨?_, ?_⟩
  · have hrun : (require (Rulebook.lookTwice (.ofText "/src/x")) 2 (.ofText "/out/t")
        { disk := lockedDisk, traces := ∅ }).any (fun r =>
          r.1 = .error (.writeArtifact (.ofText "/out/t") .busy) ∧
          r.2.progress.entries.map Prod.fst = [.ofText "/out/q", .ofText "/out/t"] ∧
          [.ofText "/out/q", .ofText "/out/t"].map (fun t => (r.2.disk.goal t).toOption) =
            [[.ofText "out", .ofText "q"], [.ofText "out", .ofText "t"]].map some ∧
          (r.2.traces.get? (.ofText "/out/q")).isSome) = true := by
      decide +kernel
    obtain ⟨⟨r, s⟩, run, hs⟩ := (Option.any_eq_true _ _).1 hrun
    obtain ⟨rfl, hentries, hgoals, htrace⟩ := of_decide_eq_true hs
    have hapart : s.Apart := apart_of_entries hentries (by decide +kernel) hgoals (by decide +kernel)
    have hasking : Leads (Rulebook.lookTwice (.ofText "/src/x")) (.requests [.ofText "/out/t"])
        ⟨{ disk := lockedDisk, traces := ∅ }, [], .working⟩
        ⟨{ disk := lockedDisk, traces := ∅ }, [], .asking (.ofText "/out/t")⟩ :=
      Leads.refl.step (.request (List.mem_singleton.2 rfl))
    obtain ⟨htraces, -, hread, hsees⟩ := hleaves.2.2.1 hasking run hapart
    have hchanged : s.traces.get? (.ofText "/out/q") ≠ (∅ : TraceTable).get? (.ofText "/out/q") := by
      intro hnone
      rw [hnone, PathTable.get?_empty] at htrace
      cases htrace
    obtain ⟨t, trace, c, ht, hget, hdone, hc, hdigest⟩ := hleaves.2.2.2
      (((leads_of_require 2 hasking).1 _ _ run).step .reply) hapart _ hchanged
    refine ⟨s, run, hapart, htraces.trans PathTable.get?_empty, ?_, trace, hget, t, c, ht, hdone, hc,
      hdigest⟩
    rw [hread (hsees (by decide +kernel))]
    decide +kernel
  · have hwrite : (Disk.writeIfChanged (.ofText "/out/t") (.ofText "new") lockedDisk).1 =
        .error .busy := by
      decide +kernel
    exact ⟨_, Prod.ext hwrite rfl, (hleaves.1 (Prod.ext hwrite rfl)).2 _ _ (by decide +kernel)⟩

/-- A target that has no rule and could not be read before the session can be read after it, as its path
    leads through the directory of another target, which was made. -/
theorem exists_file_appearing :
    ∃ s s', require (Rulebook.lookTwice (.ofText "/src/x")) 1 (.ofText "/out/q")
        { disk := Rulebook.sourceDisk, traces := ∅ } = some (.ok "", s) ∧
      require (Rulebook.lookTwice (.ofText "/src/x")) 1 (.ofText "/out/../src/x") s =
        some (.error (.noRule (.ofText "/out/../src/x")), s') ∧ s'.Apart ∧
      Rulebook.sourceDisk.read (.ofText "/out/../src/x") = .error .notFound ∧
      s'.disk.read (.ofText "/out/../src/x") = .ok (.ofText "") := by
  have hrun : (require (Rulebook.lookTwice (.ofText "/src/x")) 1 (.ofText "/out/q")
      { disk := Rulebook.sourceDisk, traces := ∅ }).any (fun r => r.1 = .ok "" ∧
        (require (Rulebook.lookTwice (.ofText "/src/x")) 1 (.ofText "/out/../src/x") r.2).any fun r' =>
          r'.1 = .error (.noRule (.ofText "/out/../src/x")) ∧
          r'.2.progress.entries.map Prod.fst = [.ofText "/out/../src/x", .ofText "/out/q"] ∧
          [.ofText "/out/../src/x", .ofText "/out/q"].map (fun t => (r'.2.disk.goal t).toOption) =
            [[.ofText "src", .ofText "x"], [.ofText "out", .ofText "q"]].map some ∧
          r'.2.disk.read (.ofText "/out/../src/x") = .ok (.ofText "")) = true := by
    decide +kernel
  obtain ⟨⟨r, s⟩, run, hs⟩ := (Option.any_eq_true _ _).1 hrun
  obtain ⟨rfl, hrun⟩ := of_decide_eq_true hs
  obtain ⟨⟨r', s'⟩, run', hs⟩ := (Option.any_eq_true _ _).1 hrun
  obtain ⟨rfl, hentries, hgoals, hread⟩ := of_decide_eq_true hs
  exact ⟨s, s', run, run', apart_of_entries hentries (by decide +kernel) hgoals (by decide +kernel),
    by decide +kernel, hread⟩

end Session

end ImportIndex
