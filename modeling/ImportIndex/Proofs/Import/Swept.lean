import ImportIndex.Proofs.Artifact.Remains
import ImportIndex.Proofs.Build.Mirrored
import ImportIndex.Proofs.Import.Attested
import ImportIndex.Proofs.Import.History
import ImportIndex.Proofs.Import.Nesting
import ImportIndex.Proofs.Import.Unfailing

/-!
# Building after a sweep

A sweep takes away artifacts and traces of sources that are gone. What is left of them in the traces of
other artifacts is never asked for: the rule of a source asks for artifacts of sources that are there,
and a trace is checked as far only as its questions are those of the rule. So a build after a sweep does
what it would have done without it (`Project.agrees_after_sweep`), unless a file that was taken away stood
where a directory was to be made (`Project.exists_unhindered_build`).
-/

namespace ImportIndex

namespace Project

open Path

variable {project : Project} {book : Rulebook} {disk swept now now' : Disk} {p t F G : Path}
  {l : Location} {c : Content} {gone changed : Location → Prop} {ds : List Path}

/-! ### The directory of the artifacts -/

/-- Whether a path leads to nothing in the directory of the artifacts. -/
def Outside (project : Project) (p : Path) : Prop := ¬ p.normalize.StartsWith project.outputRoot

/-- Whether a location is in the directory of the artifacts. -/
def Inside (project : Project) (l : Location) : Prop :=
  ∃ o, (∀ n ∈ o, IsName n) ∧ project.outputRoot = ofLocation o ∧ o <+: l

/-- Whether a source is there, and not among the artifacts. -/
def Live (project : Project) (disk : Disk) (F : Path) : Prop :=
  project.Present disk F ∧ project.Outside (project.root.join F)

instance : Decidable (project.Outside p) :=
  inferInstanceAs (Decidable (¬ p.normalize.StartsWith project.outputRoot))

theorem Outside.not_inside (h : project.Outside p) (hp : p.isAbsolute = true)
    (hgoal : disk.goal p = .ok l) : ¬ project.Inside l := by
  rintro ⟨o, ho, hout, hprefix⟩
  have hl : ∀ n ∈ l, IsName n := fun n hn => (Disk.isName_of_goal hp hgoal n hn).1
  rw [Outside, Disk.normalize_of_goal hp hgoal, hout] at h
  exact h ((startsWith_ofLocation_iff hl ho).2 hprefix)

theorem ArtifactPlace.inside (h : project.ArtifactPlace l) : project.Inside l := by
  obtain ⟨o, m, kind, hout, ho, -, rfl⟩ := h
  exact ⟨o, ho, hout, List.prefix_append o _⟩

theorem not_isArtifact_traceFile (hroot : project.root.IsPlace) :
    ¬ project.IsArtifact project.traceFile := by
  rintro ⟨kind, F, -, heq⟩
  exact traceFile_ne_artifact (isPlace_outputRoot hroot.1) heq

section

variable (hroot : project.root.IsPlace)

include hroot

theorem inside_traceFile : project.Inside project.traceFile.steps := by
  obtain ⟨o, ho, hout, htrace⟩ := exists_traceFile_eq (isPlace_outputRoot hroot.1)
  have hnames : ∀ n ∈ o ++ [traceFileName.bytes], IsName n := fun n hn =>
    (List.mem_append.1 hn).elim (ho n) fun hn => List.mem_singleton.1 hn ▸ isName_traceFileName
  rw [htrace, steps_ofLocation hnames]
  exact ⟨o, ho, hout, List.prefix_append o _⟩

theorem Outside.not_isArtifact (h : project.Outside t) : ¬ project.IsArtifact t := by
  intro ht
  obtain ⟨l, hl, rfl⟩ := (isArtifact_iff hroot).1 ht
  obtain ⟨o, ho, hout, hprefix⟩ := hl.inside
  rw [Outside, normalize_ofLocation hl.isName, hout] at h
  exact h ((startsWith_ofLocation_iff hl.isName ho).2 hprefix)

/-- Writing artifacts leaves the files outside of their directory. -/
theorem Outside.read (h : project.Outside p) (hp : p.isAbsolute = true)
    (hnow : disk.Rewritten project.IsArtifact now) (hread : disk.read p = .ok c) :
    now.read p = .ok c := by
  obtain ⟨l, hgoal, hs⟩ := Disk.read_eq_ok_iff.1 hread
  have hgrows := (rewritten_at hroot hnow).grows (fun _ => ArtifactPlace.isName)
    fun _ => ArtifactPlace.ne_nil
  refine Disk.read_eq_ok_iff.2 ⟨l, hgrows.goal hgoal, ?_⟩
  rcases hgrows.sight l with hsame | ⟨hnothing, -⟩ | ⟨d, -, -, hplace⟩
  · rw [hsame, hs]
  · cases hs.symm.trans hnothing
  · exact absurd hplace.inside (h.not_inside hp hgoal)

/-- The imports of a source that is there are sources that are there, if it says to look for them outside
    of the directory of the artifacts. -/
theorem Live.of_imports? (hnow : disk.Rewritten project.IsArtifact now) (hF : project.Live disk F)
    (hclear : ∀ p ∈ project.probes disk F, project.Outside p)
    (hds : project.imports? now F = some ds) (hG : G ∈ ds) : project.Live disk G := by
  obtain ⟨p, hp, habsolute, hfile, heq⟩ := exists_probe_of_imports? hroot hds hG
  have hread : (now.read (project.root.join F)).toOption =
      (disk.read (project.root.join F)).toOption := by
    obtain ⟨c, hc⟩ := Option.isSome_iff_exists.1 (Disk.isFile_eq_isSome_read ▸ hF.1.2)
    rw [hc, Disk.toOption_eq_some_iff]
    exact hF.2.read hroot (isAbsolute_join hroot.1 F) hnow (Disk.toOption_eq_some_iff.1 hc)
  have hplace : (project.root.join G).IsPlace := heq ▸ isPlace_normalize habsolute
  have houtside : project.Outside (project.root.join G) := by
    rw [Outside, hplace.2, heq]
    exact hclear p (probes_subset hread (fun _ => hnow.isFile) hp)
  refine ⟨⟨isBelow_of_imports? hroot hds hG, ?_⟩, houtside⟩
  rw [Disk.isFile_eq_isSome_read,
    ← read_of_rewritten hroot hplace (houtside.not_isArtifact hroot) hnow,
    ← Disk.isFile_eq_isSome_read, heq]
  exact Disk.isFile_normalize habsolute hfile

end

/-! ### What is left after a sweep -/

/-- Whether no file that was taken away stands where a directory with an artifact of a source is to be. -/
def Unhindered (project : Project) (disk swept : Disk) : Prop :=
  ∀ (kind : ArtifactKind) (F : Path), project.Live disk F →
    ∀ (l : Location) (c : Content), disk.sight l = .file c → swept.sight l = .nothing →
      l <+: (kind.artifact project.outputRoot F).steps → l = (kind.artifact project.outputRoot F).steps

theorem isArtifact_of_live (ht : project.IsArtifactOf (project.Live disk) t) : project.IsArtifact t := by
  obtain ⟨kind, F, hF, rfl⟩ := ht
  exact ⟨kind, F, hF.1.1, rfl⟩

section

variable (hroot : project.root.IsPlace) (hleaves : Sweep.Leaves project disk gone changed swept)

include hroot hleaves

theorem inside_of_gone (hl : gone l) : project.Inside l := by
  obtain ⟨hnames, horphan⟩ := hleaves.removed l hl
  obtain ⟨kind, source, hclass, -⟩ := Sweep.isOrphan_iff.1 horphan
  obtain ⟨o, ho, hout⟩ := (isPlace_outputRoot hroot.1).exists_eq
  rw [hout] at hclass
  obtain ⟨m, -, rfl⟩ := Sweep.exists_of_classify? ho hnames hclass
  exact ⟨o, ho, hout, List.prefix_append o m⟩

theorem inside_of_changed (hl : changed l) : project.Inside l :=
  hleaves.rewrote l hl ▸ inside_traceFile hroot

/-- Paths that lead outside are read as before. -/
theorem toOption_read_outside (h : now.Pruned gone changed now') (hp : p.isAbsolute = true)
    (hout : project.Outside p) : (now'.read p).toOption = (now.read p).toOption :=
  h.toOption_read fun _ hgoal => ⟨fun hl => hout.not_inside hp hgoal (inside_of_gone hroot hleaves hl),
    fun hl => hout.not_inside hp hgoal (inside_of_changed hroot hleaves hl)⟩

/-- No artifact of a source that is there is an orphan. -/
theorem isOrphan_live (ht : project.IsArtifactOf (project.Live disk) t) :
    Sweep.isOrphan project swept t = false := by
  obtain ⟨kind, F, hF, rfl⟩ := ht
  refine Bool.eq_false_iff.2 fun horphan => ?_
  obtain ⟨other, source, hclass, hfile⟩ := Sweep.isOrphan_iff.1 horphan
  obtain ⟨-, rfl⟩ := ArtifactKind.source?_artifact (isPlace_outputRoot hroot.1) hF.1.1
    (Sweep.source?_of_classify? hclass)
  rw [Disk.isFile_eq_isSome_read, toOption_read_outside hroot hleaves hleaves.pruned
    (isAbsolute_join hroot.1 _) hF.2, ← Disk.isFile_eq_isSome_read, hF.1.2] at hfile
  cases hfile

/-- Nothing was taken away that an artifact of a source is in, or that it is. -/
theorem not_gone_live (hway : project.Unhindered disk swept) (hl : ∀ n ∈ l, IsName n)
    (ht : project.IsArtifactOf (project.Live disk) (ofLocation l)) : ∀ k, k <+: l → ¬ gone k := by
  intro k hprefix hk
  obtain ⟨⟨c, hs⟩, hnothing⟩ := hleaves.pruned.sight_gone hk
  obtain ⟨kind, F, hF, heq⟩ := id ht
  have hsteps : l = (kind.artifact project.outputRoot F).steps := by
    rw [← heq, steps_ofLocation hl]
  obtain rfl : k = l := (hway kind F hF k c hs hnothing (hsteps ▸ hprefix)).trans hsteps.symm
  have horphan := (hleaves.removed k hk).2
  rw [isOrphan_live hroot hleaves ht] at horphan
  cases horphan

theorem not_changed_artifact (ht : project.IsArtifact (ofLocation l)) :
    ¬ changed l := by
  intro hc
  have htrace := hleaves.rewrote l hc
  have hplace := isPlace_traceFile (isPlace_outputRoot hroot.1)
  rw [htrace, Disk.ofLocation_steps hplace] at ht
  exact not_isArtifact_traceFile hroot ht

/-- Artifacts of sources that are there keep their traces. -/
theorem get?_live (hkeys : ∀ t ∈ (TraceTable.load disk project.traceFile).keys, project.IsArtifact t)
    (ht : project.IsArtifactOf (project.Live disk) t) :
    (TraceTable.load swept project.traceFile).get? t = (TraceTable.load disk project.traceFile).get? t ∧
      (TraceTable.load swept project.traceFile).spelling? t =
        (TraceTable.load disk project.traceFile).spelling? t := by
  rcases hleaves.traces with ⟨-, hload⟩ | ⟨-, -, orphans, horphans, hload⟩
  · rw [hload]
    exact ⟨rfl, rfl⟩
  · rw [hload]
    refine PathTable.foldl_erase_of_not fun u hu hsame => ?_
    obtain ⟨hmem, horphan⟩ := horphans u hu
    obtain rfl := ((hkeys u hmem).isPlace hroot).eq_of_same ((isArtifact_of_live ht).isPlace hroot) hsame
    rw [isOrphan_live hroot hleaves ht] at horphan
    cases horphan

end

/-! ### Sessions -/

/-- A session and one that goes on after a sweep. -/
def besideSwept (project : Project) (book : Rulebook) (disk swept : Disk)
    (gone changed : Location → Prop) : Mirror where
  book := book
  targets := project.IsArtifactOf (project.Live disk)
  makes t c := ∀ F, F.IsBelow → t = ArtifactKind.direct.artifact project.outputRoot F →
    ∃ ds, ImportFamily.listing ds = .ok c ∧ ∀ G ∈ ds, project.Live disk G
  near now now' := now.Pruned gone changed now' ∧ disk.Rewritten project.IsArtifact now ∧
    swept.Rewritten project.IsArtifact now'
  traces := TraceTable.load disk project.traceFile
  traces' := TraceTable.load swept project.traceFile

section

variable {rule : Rule} (hroot : project.root.IsPlace) (hbook : project.rules = .ok book.rules)
  (hleaves : Sweep.Leaves project disk gone changed swept)
  (hclear : ∀ F, project.Live disk F → ∀ p ∈ project.probes disk F, project.Outside p)
  (hnear : (project.besideSwept book disk swept gone changed).near now now')

include hroot hbook hleaves hclear hnear

/-- The rule of a direct artifact asks for what is as before, and lists sources that are there. -/
theorem direct_meets_swept (hF : project.Live disk F)
    (hfind : book.find (ArtifactKind.direct.artifact project.outputRoot F) = .ok rule) :
    (rule.recipe (ArtifactKind.direct.artifact project.outputRoot F)).run.Meets
      ((project.besideSwept book disk swept gone changed).world now)
      ((project.besideSwept book disk swept gone changed).Shares now now') fun r => ∀ c, r = .ok c →
        (project.besideSwept book disk swept gone changed).makes
          (ArtifactKind.direct.artifact project.outputRoot F) c := by
  obtain ⟨hpruned, hnow, -⟩ := hnear
  obtain ⟨family, scanner, hfamily, hscanner, hs, rfl⟩ := find_artifact hroot hbook hF.1.1 hfind
  have habsolute := isAbsolute_join hroot.1 F
  obtain ⟨c, hc⟩ := Option.isSome_iff_exists.1 (Disk.isFile_eq_isSome_read ▸ hF.1.2)
  have hread : now.read (project.root.join F) = .ok c :=
    hF.2.read hroot habsolute hnow (Disk.toOption_eq_some_iff.1 hc)
  refine (@directRule_meets project now F _ _ _ _ _ hfamily hscanner hs (fun _ => rfl) ?_
    fun p hp => ?_).mono (fun _ h => h) fun r hr c hr' G hG heq => ?_
  · -- The source is there on both disks.
    have hread' := toOption_read_outside hroot hleaves hpruned habsolute hF.2
    rw [hread] at hread'
    exact (Disk.toOption_eq_some_iff.1 hread').trans hread.symm
  · have hp' : p ∈ project.probes disk F :=
      probes_subset (by rw [hread, hc]; rfl) (fun _ => hnow.isFile) hp
    change now'.isFile p = now.isFile p
    rw [Disk.isFile_eq_isSome_read, Disk.isFile_eq_isSome_read,
      toOption_read_outside hroot hleaves hpruned (isAbsolute_of_mem_probes hroot hp) (hclear F hF p hp')]
  · obtain ⟨-, rfl⟩ := ArtifactKind.artifact_inj (isPlace_outputRoot hroot.1) hF.1.1 hG heq
    rw [hr'] at hr
    obtain ⟨ds, hds, hlisting⟩ := Option.bind_eq_some_iff.1 hr.symm
    exact ⟨ds, Disk.toOption_eq_some_iff.1 hlisting,
      fun H hH => hF.of_imports? hroot hnow (hclear F hF) hds hH⟩

omit hleaves hclear hnear in
/-- The rule of a transitive artifact asks for artifacts of sources that are there, if the direct artifact
    lists no others. -/
theorem transitive_meets_swept (hF : project.Live disk F)
    (hfind : book.find (ArtifactKind.transitive.artifact project.outputRoot F) = .ok rule) :
    (rule.recipe (ArtifactKind.transitive.artifact project.outputRoot F)).run.Meets
      ((project.besideSwept book disk swept gone changed).world now)
      ((project.besideSwept book disk swept gone changed).Shares now now') fun r => ∀ c, r = .ok c →
        (project.besideSwept book disk swept gone changed).makes
          (ArtifactKind.transitive.artifact project.outputRoot F) c := by
  obtain ⟨family, scanner, -, -, hs, rfl⟩ := find_artifact hroot hbook hF.1.1 hfind
  refine (transitiveRule_meets hs ⟨.direct, F, hF, rfl⟩ fun ds hds G hG _ kind => ?_).mono
    (fun _ h => h) fun r _ c _ G hG heq => ?_
  · obtain ⟨c, text, hc, htext, rfl⟩ := hds
    obtain ⟨ds, hlisting, hlive⟩ := hc F hF.1.1 rfl
    rw [parse_listing hlisting htext] at hG
    exact ⟨kind, G, hlive G hG, rfl⟩
  · cases (ArtifactKind.artifact_inj (isPlace_outputRoot hroot.1) hF.1.1 hG heq).1

end

/-- What is asked on behalf of artifacts of sources that are there has the same answers after a sweep. -/
theorem lawful_besideSwept (hroot : project.root.IsPlace) (hbook : project.rules = .ok book.rules)
    (hinj : Function.Injective book.digest)
    (hrecorded : project.Recorded book (TraceTable.load disk project.traceFile))
    (hleaves : Sweep.Leaves project disk gone changed swept)
    (hclear : ∀ F, project.Live disk F → ∀ p ∈ project.probes disk F, project.Outside p)
    (hway : project.Unhindered disk swept) :
    (project.besideSwept book disk swept gone changed).Lawful where
  injective := hinj
  same ht hu hs :=
    ((isArtifact_of_live ht).isPlace hroot).eq_of_same ((isArtifact_of_live hu).isPlace hroot) hs
  alone_or_asksOnly ht hfind := alone_or_asksOnly hroot hbook (isArtifact_of_live ht) hfind
  heedsFaults := by
    rintro t rule ⟨kind, F, hF, rfl⟩ hfind
    obtain ⟨family, scanner, -, -, -, rfl⟩ := find_artifact hroot hbook hF.1.1 hfind
    cases kind with
    | direct => exact heedsFaults_directRule rfl
    | transitive => exact heedsFaults_transitiveRule
  meets := by
    rintro now now' t rule hnear ⟨kind, F, hF, rfl⟩ hfind
    cases kind with
    | direct => exact direct_meets_swept hroot hbook hleaves hclear hnear hF hfind
    | transitive => exact transitive_meets_swept hroot hbook hF hfind
  read := by
    rintro now now' t ⟨hpruned, -⟩ ht
    obtain ⟨l, hl, rfl⟩ := (isArtifact_iff hroot).1 (isArtifact_of_live ht)
    exact hpruned.read_eq hl.isName (not_gone_live hroot hleaves hway hl.isName ht)
      (not_changed_artifact hroot hleaves (isArtifact_of_live ht))
  write := by
    rintro now now' t c ⟨hpruned, hnow, hnow'⟩ ht
    have hartifact := isArtifact_of_live ht
    obtain ⟨l, hl, rfl⟩ := (isArtifact_iff hroot).1 hartifact
    obtain ⟨hresult, hwritten⟩ := hpruned.writeIfChanged (c := c) hl.isName
      (not_gone_live hroot hleaves hway hl.isName ht) hl.ne_nil (not_changed_artifact hroot hleaves hartifact)
    exact ⟨hresult, hwritten, hnow.write hartifact c, hnow'.write hartifact c⟩
  apart _ ht hu hne hread :=
    read_writeIfChanged hroot (isArtifact_of_live ht) ((isArtifact_of_live hu).isPlace hroot) hne hread
  traces ht := (get?_live hroot hleaves (hrecorded.isArtifact_of_mem_keys hroot hbook hinj) ht).1
  genuine ht hget := by
    obtain ⟨c, hc⟩ := hrecorded.genuine hroot hbook hinj (isArtifact_of_live ht) hget
    exact ⟨c, hc.mono fun _ _ _ => trivial⟩

/-! ### Storing the traces -/

section

variable {traces traces' : TraceTable} (hroot : project.root.IsPlace)

include hroot

/-- Traces that can be written are stored in a trace file that is there, if nothing is refused. -/
theorem exists_save_of_read (htextual : traces.Textual) (hread : disk.read project.traceFile = .ok c)
    (hrefuses : ∀ step, disk.refuses project.traceFile step = none) :
    ∃ disk', traces.save project.traceFile disk = (.ok (), disk') ∧
      TraceTable.load disk' project.traceFile = traces := by
  obtain ⟨l, hl, -, htrace⟩ := exists_traceFile_place hroot
  obtain ⟨text, htext⟩ := Option.isSome_iff_exists.1 (TraceTable.isSome_text?_iff.2 htextual)
  rw [htrace] at hread hrefuses
  obtain ⟨written, hwrite⟩ := Disk.exists_write_of_read (d := .ofText text) hl hread hrefuses
  have hsave : traces.save project.traceFile disk =
      (.ok (), (Disk.writeIfChanged project.traceFile (.ofText text) disk).2) := by
    rw [TraceTable.save_of_text? htext, htrace, hwrite]
    rfl
  obtain ⟨-, -, -, -, hload⟩ := TraceTable.save_again hsave
  exact ⟨_, hsave, hload⟩

variable (hleaves : Sweep.Leaves project disk gone changed swept)

include hleaves

/-- Nothing was taken away that the trace file is in, nor the trace file. -/
theorem not_gone_traceFile : ∀ k, k <+: project.traceFile.steps → ¬ gone k := by
  intro k hk hgone
  have hplace := isPlace_outputRoot hroot.1
  obtain ⟨hnames, horphan⟩ := hleaves.removed k hgone
  obtain ⟨kind, source, hclass, -⟩ := Sweep.isOrphan_iff.1 horphan
  obtain ⟨o, ho, hout, htrace⟩ := exists_traceFile_eq hplace
  obtain ⟨m, hne, rfl⟩ := Sweep.exists_of_classify? ho hnames (hout ▸ hclass)
  have hname : ∀ n ∈ o ++ [traceFileName.bytes], IsName n := fun n hn =>
    (List.mem_append.1 hn).elim (ho n) fun hn => List.mem_singleton.1 hn ▸ isName_traceFileName
  rw [htrace, steps_ofLocation hname, List.prefix_append_right_inj] at hk
  obtain rfl : m = [traceFileName.bytes] := by
    obtain ⟨n, m, rfl⟩ := List.exists_cons_of_ne_nil hne
    obtain ⟨rfl, hm⟩ := List.cons_prefix_cons.1 hk
    rw [List.prefix_nil.1 hm]
  rw [← htrace, Sweep.classify?_traceFile hplace] at hclass
  cases hclass

/-- Traces that sessions leave that go on alike are stored in both or in neither, and artifacts of sources
    that are there have the same traces in the trace files then. -/
theorem save_swept (hkeys : ∀ t ∈ (TraceTable.load disk project.traceFile).keys, project.IsArtifact t)
    (hnear : (project.besideSwept book disk swept gone changed).near now now')
    (h : TraceTable.Alongside (project.IsArtifactOf (project.Live disk))
      (TraceTable.load disk project.traceFile) (TraceTable.load swept project.traceFile) traces traces') :
    (traces'.save project.traceFile now').1 = (traces.save project.traceFile now).1 ∧
      ∀ t, project.IsArtifactOf (project.Live disk) t →
        (TraceTable.load (traces'.save project.traceFile now').2 project.traceFile).get? t =
          (TraceTable.load (traces.save project.traceFile now).2 project.traceFile).get? t := by
  obtain ⟨hpruned, hnow, hnow'⟩ := hnear
  obtain ⟨l, hl, hne, htrace⟩ := exists_traceFile_place hroot
  have hgone := not_gone_traceFile hroot hleaves
  have hplace := isPlace_traceFile (isPlace_outputRoot hroot.1)
  have hnot := not_isArtifact_traceFile hroot
  rw [htrace, steps_ofLocation hl] at hgone
  rcases hleaves.traces with ⟨hnone, hload⟩ | ⟨⟨c, hread⟩, hrefuses, -⟩
  · -- The trace file is as it was, so that the same is written.
    rw [h.eq_of_eq hload]
    cases htext : traces.text? with
    | none =>
      have hread := hpruned.read_eq hl hgone (hnone l)
      rw [← htrace] at hread
      simp only [TraceTable.save, htext, true_and]
      rw [TraceTable.load_congr (congrArg Except.toOption hread)]
      exact fun _ _ => rfl
    | some text =>
      obtain ⟨hresult, hwritten⟩ := hpruned.writeIfChanged (c := .ofText text) hl hgone hne (hnone l)
      have hread := hwritten.read_eq hl hgone (hnone l)
      rw [← htrace] at hresult hread
      rw [TraceTable.save_of_text? htext, TraceTable.save_of_text? htext]
      simp only [hresult, true_and]
      rw [TraceTable.load_congr (congrArg Except.toOption hread)]
      exact fun _ _ => rfl
  · -- The trace file was written, so that it can be written again.
    have hlive := fun t ht => @get?_live project disk swept t gone changed hroot hleaves hkeys ht
    have htextual : traces'.Textual ↔ traces.Textual := h.textual_iff (fun t ht => (hlive t ht).2)
      (TraceTable.textual_load _ _) (TraceTable.textual_load _ _)
    have hloadnow := TraceTable.load_congr (read_of_rewritten hroot hplace hnot hnow)
    have hloadnow' := TraceTable.load_congr (read_of_rewritten hroot hplace hnot hnow')
    by_cases hcan : traces.Textual
    · have hreadnow : now.read project.traceFile = .ok c := by
        rw [← Disk.toOption_eq_some_iff, read_of_rewritten hroot hplace hnot hnow, hread]
        rfl
      have hfree : ∀ step, now.refuses project.traceFile step = none := fun step => by
        rw [((rewritten_at hroot hnow).grows (fun _ => ArtifactPlace.isName)
          fun _ => ArtifactPlace.ne_nil).refuses]
        exact hrefuses step
      obtain ⟨c', hreadnow'⟩ : ∃ c', now'.read project.traceFile = .ok c' := by
        rw [htrace, Disk.read_ofLocation_eq_ok_iff hl] at hreadnow
        rw [htrace]
        obtain ⟨c', hc'⟩ := hpruned.exists_file_iff.2 ⟨⟨c, hreadnow.2⟩, hgone l List.prefix_rfl⟩
        exact ⟨c', (Disk.read_ofLocation_eq_ok_iff hl).2 ⟨hreadnow.1, hc'⟩⟩
      obtain ⟨saved, hsave, hload⟩ := exists_save_of_read hroot hcan hreadnow hfree
      obtain ⟨saved', hsave', hload'⟩ :=
        exists_save_of_read hroot (htextual.2 hcan) hreadnow' (hpruned.refuses ▸ hfree)
      rw [hsave, hsave', hload, hload']
      exact ⟨rfl, fun t ht => h.get?_eq (hlive t ht).1⟩
    · have htext := TraceTable.text?_eq_none_iff.2 hcan
      have htext' := TraceTable.text?_eq_none_iff.2 (mt htextual.1 hcan)
      simp only [TraceTable.save, htext, htext', true_and]
      rw [hloadnow, hloadnow']
      exact fun t ht => (hlive t ht).1

end

/-! ### Builds -/

/-- What there is after a build that stores its traces. -/
def builtIn (book : Rulebook) (store : Path) (failed : List (Path × Failure)) (s : Session) : Built where
  report := { stats := s.stats, failed, graph := s.graph }
  events := s.told.reverse
  saved := (s.traces.save store s.disk).1
  engine := .storing book store s.traces
  disk := (s.traces.save store s.disk).2

theorem build_storing_eq_some {store : Path} {traces : TraceTable} {n : Nat} {ts : List Path}
    {built : Built} : (Engine.storing book store traces).build n ts disk = some built ↔
      ∃ failed s, Session.requireAll book n ts { disk, traces } = some (failed, s) ∧
        built = builtIn book store failed s := by
  constructor
  · intro h
    obtain ⟨⟨failed, s⟩, hrun, hbuilt⟩ := Option.bind_eq_some_iff.1 h
    exact ⟨failed, s, hrun, (Option.some.inj hbuilt).symm⟩
  · rintro ⟨failed, s, hrun, rfl⟩
    exact Option.bind_eq_some_iff.2 ⟨_, hrun, rfl⟩

/-- The disks that there may be in the course of time: any disk without a trace file at first, and then
    edits of anything but the trace file, and builds that go on with the traces in the trace file and
    store their own in it. What is built are artifacts, or targets for which there is no rule. -/
inductive Reached (project : Project) (book : Rulebook) : Disk → Prop
  | start {disk : Disk} (new : (disk.read project.traceFile).toOption = none) : Reached project book disk
  | edit {disk disk' : Disk} (h : Reached project book disk)
      (kept : (disk'.read project.traceFile).toOption = (disk.read project.traceFile).toOption) :
      Reached project book disk'
  | build {disk : Disk} {depth ts built} (h : Reached project book disk)
      (requested : ∀ t ∈ ts, ∀ rule, book.find t = .ok rule → project.IsArtifact t)
      (run : (Engine.resume book project.traceFile disk).build depth ts disk = some built) :
      Reached project book built.disk

/-- The traces in the trace file are such as builds leave. -/
theorem Reached.recorded (hroot : project.root.IsPlace) (hbook : project.rules = .ok book.rules)
    (hinj : Function.Injective book.digest) (h : project.Reached book disk) :
    project.Recorded book (TraceTable.load disk project.traceFile) := by
  induction h with
  | start new => exact TraceTable.load_eq_empty new ▸ .start
  | edit _ kept ih => exact TraceTable.load_congr kept ▸ ih
  | @build disk depth ts built _ requested run ih =>
    have hrecorded := ih.build requested run
    obtain ⟨failed, s, hrun, rfl⟩ := build_storing_eq_some.1 run
    have hserved := (Session.requireAll_served.1 _ _ hrun).1.mono requested
    have hremembers := fun {t trace} => @ih.remembers project book disk _ t trace hroot hbook hinj
    have hkept := kept_of_requested hroot hbook (resumes_of_remembers hinj hremembers) hserved
    have hload := @load_save project s.disk hroot (.storing book project.traceFile s.traces) rfl
    change project.Recorded book
      (TraceTable.load (s.traces.save project.traceFile s.disk).2 project.traceFile)
    rcases hload with hload | hload
    · have hplace := isPlace_traceFile (isPlace_outputRoot hroot.1)
      change TraceTable.load (s.traces.save project.traceFile s.disk).2 project.traceFile = _ at hload
      rw [hload, TraceTable.load_congr (read_of_rewritten hroot hplace (not_isArtifact_traceFile hroot)
        hkept.tended.reaches)]
      exact ih
    · change TraceTable.load (s.traces.save project.traceFile s.disk).2 project.traceFile = s.traces at hload
      rw [hload]
      exact hrecorded

/-- Whether two builds came to the same for the artifacts of sources. -/
structure Agrees (project : Project) (sources : Path → Prop) (built built' : Built) : Prop where
  /-- What they did, and which of the targets that were asked for failed, and why. -/
  report : built'.report = built.report
  /-- What was told. -/
  events : built'.events = built.events
  /-- Whether the traces could be stored. -/
  saved : built'.saved = built.saved
  /-- What the artifacts hold. -/
  read : ∀ {t}, project.IsArtifactOf sources t →
    (built'.disk.read t).toOption = (built.disk.read t).toOption
  /-- What traces the artifacts have. -/
  traces : ∀ {t}, project.IsArtifactOf sources t →
    built'.engine.traces.get? t = built.engine.traces.get? t
  /-- What traces of the artifacts are in the trace file. -/
  stored : ∀ {t}, project.IsArtifactOf sources t →
    (TraceTable.load built'.disk project.traceFile).get? t =
      (TraceTable.load built.disk project.traceFile).get? t

/-- Whatever was edited and built before, and however a sweep ends: a build of artifacts of sources that
    are there does the same right after the sweep as without it, if

    * these sources say to look for imports outside of the directory of the artifacts;
    * no file that was taken away stood where a directory with an artifact of such a source is to be.

    This build ends. -/
theorem agrees_after_sweep {ts : List Path} {result : Except Failure Sweep} (hroot : project.root.IsPlace)
    (hbook : project.rules = .ok book.rules) (hinj : Function.Injective book.digest)
    (h : project.Reached book disk) (hproper : disk.top.Proper)
    (hclear : ∀ F, project.Live disk F → ∀ p ∈ project.probes disk F, project.Outside p)
    (hsweep : Sweep.run project false disk = (result, swept))
    (hway : project.Unhindered disk swept)
    (hts : ∀ t ∈ ts, project.IsArtifactOf (project.Live disk) t) :
    (∃ depth, ∀ n ≥ depth, ∃ built,
      (Engine.resume book project.traceFile disk).build n ts disk = some built) ∧
    ∀ n built, (Engine.resume book project.traceFile disk).build n ts disk = some built →
      ∃ built', (Engine.resume book project.traceFile swept).build n ts swept = some built' ∧
        project.Agrees (project.Live disk) built built' := by
  have hrecorded := h.recorded hroot hbook hinj
  obtain ⟨gone, changed, hleaves⟩ := Sweep.exists_leaves hroot.1 hproper hsweep
  have hlawful := lawful_besideSwept hroot hbook hinj hrecorded hleaves hclear hway
  constructor
  · obtain ⟨depth, hdepth⟩ :=
      exists_requireAll hroot hbook ts disk (TraceTable.load disk project.traceFile)
    refine ⟨depth, fun n hn => ?_⟩
    obtain ⟨⟨failed, s⟩, hrun⟩ := hdepth n hn
    exact ⟨_, build_storing_eq_some.2 ⟨failed, s, hrun, rfl⟩⟩
  · intro n built hbuilt
    obtain ⟨failed, s, hrun, rfl⟩ := build_storing_eq_some.1 hbuilt
    have htogether := Mirror.requireAll_together (n := n) hlawful (fun t ht _ _ => hts t ht)
      (Mirror.alike_start ⟨hleaves.pruned, .start, .start⟩)
    obtain ⟨failed', s', hrun', hfailed, halike⟩ := htogether.exists_of_eq_some hrun
    obtain rfl : failed' = failed := hfailed
    have hkeys := hrecorded.isArtifact_of_mem_keys hroot hbook hinj
    obtain ⟨hsaved, hstored⟩ := save_swept hroot hleaves hkeys halike.near halike.traces
    refine ⟨_, build_storing_eq_some.2 ⟨failed', s', hrun', rfl⟩, ?_⟩
    have hsave : ∀ (s : Session) {t : Path}, project.IsArtifactOf (project.Live disk) t →
        ((builtIn book project.traceFile failed' s).disk.read t).toOption = (s.disk.read t).toOption := by
      intro s t ht
      have hartifact := isArtifact_of_live ht
      exact @read_save project s.disk hroot (.storing book project.traceFile s.traces)
        (fun _ h => (Option.some.inj h).symm) t (hartifact.isPlace hroot)
        fun heq => not_isArtifact_traceFile hroot (heq ▸ hartifact)
    exact {
      report := by
        rw [builtIn, builtIn, halike.stats, halike.graph]
      events := congrArg List.reverse halike.told
      saved := hsaved
      read := fun ht => by
        rw [hsave s' ht, hsave s ht, hlawful.read halike.near ht]
      traces := fun ht => halike.traces.get?_eq (hlawful.traces ht)
      stored := fun ht => hstored _ ht }

/-! ### After a source is taken away -/

/-- A disk without one of the files in the directory of the usual project. -/
def without (disk : Disk) (name : String) : Disk :=
  { disk with top := disk.top.modify (·.erase (.ofText name)) [.ofText "w"] }

/-- Stores traces in the trace file of the usual project. -/
def stored (traces : TraceTable) (disk : Disk) : Except IoFault Bool × Disk :=
  Disk.writeIfChanged usual.traceFile (.ofText (traces.written?.getD "")) disk

theorem save_stored {traces : TraceTable} {written : Bool} (hsome : traces.written?.isSome = true)
    (hok : (stored traces disk).1 = .ok written) :
    traces.save usual.traceFile disk = (.ok (), (stored traces disk).2) ∧
      TraceTable.load (stored traces disk).2 usual.traceFile = traces := by
  obtain ⟨text, htext⟩ := Option.isSome_iff_exists.1 hsome
  have hstored : stored traces disk = Disk.writeIfChanged usual.traceFile (.ofText text) disk := by
    rw [stored, htext]
    rfl
  have hsave : traces.save usual.traceFile disk = (.ok (), (stored traces disk).2) := by
    rw [hstored] at hok ⊢
    rw [TraceTable.save_of_text? (traces.text?_eq_written?.trans htext), hok]
    rfl
  obtain ⟨-, -, -, -, hload⟩ := TraceTable.save_again hsave
  exact ⟨hsave, hload⟩

/-- The trace file is read as before when a file is taken away. -/
theorem read_without {name : String} (hfile : disk.sight [.ofText "w", .ofText name] = .file c) :
    ((without disk name).read usual.traceFile).toOption = (disk.read usual.traceFile).toOption := by
  have hpruned : disk.Pruned (· = [.ofText "w"] ++ [.ofText name]) (fun _ => False) (without disk name) :=
    .erase hfile
  have htrace : usual.traceFile.IsPlace := by decide
  refine hpruned.toOption_read fun l hgoal => ⟨fun hl => ?_, id⟩
  have hlength := congrArg List.length ((Disk.steps_of_goal htrace hgoal).symm.trans hl)
  exact absurd hlength (by decide : usual.traceFile.steps.length ≠ 2)

/-- After a first build and the loss of a file, a build goes on with the traces of the first one. -/
theorem reached_without {name : String} {ts : List Path} {n : Nat} {failed : List (Path × Failure)}
    {s : Session} {written : Bool} (hts : ∀ t ∈ ts, usual.IsArtifact t)
    (hnew : (disk.read usual.traceFile).toOption = none)
    (hrun : Session.requireAll usualBook n ts { disk, traces := ∅ } = some (failed, s))
    (hsome : s.traces.written?.isSome = true) (hok : (stored s.traces s.disk).1 = .ok written)
    (hfile : (stored s.traces s.disk).2.sight [.ofText "w", .ofText name] = .file c) :
    ∃ before, (Engine.resume usualBook usual.traceFile disk).build n ts disk = some before ∧
      before.disk = (stored s.traces s.disk).2 ∧ usual.Reached usualBook (without before.disk name) ∧
      Engine.resume usualBook usual.traceFile (without before.disk name) =
        Engine.storing usualBook usual.traceFile s.traces := by
  obtain ⟨hsave, hload⟩ := save_stored hsome hok
  have hdisk : (builtIn usualBook usual.traceFile failed s).disk = (stored s.traces s.disk).2 := by
    rw [builtIn, hsave]
  have hbuild : (Engine.resume usualBook usual.traceFile disk).build n ts disk =
      some (builtIn usualBook usual.traceFile failed s) := by
    rw [Engine.resume, TraceTable.load_eq_empty hnew]
    exact build_storing_eq_some.2 ⟨failed, s, hrun, rfl⟩
  have hread := read_without hfile
  rw [← hdisk] at hread
  refine ⟨_, hbuild, hdisk, .edit (.build (.start hnew) (fun t ht _ _ => hts t ht) hbuild) hread, ?_⟩
  rw [Engine.resume, TraceTable.load_congr hread, hdisk, hload]

/-- The files below the root of the usual project, as paths from there. -/
def usualFiles (disk : Disk) : List Path :=
  (disk.top.walk (fun _ => true) []).filterMap fun l => (ofLocation l).stripStart? usual.root

theorem mem_usualFiles (hF : usual.Live disk F) : F ∈ usualFiles disk :=
  hF.1.mem_of_walk (by decide)

/-- Nothing is in the way of an artifact if no file there is. -/
theorem unhindered_of_files (h : ∀ F ∈ usualFiles disk, usual.Outside (usual.root.join F) →
      ∀ kind ∈ ArtifactKind.all, ∀ k ∈ disk.top.walk (fun _ => true) [],
        k <+: (kind.artifact usual.outputRoot F).steps → k = (kind.artifact usual.outputRoot F).steps) :
    usual.Unhindered disk swept := by
  intro kind F hF l c hs _ hprefix
  exact h F (mem_usualFiles hF) hF.2 kind (by cases kind <;> decide) l (Dir.mem_walk_of_sight [] hs) hprefix

/-- A source that is on a cycle and imports another one. -/
def fringed : Disk where
  top := .dir (.ofText "w") (.file (.ofText "a.c") (.ofText "#include \"b.c\"\n#include \"c.c\"")
    (.file (.ofText "b.c") (.ofText "") (.file (.ofText "c.c") (.ofText "#include \"a.c\"") .empty))) .empty

/-- The import is taken away, and then its artifacts. -/
theorem agrees_after_sweep_fringed : ∃ before : Built,
    (Engine.resume usualBook usual.traceFile fringed).build 6 [usualArtifact .transitive "a.c"] fringed =
      some before ∧
    let disk := without before.disk "b.c"
    let swept := (Sweep.run usual false disk).2
    let targets := [usualArtifact .transitive "a.c"]
    usual.Reached usualBook disk ∧ disk.top.Proper ∧
    (∀ F, usual.Live disk F → ∀ p ∈ usual.probes disk F, usual.Outside p) ∧
    usual.Unhindered disk swept ∧ (∀ t ∈ targets, usual.IsArtifactOf (usual.Live disk) t) ∧
    disk.isFile (usualArtifact .direct "b.c") = true ∧
    Sweep.isOrphan usual disk (usualArtifact .direct "b.c") = true ∧
    (∃ depth, ∀ n ≥ depth, ∃ built,
      (Engine.resume usualBook usual.traceFile disk).build n targets disk = some built) ∧
    ∀ n built, (Engine.resume usualBook usual.traceFile disk).build n targets disk = some built →
      ∃ built', (Engine.resume usualBook usual.traceFile swept).build n targets swept = some built' ∧
        usual.Agrees (usual.Live disk) built built' := by
  have hrun : (Session.requireAll usualBook 6 [usualArtifact .transitive "a.c"]
      { disk := fringed, traces := ∅ }).any (fun ended : List (Path × Failure) × Session =>
        let s := ended.2
        let disk := without (stored s.traces s.disk).2 "b.c"
        decide ((s.traces.written?.isSome = true ∧ (stored s.traces s.disk).1 = .ok true ∧
          (stored s.traces s.disk).2.sight [.ofText "w", .ofText "b.c"] = .file (.ofText "")) ∧
          disk.top.Proper ∧
          (∀ F ∈ usualFiles disk, usual.Outside (usual.root.join F) →
            (∀ p ∈ usual.probes disk F, usual.Outside p) ∧
            ∀ kind ∈ ArtifactKind.all, ∀ k ∈ disk.top.walk (fun _ => true) [],
              k <+: (kind.artifact usual.outputRoot F).steps →
                k = (kind.artifact usual.outputRoot F).steps) ∧
          disk.isFile (usual.root.join (.ofText "a.c")) = true ∧
          disk.isFile (usualArtifact .direct "b.c") = true ∧
          Sweep.isOrphan usual disk (usualArtifact .direct "b.c") = true)) = true := by
    decide +kernel
  obtain ⟨⟨failed, s⟩, hsession, hfacts⟩ := (Option.any_eq_true _ _).1 hrun
  obtain ⟨⟨hsome, hok, hfile⟩, hproper, hfiles, hpresent, hartifact, horphan⟩ := of_decide_eq_true hfacts
  obtain ⟨before, hbuild, hdisk, hreached, -⟩ :=
    reached_without (isArtifact_usual .transitive ["a.c"] (by decide)) (by decide) hsession hsome hok hfile
  rw [← hdisk] at hproper hfiles hpresent hartifact horphan
  have hclear : ∀ F, usual.Live (without before.disk "b.c") F →
      ∀ p ∈ usual.probes (without before.disk "b.c") F, usual.Outside p :=
    fun F hF => (hfiles F (mem_usualFiles hF) hF.2).1
  have hway : usual.Unhindered (without before.disk "b.c")
      (Sweep.run usual false (without before.disk "b.c")).2 :=
    unhindered_of_files fun F hF hout => (hfiles F hF hout).2
  have hlive : ∀ t ∈ [usualArtifact .transitive "a.c"],
      usual.IsArtifactOf (usual.Live (without before.disk "b.c")) t :=
    List.forall_mem_singleton.2 ⟨.transitive, .ofText "a.c", ⟨⟨by decide, hpresent⟩, by decide⟩, rfl⟩
  exact ⟨before, hbuild, hreached, hproper, hclear, hway, hlive, hartifact, horphan,
    agrees_after_sweep (by decide) rules_usual Content.spelled_injective hreached hproper hclear
      (Prod.ext rfl rfl) hway hlive⟩

/-- How many of some targets fail in a session. -/
def failing (ts : List Path) (traces : TraceTable) (disk : Disk) : Option Nat :=
  (Session.requireAll usualBook 3 ts { disk, traces }).map fun ended => ended.2.stats.failed

/-- A build that goes on with such traces fails as often as the session. -/
theorem exists_build_of_failing {ts : List Path} {traces : TraceTable} {n : Nat}
    (h : failing ts traces disk = some n)
    (hresume : Engine.resume usualBook usual.traceFile disk = .storing usualBook usual.traceFile traces) :
    ∃ built, (Engine.resume usualBook usual.traceFile disk).build 3 ts disk = some built ∧
      built.report.stats.failed = n := by
  obtain ⟨⟨failed, s⟩, hrun, rfl⟩ := Option.map_eq_some_iff.1 h
  exact ⟨_, hresume ▸ build_storing_eq_some.2 ⟨failed, s, hrun, rfl⟩, rfl⟩

/-- A sweep that finds one artifact, whose source is gone, takes its trace away with it. -/
theorem run_stored {entry : ArtifactEntry} {traces kept : TraceTable} {bare : Disk} {written : Bool}
    (hartifacts : usual.artifacts disk = [entry]) (hplace : entry.path.IsPlace)
    (hne : usual.traceFile.steps ≠ entry.path.steps)
    (hbare : (Sweep.artifacts usual false [entry] disk).2 = bare)
    (hload : TraceTable.load disk usual.traceFile = traces)
    (horphans : traces.keys.filter (Sweep.isOrphan usual bare) = [entry.path])
    (hkept : traces.erase entry.path = kept) (hsome : kept.written?.isSome = true)
    (hok : (stored kept bare).1 = .ok written) :
    (∃ result, Sweep.run usual false disk = (result, (stored kept bare).2)) ∧
      Engine.resume usualBook usual.traceFile (stored kept bare).2 =
        .storing usualBook usual.traceFile kept := by
  obtain ⟨hsave, hstored⟩ := save_stored hsome hok
  have htrace : usual.traceFile.IsPlace := by decide
  have hplaces : ∀ e ∈ [entry], e.path.IsPlace := List.forall_mem_singleton.2 hplace
  obtain ⟨gone, hpruned, hgone⟩ := @Sweep.artifacts_pruned usual [entry] hplaces disk
  rw [hbare] at hpruned hgone
  have hloaded : TraceTable.load bare usual.traceFile = traces := by
    refine (TraceTable.load_congr (hpruned.toOption_read fun l hgoal => ⟨fun hl => ?_, id⟩)).trans hload
    obtain ⟨e, he, heq, -⟩ := hgone l hl
    obtain rfl := List.mem_singleton.1 he
    exact hne ((Disk.steps_of_goal htrace hgoal).symm.trans heq.symm)
  have hforget : Sweep.forget usual [entry.path] bare = kept.save usual.traceFile bare := by
    rw [Sweep.forget, hloaded, ← hkept]
    rfl
  refine ⟨⟨(Sweep.run usual false disk).1, Prod.ext rfl ?_⟩, by rw [Engine.resume, hstored]⟩
  have hswept : Sweep.artifacts usual false (usual.artifacts disk) disk =
      ((Sweep.artifacts usual false [entry] disk).1, bare) := by
    rw [hartifacts, ← hbare]
  rw [Sweep.run_of_artifacts hswept (hloaded ▸ horphans), Bool.false_or, List.isEmpty_cons,
    if_neg Bool.false_ne_true, hforget, hsave]

/-- Two sources, one of which is in a directory with the name of an artifact of the other one. -/
def crowded : Disk where
  top := .dir (.ofText "w") (.file (.ofText "d.c") (.ofText "") (.dir (.ofText "d.c.directImports")
    (.file (.ofText "y.c") (.ofText "") .empty) .empty)) .empty

/-- The artifact of a source that is gone is a file where the directory with an artifact of another source
    is to be, until a sweep takes it away. -/
theorem exists_unhindered_build : ∃ (before built built' : Built) (result : Except Failure Sweep)
    (swept : Disk),
    (Engine.resume usualBook usual.traceFile crowded).build 3 [usualArtifact .direct "d.c"] crowded =
      some before ∧
    let disk := without before.disk "d.c"
    let target := usualArtifact .direct "d.c.directImports/y.c"
    usual.Reached usualBook disk ∧ disk.top.Proper ∧
    (∀ F, usual.Live disk F → ∀ p ∈ usual.probes disk F, usual.Outside p) ∧
    usual.IsArtifactOf (usual.Live disk) target ∧
    Sweep.run usual false disk = (result, swept) ∧
    (Engine.resume usualBook usual.traceFile disk).build 3 [target] disk = some built ∧
    (Engine.resume usualBook usual.traceFile swept).build 3 [target] swept = some built' ∧
    built.report.stats.failed = 1 ∧ built'.report.stats.failed = 0 := by
  have hrun : (Session.requireAll usualBook 3 [usualArtifact .direct "d.c"]
      { disk := crowded, traces := ∅ }).any (fun ended : List (Path × Failure) × Session =>
        let s := ended.2
        let disk := without (stored s.traces s.disk).2 "d.c"
        let entry : ArtifactEntry := ⟨.direct, .ofText "d.c", usualArtifact .direct "d.c"⟩
        let bare := (Sweep.artifacts usual false [entry] disk).2
        let kept : TraceTable := s.traces.erase entry.path
        let fails := failing [usualArtifact .direct "d.c.directImports/y.c"]
        decide ((s.traces.written?.isSome = true ∧ (stored s.traces s.disk).1 = .ok true ∧
          (stored s.traces s.disk).2.sight [.ofText "w", .ofText "d.c"] = .file (.ofText "")) ∧
          disk.top.Proper ∧
          (∀ F ∈ usualFiles disk, usual.Outside (usual.root.join F) →
            ∀ p ∈ usual.probes disk F, usual.Outside p) ∧
          (disk.isFile (usual.root.join (.ofText "d.c.directImports/y.c")) = true) ∧
          disk.filesBelow (fun _ => true) usual.outputRoot =
            [.ofText "d.c.directImports", .ofText ".depcache-traces.json"] ∧
          s.traces.keys.filter (Sweep.isOrphan usual bare) = [entry.path] ∧
          (kept.written?.isSome = true ∧ (stored kept bare).1 = .ok true) ∧
          fails s.traces disk = some 1 ∧ fails kept (stored kept bare).2 = some 0)) = true := by
    decide +kernel
  obtain ⟨⟨failed, s⟩, hsession, hfacts⟩ := (Option.any_eq_true _ _).1 hrun
  obtain ⟨⟨hsome, hok, hfile⟩, hproper, hclear, hpresent, hfiles, horphans, ⟨hsome', hok'⟩, hfail, hfail'⟩ :=
    of_decide_eq_true hfacts
  obtain ⟨before, hbuild, hdisk, hreached, hresume⟩ :=
    reached_without (isArtifact_usual .direct ["d.c"] (by decide)) (by decide) hsession hsome hok hfile
  rw [← hdisk] at hproper hclear hpresent hfiles horphans hok' hfail hfail'
  have hartifacts : usual.artifacts (without before.disk "d.c") =
      [⟨.direct, .ofText "d.c", usualArtifact .direct "d.c"⟩] := by
    rw [Project.artifacts, hfiles]
    refine List.perm_singleton.1 (((List.mergeSort_perm _ _).filterMap _).trans (.of_eq ?_))
    decide
  obtain ⟨⟨result, hswept⟩, hresume'⟩ := run_stored hartifacts (by decide) (by decide) rfl
    (congrArg Engine.traces hresume) horphans rfl hsome' hok'
  obtain ⟨built, hbuilt, hfailed⟩ := exists_build_of_failing hfail hresume
  obtain ⟨built', hbuilt', hfailed'⟩ := exists_build_of_failing hfail' hresume'
  have houtside : usual.Outside (usual.root.join (.ofText "d.c.directImports/y.c")) := by decide
  exact ⟨before, built, built', _, _, hbuild, hreached, hproper,
    fun F hF => hclear F (mem_usualFiles hF) hF.2,
    ⟨.direct, _, ⟨⟨by decide, hpresent⟩, houtside⟩, rfl⟩, hswept, hbuilt, hbuilt',
    hfailed, hfailed'⟩

end Project

end ImportIndex
