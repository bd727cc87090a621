import ImportIndex.Proofs.Artifact.Sweep
import ImportIndex.Proofs.FileTree.Spared

/-!
# What a sweep leaves

However a sweep ends, it took away nothing but artifacts whose sources are no files after it, and the
trace file tells the traces that it told before, but perhaps for those of artifacts whose sources are no
files (`Sweep.exists_leaves`).
-/

namespace ImportIndex.Sweep

open Path

variable {project : Project} {disk disk' swept : Disk} {e : ArtifactEntry} {entries : List ArtifactEntry}
  {gone changed : Location → Prop} {source t : Path} {result : Except Failure Sweep}

/-- A source that is gone does not come back when files are taken away. -/
theorem isGone_mono (h : disk.Pruned gone changed disk') (hgone : isGone project disk source = true) :
    isGone project disk' source = true := by
  rw [isGone, Bool.not_eq_true'] at hgone ⊢
  refine Bool.eq_false_iff.2 fun hfile => ?_
  rw [(h.isFile_iff.1 hfile).1] at hgone
  cases hgone

theorem isOrphan_mono (h : disk.Pruned gone changed disk') (horphan : isOrphan project disk t = true) :
    isOrphan project disk' t = true := by
  rw [isOrphan, Option.any_eq_true] at horphan ⊢
  obtain ⟨e, he, hgone⟩ := horphan
  exact ⟨e, he, isGone_mono h hgone⟩

/-! ### Artifacts -/

/-- An artifact is taken away if its source is gone, or it stays. -/
theorem artifact_cases (he : e.path.IsPlace) (disk : Disk) :
    (artifact project false e disk).2 = disk ∨ isGone project disk e.source = true ∧
      disk.Pruned (· = e.path.steps) (fun _ => False) (artifact project false e disk).2 := by
  by_cases hgone : isGone project disk e.source = true
  · obtain ⟨l, hl, hplace⟩ := he.exists_eq
    have hremove := Disk.removeFile_cases hl disk
    rw [← hplace] at hremove
    rcases hremove with ⟨fault, hremove⟩ | ⟨disk', hremove, hpruned⟩
    · left
      simp [artifact, hgone, hremove]
    · right
      rw [hplace, steps_ofLocation hl]
      simpa [artifact, hgone, hremove] using hpruned
  · left
    simp [artifact, hgone]

/-- What is taken away are some of the artifacts that are looked at, whose sources are gone in the end. -/
theorem artifacts_pruned (hplaces : ∀ e ∈ entries, e.path.IsPlace) (disk : Disk) : ∃ gone,
    disk.Pruned gone (fun _ => False) (artifacts project false entries disk).2 ∧
      ∀ l, gone l → ∃ e ∈ entries, e.path.steps = l ∧
        isGone project (artifacts project false entries disk).2 e.source = true := by
  induction entries generalizing disk with
  | nil => exact ⟨_, .refl, fun _ => False.elim⟩
  | cons e entries ih =>
    rw [List.forall_mem_cons] at hplaces
    obtain ⟨gone, hrest, hgone⟩ := ih hplaces.2 (artifact project false e disk).2
    rw [artifacts_cons]
    have hlater : ∀ l, gone l → ∃ e' ∈ e :: entries, e'.path.steps = l ∧
        isGone project (artifacts project false entries (artifact project false e disk).2).2 e'.source =
          true := fun l hl => (hgone l hl).imp fun e' he' => ⟨List.mem_cons_of_mem _ he'.1, he'.2⟩
    rcases artifact_cases hplaces.1 disk with hstay | ⟨hsource, hfirst⟩
    · rw [hstay] at hrest hlater ⊢
      exact ⟨gone, hrest, hlater⟩
    · refine ⟨_, hfirst.trans hrest, fun l hl => hl.elim (fun hl => ?_) (hlater l)⟩
      exact ⟨e, List.mem_cons_self, hl.symm, isGone_mono hrest (isGone_mono hfirst hsource)⟩

/-! ### Traces -/

/-- What is left where traces were to be taken out of the trace file: nothing was written, or the file
    tells the others. -/
theorem forget_cases (targets : List Path) (htrace : project.traceFile.IsPlace)
    (hsome : TraceTable.load disk project.traceFile ≠ ∅) :
    (disk.Pruned (fun _ => False) (fun _ => False) (forget project targets disk).2) ∨
      (∀ step, disk.refuses project.traceFile step = none) ∧
        disk.Pruned (fun _ => False) (· = project.traceFile.steps) (forget project targets disk).2 ∧
        TraceTable.load (forget project targets disk).2 project.traceFile =
          targets.foldl PathTable.erase (TraceTable.load disk project.traceFile) := by
  obtain ⟨l, hl, hplace⟩ := htrace.exists_eq
  obtain ⟨c, hread⟩ := exists_read_of_load hsome
  obtain ⟨text, htext⟩ := exists_text?_erased targets disk project.traceFile
  rw [hplace] at hread
  have hs := ((Disk.read_ofLocation_eq_ok_iff hl).1 hread).2
  have hpruned : disk.Pruned (fun _ => False) (· = l)
      (Disk.writeIfChanged (ofLocation l) (.ofText text) disk).2 := .write hl hs
  rw [forget, TraceTable.save_of_text? htext, hplace, steps_ofLocation hl]
  rcases hwrite : Disk.writeIfChanged (ofLocation l) (.ofText text) disk with ⟨fault | written, disk'⟩
  · rw [hwrite] at hpruned
    exact .inl (hpruned.unchanged fun k d _ hk => (Disk.sight_of_writeIfChanged_error hwrite k d).2 hk)
  · cases written with
    | false =>
      rcases Disk.writeIfChanged_cases Disk.lands_true trivial hwrite with
        ⟨-, -, rfl⟩ | ⟨_, hr, -⟩ | ⟨_, hr, -⟩
      · exact .inl .refl
      · cases hr
      · cases hr
    | true =>
      rw [hwrite] at hpruned
      refine .inr ⟨Disk.refuses_of_writeIfChanged hwrite, hpruned, ?_⟩
      rw [← hplace] at hwrite ⊢
      refine TraceTable.load_of_stored htext ?_
      simp [Disk.readText, Disk.read_of_writeIfChanged hwrite, Content.toText?_ofText]

/-! ### Sweeps -/

/-- What there is after a sweep. -/
structure Leaves (project : Project) (disk : Disk) (gone changed : Location → Prop) (swept : Disk) :
    Prop where
  /-- Files were taken away, and others may have been rewritten. -/
  pruned : disk.Pruned gone changed swept
  /-- What was taken away are artifacts whose sources are no files. -/
  removed : ∀ l, gone l → (∀ n ∈ l, IsName n) ∧ isOrphan project swept (ofLocation l) = true
  /-- Nothing but the trace file was rewritten. -/
  rewrote : ∀ l, changed l → l = project.traceFile.steps
  /-- If it was not, it tells the same traces. If it was, it can be written, and traces of artifacts whose
      sources are no files were taken out of it. -/
  traces : ((∀ l, ¬ changed l) ∧
      TraceTable.load swept project.traceFile = TraceTable.load disk project.traceFile) ∨
    (∃ c, disk.read project.traceFile = .ok c) ∧ (∀ step, disk.refuses project.traceFile step = none) ∧
      ∃ orphans : List Path,
        (∀ t ∈ orphans, t ∈ (TraceTable.load disk project.traceFile).keys ∧
          isOrphan project swept t = true) ∧
        TraceTable.load swept project.traceFile =
          orphans.foldl PathTable.erase (TraceTable.load disk project.traceFile)

/-- Whatever a sweep comes to, this is what it leaves. -/
theorem exists_leaves (hroot : project.root.isAbsolute = true) (hproper : disk.top.Proper)
    (h : run project false disk = (result, swept)) :
    ∃ gone changed, Leaves project disk gone changed swept := by
  have hout : project.outputRoot.IsPlace := Project.isPlace_outputRoot hroot
  have htrace : project.traceFile.IsPlace := Project.isPlace_traceFile hout
  obtain ⟨o, ho, houtput⟩ := hout.exists_eq
  have hplaces : ∀ e ∈ project.artifacts disk, e.path.IsPlace := fun e he => by
    obtain ⟨hmem, -⟩ := mem_artifacts_iff.1 he
    rw [houtput] at hmem
    obtain ⟨m, -, -, hm, hpath, -⟩ := Disk.exists_of_mem_filesAt ho hproper hmem
    exact hpath ▸ isPlace_ofLocation hm
  obtain ⟨gone, hpruned, hgone⟩ := @artifacts_pruned project _ hplaces disk
  rw [run_of_artifacts rfl rfl, Bool.false_or] at h
  generalize (artifacts project false (project.artifacts disk) disk).2 = first at h hpruned hgone
  have horphan : ∀ l, gone l → (∀ n ∈ l, IsName n) ∧ isOrphan project first (ofLocation l) = true := by
    intro l hl
    obtain ⟨e, he, rfl, hsource⟩ := hgone l hl
    obtain ⟨l, hl, hpath⟩ := (hplaces e he).exists_eq
    rw [Disk.ofLocation_steps (hplaces e he), hpath, steps_ofLocation hl, ← hpath, isOrphan,
      (mem_artifacts_iff.1 he).2]
    exact ⟨hl, hsource⟩
  -- The trace file is no artifact.
  have hkept : ¬ gone project.traceFile.steps := fun hl => by
    have hclass := (horphan _ hl).2
    rw [Disk.ofLocation_steps htrace, isOrphan, classify?_traceFile hout] at hclass
    cases hclass
  have hread : (first.read project.traceFile).toOption = (disk.read project.traceFile).toOption :=
    hpruned.toOption_read fun l hl => ⟨Disk.steps_of_goal htrace hl ▸ hkept, id⟩
  have hload := TraceTable.load_congr hread
  have hrefuses := hpruned.refuses
  split at h
  · obtain rfl := (Prod.mk.inj h).2
    exact ⟨gone, _, hpruned, horphan, fun _ => False.elim, .inl ⟨fun _ => id, hload⟩⟩
  · next hsome =>
    obtain rfl := (Prod.mk.inj h).2
    have hloaded : TraceTable.load first project.traceFile ≠ ∅ := by
      intro hnone
      rw [hnone] at hsome
      exact hsome rfl
    obtain ⟨c, hc⟩ := exists_read_of_load (hload ▸ hloaded)
    obtain ⟨orphans, horphans⟩ : ∃ orphans, orphans =
        (TraceTable.load first project.traceFile).keys.filter (isOrphan project first) := ⟨_, rfl⟩
    rw [← horphans]
    have hmem : ∀ t ∈ orphans, t ∈ (TraceTable.load disk project.traceFile).keys ∧
        isOrphan project first t = true := fun t ht => by
      rw [horphans, List.mem_filter, hload] at ht
      exact ht
    rcases forget_cases orphans htrace hloaded with hforget | ⟨hfree, hforget, hforgotten⟩
    · have hlast := hpruned.trans hforget
      have hsame := TraceTable.load_congr (hforget.toOption_read (p := project.traceFile) fun _ _ => ⟨id, id⟩)
      exact ⟨gone, _, hlast.congr (fun l => or_iff_left id) fun _ => id,
        fun l hl => (horphan l hl).imp_right (isOrphan_mono hforget), fun _ => False.elim,
        .inl ⟨fun _ => id, hsame.trans hload⟩⟩
    · have hlast := (hpruned.congr (fun _ => Iff.rfl) fun _ => False.elim).trans hforget
      refine ⟨gone, _, hlast.congr (fun l => or_iff_left id) fun _ => id,
        fun l hl => (horphan l hl).imp_right (isOrphan_mono hforget), fun _ => id,
        .inr ⟨⟨c, hc⟩, hrefuses ▸ hfree, orphans, fun t ht => ?_, hload ▸ hforgotten⟩⟩
      exact (hmem t ht).imp_right (isOrphan_mono hforget)

end ImportIndex.Sweep
