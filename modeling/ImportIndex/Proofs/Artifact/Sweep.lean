import Mathlib
import ImportIndex.Artifact.Sweep
import ImportIndex.Proofs.Artifact.Spelling
import ImportIndex.Proofs.Build.History
import ImportIndex.Proofs.Build.Storing
import ImportIndex.Proofs.FileTree.Removal

/-!
# What a sweep removes

A sweep looks at each artifact on the disk once, and takes away those whose sources are gone, and then
their traces. As long as no artifact is itself the source of another one, what it takes away is no
reason to take away more: a sweep does what it tells when it is rehearsed, and a second one finds
nothing to do (`Sweep.run_exact`).
-/

namespace ImportIndex

open Path

namespace Disk

variable {disk : Disk} {p : Path} {l : Location}

/-- Whether a path is a place that can be used and a file is seen there. -/
structure Has (disk : Disk) (p : Path) : Prop where
  /-- The path is a place. -/
  place : p.IsPlace
  /-- The place can be used. -/
  usable : Usable p.steps
  /-- A file is there. -/
  seen : ∃ c, disk.sight p.steps = .file c

theorem ofLocation_steps (h : p.IsPlace) : ofLocation p.steps = p := by
  obtain ⟨l, hl, rfl⟩ := h.exists_eq
  rw [steps_ofLocation hl]

theorem steps_of_goal (h : p.IsPlace) (hgoal : disk.goal p = .ok l) : l = p.steps := by
  obtain ⟨m, hm, rfl⟩ := h.exists_eq
  rw [steps_ofLocation hm, goal_ofLocation hm hgoal]

/-- A file at a place is taken away, and nothing else changes. -/
theorem Has.removeFile (h : disk.Has p) : ∃ disk', removeFile p disk = (.ok (), disk') ∧
    Pruned (· = p.steps) (fun _ => False) disk disk' ∧ (disk.top.Proper → disk'.top.Proper) := by
  obtain ⟨l, hl, rfl⟩ := h.place.exists_eq
  obtain ⟨hu, c, hs⟩ := And.intro h.usable h.seen
  rw [steps_ofLocation hl] at hu hs ⊢
  obtain ⟨l, n, rfl⟩ := List.eq_nil_or_concat l |>.resolve_left fun hnil => by
    rw [hnil, sight, Dir.sight_nil] at hs
    cases hs
  rw [List.concat_eq_append] at *
  exact ⟨_, removeFile_ofLocation hl hu hs, .erase hs, fun hd => hd.modify fun _ hd => hd.erase⟩

end Disk

namespace Sweep

variable {project : Project} {disk disk' : Disk} {e : ArtifactEntry} {entries : List ArtifactEntry}
  {gone changed : Location → Prop} {source t p : Path}

/-! ### Artifacts -/

/-- What a sweep of artifacts tells if their sources and their sizes are as on this disk. -/
def due (project : Project) (disk : Disk) (entries : List ArtifactEntry) : Sweep :=
  let gone := entries.filter fun e => isGone project disk e.source
  { scanned := entries.length, removed := gone.map (·.path),
    freed := (gone.map fun e => fileSize disk e.path).sum }

theorem append_def (first second : Sweep) : first ++ second =
    { scanned := first.scanned + second.scanned, removed := first.removed ++ second.removed,
      freed := first.freed + second.freed, forgotten := first.forgotten + second.forgotten } := rfl

theorem due_cons : due project disk (e :: entries) =
    (if isGone project disk e.source then
      { scanned := 1, removed := [e.path], freed := fileSize disk e.path } else { scanned := 1 }) ++
      due project disk entries := by
  by_cases h : isGone project disk e.source = true <;> simp [due, h, append_def, Nat.add_comm]

theorem due_congr (h : ∀ e ∈ entries, isGone project disk' e.source = isGone project disk e.source ∧
    fileSize disk' e.path = fileSize disk e.path) :
    due project disk' entries = due project disk entries := by
  induction entries with
  | nil => rfl
  | cons e entries ih =>
    rw [List.forall_mem_cons] at h
    rw [due_cons, due_cons, h.1.1, h.1.2, ih h.2]

theorem artifacts_cons (rehearsal : Bool) : artifacts project rehearsal (e :: entries) disk =
    ((artifact project rehearsal e disk).1 ++
        (artifacts project rehearsal entries (artifact project rehearsal e disk).2).1,
      (artifacts project rehearsal entries (artifact project rehearsal e disk).2).2) := rfl

/-- A rehearsed sweep tells what is due, and leaves the disk as it is. -/
theorem artifacts_rehearsed :
    artifacts project true entries disk = (due project disk entries, disk) := by
  induction entries with
  | nil => rfl
  | cons e entries ih =>
    have hfirst : artifact project true e disk = (if isGone project disk e.source then
        { scanned := 1, removed := [e.path], freed := fileSize disk e.path } else { scanned := 1 },
        disk) := by
      by_cases h : isGone project disk e.source = true <;> simp [artifact, h]
    rw [artifacts_cons, hfirst, ih, due_cons]

theorem isGone_pruned (h : disk.Pruned gone changed disk')
    (hs : ∀ l, disk.goal (project.root.join source) = .ok l → ¬ gone l) :
    isGone project disk' source = isGone project disk source := by
  have hfile : disk'.isFile (project.root.join source) = disk.isFile (project.root.join source) :=
    Bool.eq_iff_iff.2 (h.isFile_iff.trans (and_iff_left hs))
  rw [isGone, isGone, hfile]

theorem fileSize_congr (h : (disk'.read p).toOption = (disk.read p).toOption) :
    fileSize disk' p = fileSize disk p := by
  have hsize : ∀ disk : Disk, fileSize disk p = ((disk.read p).toOption.map (·.size)).getD 0 := by
    intro disk
    rw [fileSize]
    cases disk.read p <;> rfl
  rw [hsize, hsize, h]

/-- A sweep of different artifacts takes away what is due, if none of them is the source of another
    one. -/
theorem artifacts_swept (hd : disk.top.Proper) (hhas : ∀ e ∈ entries, disk.Has e.path)
    (hne : entries.Pairwise fun e e' => e.path ≠ e'.path)
    (hapart : ∀ e ∈ entries, ∀ e' ∈ entries,
      disk.goal (project.root.join e'.source) ≠ .ok e.path.steps) :
    ∃ disk', artifacts project false entries disk = (due project disk entries, disk') ∧
      disk.Pruned (fun l => ∃ e ∈ entries, isGone project disk e.source = true ∧ e.path.steps = l)
        (fun _ => False) disk' ∧ disk'.top.Proper := by
  induction entries generalizing disk with
  | nil => exact ⟨disk, rfl, Disk.Pruned.refl.congr (by simp) fun _ => id, hd⟩
  | cons e entries ih =>
    rw [List.pairwise_cons] at hne
    have hrest := List.forall_mem_cons.1 hhas
    by_cases hgone : isGone project disk e.source = true
    · obtain ⟨removed, hremove, hpruned, hproper⟩ := hrest.1.removeFile
      have hfirst : artifact project false e disk =
          ({ scanned := 1, removed := [e.path], freed := fileSize disk e.path }, removed) := by
        simp [artifact, hgone, hremove]
      -- The others are as before.
      have hsteps : ∀ e' ∈ entries, e'.path.steps ≠ e.path.steps := fun e' he' heq =>
        hne.1 e' he' (by rw [← Disk.ofLocation_steps hrest.1.place, ← heq,
          Disk.ofLocation_steps (hrest.2 e' he').place])
      have hsame : ∀ e' ∈ entries,
          isGone project removed e'.source = isGone project disk e'.source ∧
            fileSize removed e'.path = fileSize disk e'.path := by
        refine fun e' he' => ⟨isGone_pruned hpruned fun l hl heq => ?_,
          fileSize_congr (hpruned.toOption_read fun l hl => ⟨fun heq => ?_, id⟩)⟩
        · exact hapart e List.mem_cons_self e' (List.mem_cons_of_mem _ he') (heq ▸ hl)
        · exact hsteps e' he' (Disk.steps_of_goal (hrest.2 e' he').place hl ▸ heq)
      have hhas' : ∀ e' ∈ entries, removed.Has e'.path := fun e' he' =>
        ⟨(hrest.2 e' he').place, (hrest.2 e' he').usable, by
          rw [hpruned.sight_eq (hsteps e' he') id]
          exact (hrest.2 e' he').seen⟩
      obtain ⟨disk', hrun, hpruned', hproper'⟩ :=
        ih (hproper hd) hhas' hne.2 fun e he e' he' hgoal =>
          hapart e (List.mem_cons_of_mem _ he) e' (List.mem_cons_of_mem _ he')
            (hpruned.goal_eq_ok_iff.1 hgoal).1
      refine ⟨disk', ?_, ?_, hproper'⟩
      · rw [artifacts_cons, hfirst, hrun, due_cons, if_pos hgone, due_congr hsame]
      · refine (hpruned.trans hpruned').congr (fun l => ?_) fun _ => id
        rw [List.exists_mem_cons_iff, and_iff_right hgone]
        refine or_congr eq_comm (exists_congr fun e' => and_congr_right fun he' => ?_)
        rw [(hsame e' he').1]
    · have hfirst : artifact project false e disk = ({ scanned := 1 }, disk) := by
        simp [artifact, hgone]
      obtain ⟨disk', hrun, hpruned, hproper⟩ := ih hd hrest.2 hne.2 fun e he e' he' =>
        hapart e (List.mem_cons_of_mem _ he) e' (List.mem_cons_of_mem _ he')
      refine ⟨disk', ?_, hpruned.congr (fun l => by simp [hgone]) fun _ => id, hproper⟩
      rw [artifacts_cons, hfirst, hrun, due_cons, if_neg hgone]

/-- Artifacts whose sources are there stay. -/
theorem artifacts_of_not_gone {rehearsal : Bool}
    (h : ∀ e ∈ entries, isGone project disk e.source = false) :
    artifacts project rehearsal entries disk = ({ scanned := entries.length }, disk) := by
  induction entries with
  | nil => rfl
  | cons e entries ih =>
    rw [List.forall_mem_cons] at h
    have hfirst : artifact project rehearsal e disk = ({ scanned := 1 }, disk) := by
      simp [artifact, h.1]
    rw [artifacts_cons, hfirst, ih h.2, append_def]
    simp [Nat.add_comm]

/-! ### The artifacts on a disk -/

theorem isOrphan_iff : isOrphan project disk t = true ↔ ∃ kind source,
    ArtifactKind.classify? project.outputRoot t = some (kind, source) ∧
      disk.isFile (project.root.join source) = false := by
  rw [isOrphan, Option.any_eq_true]
  constructor
  · rintro ⟨⟨kind, source⟩, hclass, hgone⟩
    exact ⟨kind, source, hclass, by simpa [isGone] using hgone⟩
  · rintro ⟨kind, source, hclass, hgone⟩
    exact ⟨(kind, source), hclass, by simpa [isGone] using hgone⟩

/-- Whether a file at a location is an artifact, whatever its source is. -/
def HasArtifact (project : Project) (disk : Disk) (l : Location) : Prop :=
  (∃ c, disk.sight l = .file c) ∧ ∃ kind source,
    ArtifactKind.classify? project.outputRoot (ofLocation l) = some (kind, source)

/-- Whether a file at a location is an artifact whose source is no file. -/
def Orphaned (project : Project) (disk : Disk) (l : Location) : Prop :=
  (∃ c, disk.sight l = .file c) ∧ ∃ kind source,
    ArtifactKind.classify? project.outputRoot (ofLocation l) = some (kind, source) ∧
      disk.isFile (project.root.join source) = false

/-- Whether a target has a trace, or is an artifact on the disk. -/
def Told (project : Project) (disk : Disk) (t : Path) : Prop :=
  t ∈ (TraceTable.load disk project.traceFile).keys ∨
    ∃ l, HasArtifact project disk l ∧ t = ofLocation l

/-- Whether a sweep can go as it should. -/
structure Sweepable (project : Project) (disk : Disk) : Prop where
  /-- The root directory of the project is given by an absolute path. -/
  root : project.root.isAbsolute = true
  /-- Entries side by side have different names. -/
  proper : disk.top.Proper
  /-- No path of an artifact is too long. -/
  usable : ∀ l, HasArtifact project disk l → Disk.Usable l
  /-- The trace file can be written. -/
  refuses : ∀ step, disk.refuses project.traceFile step = none
  /-- No artifact is the source of another one, or of one that has a trace. -/
  apart : ∀ l t kind source, HasArtifact project disk l → Told project disk t →
    ArtifactKind.classify? project.outputRoot t = some (kind, source) →
      disk.goal (project.root.join source) ≠ .ok l

theorem source?_of_classify? {out : Path} {kind : ArtifactKind}
    (h : ArtifactKind.classify? out t = some (kind, source)) : kind.source? out t = some source := by
  obtain ⟨other, -, hfound⟩ := List.exists_of_findSome?_eq_some h
  obtain ⟨found, hsource, heq⟩ := Option.map_eq_some_iff.1 hfound
  obtain ⟨rfl, rfl⟩ := Prod.mk.inj heq
  exact hsource

/-- An artifact is below the output root. -/
theorem exists_of_classify? {o l : Location} {kind : ArtifactKind} (ho : ∀ n ∈ o, IsName n)
    (hl : ∀ n ∈ l, IsName n)
    (h : ArtifactKind.classify? (ofLocation o) (ofLocation l) = some (kind, source)) :
    ∃ m, m ≠ [] ∧ l = o ++ m := by
  have hsource := source?_of_classify? h
  simp only [ArtifactKind.source?, Option.bind_eq_bind, Option.bind_eq_some_iff] at hsource
  obtain ⟨rel, hrel, -, -, rest, hrest, -⟩ := hsource
  obtain ⟨m, rfl, rfl⟩ := stripStart?_eq_some hl ho hrel
  refine ⟨m, ?_, rfl⟩
  rintro rfl
  have hnone : (ofNames []).bytes.dropEnd? (Bytes.ofText kind.suffix) = none := by
    cases kind <;> decide
  cases hnone.symm.trans hrest

theorem classify?_traceFile (hout : project.outputRoot.IsPlace) :
    ArtifactKind.classify? project.outputRoot project.traceFile = none := by
  obtain ⟨o, ho, hroot, htrace⟩ := Project.exists_traceFile_eq hout
  refine List.findSome?_eq_none_iff.2 fun kind _ => Option.map_eq_none_iff.2 ?_
  have hnone : (ofNames [Project.traceFileName.bytes]).bytes.dropEnd? (Bytes.ofText kind.suffix) =
      none := by
    cases kind <;> decide
  rw [ArtifactKind.source?, htrace, hroot,
    stripStart?_ofLocation ho (by simpa using Project.isName_traceFileName)]
  simp [hnone]

theorem mem_artifacts_iff : e ∈ project.artifacts disk ↔
    e.path ∈ disk.filesAt project.outputRoot ∧
      ArtifactKind.classify? project.outputRoot e.path = some (e.kind, e.source) := by
  rw [Project.artifacts, List.mem_filterMap]
  have hsort : ∀ p, p ∈ Path.sort (disk.filesAt project.outputRoot) ↔
      p ∈ disk.filesAt project.outputRoot := fun p => (List.mergeSort_perm _ _).mem_iff
  constructor
  · rintro ⟨p, hp, he⟩
    obtain ⟨⟨kind, source⟩, hclass, rfl⟩ := Option.map_eq_some_iff.1 he
    exact ⟨(hsort p).1 hp, hclass⟩
  · rintro ⟨hp, hclass⟩
    exact ⟨e.path, (hsort e.path).2 hp, by rw [ArtifactEntry.of?, hclass]; rfl⟩

namespace Sweepable

variable (h : Sweepable project disk)

include h

theorem exists_outputRoot_eq : ∃ o, (∀ n ∈ o, IsName n) ∧ project.outputRoot = ofLocation o :=
  (Project.isPlace_outputRoot h.root).exists_eq

/-- An artifact that a sweep looks at is on the disk, and can be taken away. -/
theorem has_of_mem (he : e ∈ project.artifacts disk) :
    disk.Has e.path ∧ HasArtifact project disk e.path.steps := by
  obtain ⟨o, ho, hout⟩ := h.exists_outputRoot_eq
  obtain ⟨hmem, hclass⟩ := mem_artifacts_iff.1 he
  rw [hout] at hmem
  obtain ⟨m, c, -, hm, hpath, hs⟩ := Disk.exists_of_mem_filesAt ho h.proper hmem
  rw [hpath, steps_ofLocation hm]
  have hartifact : HasArtifact project disk (o ++ m) := ⟨⟨c, hs⟩, _, _, hpath ▸ hclass⟩
  refine ⟨⟨isPlace_ofLocation hm, ?_, ?_⟩, hartifact⟩
  · rw [steps_ofLocation hm]
    exact h.usable _ hartifact
  · rw [steps_ofLocation hm]
    exact ⟨c, hs⟩

theorem told_of_mem (he : e ∈ project.artifacts disk) : Told project disk e.path :=
  .inr ⟨_, (h.has_of_mem he).2, (Disk.ofLocation_steps (h.has_of_mem he).1.place).symm⟩

/-- A sweep looks at every artifact on the disk. -/
theorem exists_of_hasArtifact {l : Location} {kind : ArtifactKind}
    (hs : ∃ c, disk.sight l = .file c)
    (hclass : ArtifactKind.classify? project.outputRoot (ofLocation l) = some (kind, source)) :
    { kind, source, path := ofLocation l } ∈ project.artifacts disk := by
  obtain ⟨o, ho, hout⟩ := h.exists_outputRoot_eq
  obtain ⟨c, hs⟩ := hs
  have hl : ∀ n ∈ l, IsName n := h.proper.isName (by rw [← Disk.sight, hs]; simp)
  refine mem_artifacts_iff.2 ⟨?_, hclass⟩
  have hu := h.usable l ⟨⟨c, hs⟩, _, _, hclass⟩
  rw [hout] at hclass ⊢
  obtain ⟨m, hne, rfl⟩ := exists_of_classify? ho hl hclass
  exact Disk.mem_filesAt ho h.proper hne hu hs

theorem pairwise_artifacts : (project.artifacts disk).Pairwise fun e e' => e.path ≠ e'.path := by
  obtain ⟨o, ho, hout⟩ := h.exists_outputRoot_eq
  have hnodup : (Path.sort (disk.filesAt project.outputRoot)).Nodup :=
    (List.mergeSort_perm _ _).nodup_iff.2 (hout ▸ Disk.nodup_filesAt ho h.proper)
  refine List.pairwise_filterMap.2 (hnodup.imp fun {p p'} hne e he e' he' => ?_)
  obtain ⟨_, -, rfl⟩ := Option.map_eq_some_iff.1 he
  obtain ⟨_, -, rfl⟩ := Option.map_eq_some_iff.1 he'
  exact hne

/-- What a sweep takes away are the artifacts whose sources are no files. -/
theorem orphaned_iff {l : Location} : Orphaned project disk l ↔
    ∃ e ∈ project.artifacts disk, isGone project disk e.source = true ∧ e.path.steps = l := by
  constructor
  · rintro ⟨hs, kind, source, hclass, hgone⟩
    have hl : ∀ n ∈ l, IsName n := by
      obtain ⟨c, hs⟩ := hs
      exact h.proper.isName (by rw [← Disk.sight, hs]; simp)
    exact ⟨_, h.exists_of_hasArtifact hs hclass, by simpa [isGone] using hgone, steps_ofLocation hl⟩
  · rintro ⟨e, he, hgone, rfl⟩
    obtain ⟨hhas, hs, -⟩ := h.has_of_mem he
    refine ⟨hs, e.kind, e.source, ?_, by simpa [isGone] using hgone⟩
    rw [Disk.ofLocation_steps hhas.place]
    exact (mem_artifacts_iff.1 he).2

/-- What is an orphan is so for good. -/
theorem isOrphan_eq (hpruned : disk.Pruned (Orphaned project disk) changed disk')
    (ht : Told project disk t) : isOrphan project disk' t = isOrphan project disk t := by
  rw [isOrphan, isOrphan]
  cases hclass : ArtifactKind.classify? project.outputRoot t with
  | none => rfl
  | some e =>
    refine isGone_pruned hpruned fun l hl ⟨hs, kind, source, hlclass, _⟩ => ?_
    exact h.apart l t e.1 e.2 ⟨hs, kind, source, hlclass⟩ ht hclass hl

/-- A sweep of the artifacts on the disk takes away those whose sources are no files. -/
theorem artifacts_swept : ∃ disk',
    artifacts project false (project.artifacts disk) disk =
      (due project disk (project.artifacts disk), disk') ∧
      disk.Pruned (Orphaned project disk) (fun _ => False) disk' ∧ disk'.top.Proper := by
  obtain ⟨disk', hrun, hpruned, hproper⟩ := Sweep.artifacts_swept h.proper
    (fun e he => (h.has_of_mem he).1) h.pairwise_artifacts fun e he e' he' =>
      h.apart _ _ _ _ (h.has_of_mem he).2 (h.told_of_mem he') (mem_artifacts_iff.1 he').2
  exact ⟨disk', hrun, hpruned.congr (fun _ => h.orphaned_iff.symm) fun _ => id, hproper⟩

/-- After a sweep no artifact on the disk is an orphan. -/
theorem isGone_eq_false (hpruned : disk.Pruned (Orphaned project disk) changed disk')
    (hproper : disk'.top.Proper) (he : e ∈ project.artifacts disk') :
    isGone project disk' e.source = false := by
  obtain ⟨o, ho, hout⟩ := h.exists_outputRoot_eq
  obtain ⟨hmem, hclass⟩ := mem_artifacts_iff.1 he
  rw [hout] at hmem
  obtain ⟨m, c, -, hm, hpath, hs⟩ := Disk.exists_of_mem_filesAt ho hproper hmem
  obtain ⟨hfile, hkept⟩ := hpruned.exists_file_iff.1 ⟨c, hs⟩
  rw [hpath] at hclass
  have htold : Told project disk (ofLocation (o ++ m)) := .inr ⟨_, ⟨hfile, _, _, hclass⟩, rfl⟩
  have horphan := h.isOrphan_eq hpruned htold
  rw [isOrphan, hclass] at horphan
  cases hold : isOrphan project disk (ofLocation (o ++ m)) with
  | false => exact horphan.trans hold
  | true => exact absurd ⟨hfile, isOrphan_iff.1 hold⟩ hkept

end Sweepable

/-- Traces come from a file that can be read. -/
theorem exists_read_of_load (h : TraceTable.load disk p ≠ ∅) : ∃ c, disk.read p = .ok c := by
  cases hread : disk.read p with
  | ok c => exact ⟨c, rfl⟩
  | error fault => exact absurd (TraceTable.load_eq_empty (by rw [hread]; rfl)) h

/-- Traces that were loaded can be written when some were taken out. -/
theorem exists_text?_erased (targets : List Path) (disk : Disk) (p : Path) :
    ∃ text, (targets.foldl PathTable.erase (TraceTable.load disk p) : TraceTable).text? = some text := by
  refine Option.isSome_iff_exists.1 (TraceTable.isSome_text?_iff.2 fun e he => ?_)
  rw [PathTable.entries_foldl_erase] at he
  exact TraceTable.textual_load _ _ e (List.mem_filter.1 he).1

/-- Traces are taken out of a trace file that holds some. -/
theorem forget_eq (targets : List Path) (htrace : project.traceFile.IsPlace)
    (hrefuses : ∀ step, disk.refuses project.traceFile step = none)
    (hsome : TraceTable.load disk project.traceFile ≠ ∅) :
    ∃ disk', forget project targets disk = (.ok (), disk') ∧
      disk.Pruned (fun _ => False) (· = project.traceFile.steps) disk' ∧
      (disk.top.Proper → disk'.top.Proper) ∧
      TraceTable.load disk' project.traceFile =
        targets.foldl PathTable.erase (TraceTable.load disk project.traceFile) := by
  obtain ⟨l, hl, hplace⟩ := htrace.exists_eq
  obtain ⟨c, hread⟩ := exists_read_of_load hsome
  obtain ⟨text, htext⟩ := exists_text?_erased targets disk project.traceFile
  rw [hplace] at hread hrefuses
  obtain ⟨written, hwrite⟩ := Disk.exists_write_of_read (d := .ofText text) hl hread hrefuses
  have hsave : (targets.foldl PathTable.erase (TraceTable.load disk project.traceFile) :
      TraceTable).save project.traceFile disk =
        (.ok (), (Disk.writeIfChanged project.traceFile (.ofText text) disk).2) := by
    rw [TraceTable.save_of_text? htext, hplace, hwrite]
    rfl
  obtain ⟨-, -, -, -, hload⟩ := TraceTable.save_again hsave
  refine ⟨_, hsave, ?_, fun hd => Disk.proper_writeIfChanged hd, hload⟩
  rw [hplace, steps_ofLocation hl]
  exact .write hl ((Disk.read_ofLocation_eq_ok_iff hl).1 hread).2

theorem run_of_artifacts {rehearsal : Bool} {sweep : Sweep} {swept : Disk} {orphans : List Path}
    (h : artifacts project rehearsal (project.artifacts disk) disk = (sweep, swept))
    (horphans : (TraceTable.load swept project.traceFile).keys.filter (isOrphan project swept) =
      orphans) :
    run project rehearsal disk =
      if rehearsal || orphans.isEmpty then (.ok { sweep with forgotten := orphans.length }, swept)
      else ((forget project orphans swept).1.map fun _ => { sweep with forgotten := orphans.length },
        (forget project orphans swept).2) := by
  rw [run, h]
  simp only [horphans]

/-- The targets that have a trace and are artifacts whose sources are gone. -/
def orphans (project : Project) (disk : Disk) : List Path :=
  (TraceTable.load disk project.traceFile).keys.filter (isOrphan project disk)

/-- What a sweep is to remove. -/
def dueIn (project : Project) (disk : Disk) : Sweep :=
  { due project disk (project.artifacts disk) with forgotten := (orphans project disk).length }

/-- A rehearsed sweep tells what is due, and changes nothing. -/
theorem run_rehearsed : run project true disk = (.ok (dueIn project disk), disk) := by
  rw [run_of_artifacts artifacts_rehearsed rfl, Bool.true_or, if_pos rfl]
  rfl

/-- A sweep removes what is due. -/
theorem Sweepable.run (h : Sweepable project disk) : ∃ disk',
    run project false disk = (.ok (dueIn project disk), disk') ∧
      disk.Pruned (Orphaned project disk)
        (fun l => (orphans project disk).length ≠ 0 ∧ l = project.traceFile.steps) disk' ∧
      disk'.top.Proper ∧ TraceTable.load disk' project.traceFile =
        (orphans project disk).foldl PathTable.erase (TraceTable.load disk project.traceFile) := by
  have hout : project.outputRoot.IsPlace := Project.isPlace_outputRoot h.root
  have htrace : project.traceFile.IsPlace := Project.isPlace_traceFile hout
  obtain ⟨swept, hartifacts, hpruned, hproper⟩ := h.artifacts_swept
  -- The trace file is no artifact.
  have hload : TraceTable.load swept project.traceFile = TraceTable.load disk project.traceFile := by
    refine TraceTable.load_congr (hpruned.toOption_read fun l hl => ⟨fun horphan => ?_, id⟩)
    obtain ⟨-, kind, source, hclass, -⟩ := horphan
    rw [Disk.steps_of_goal htrace hl, Disk.ofLocation_steps htrace,
      classify?_traceFile hout] at hclass
    cases hclass
  have horphans : (TraceTable.load swept project.traceFile).keys.filter (isOrphan project swept) =
      orphans project disk := by
    rw [hload]
    exact List.filter_congr fun t ht => h.isOrphan_eq hpruned (.inl ht)
  rw [run_of_artifacts hartifacts horphans, Bool.false_or]
  by_cases hempty : orphans project disk = []
  · refine ⟨swept, ?_, hpruned.congr (fun _ => Iff.rfl) fun _ => False.elim, hproper, ?_⟩
    · rw [hempty]
      simp [dueIn, hempty]
    · rw [hempty, hload]
      rfl
  · have hsome : TraceTable.load swept project.traceFile ≠ ∅ := by
      intro hnone
      rw [hload] at hnone
      exact hempty (by rw [orphans, hnone]; rfl)
    obtain ⟨disk', hforget, hwritten, hproper', hload'⟩ :=
      forget_eq (orphans project disk) htrace (hpruned.refuses ▸ h.refuses) hsome
    refine ⟨disk', ?_, ?_, hproper' hproper, hload ▸ hload'⟩
    · rw [hforget, if_neg (by simpa using hempty)]
      rfl
    · refine ((hpruned.congr (fun _ => Iff.rfl) fun _ => False.elim).trans
        (hwritten.congr (fun _ => Iff.rfl) fun l hl => ⟨?_, hl⟩)).congr (fun l => by simp) fun _ => id
      simpa using hempty

/-- Whether a sweep has removed the artifacts whose sources are no files, with their traces, and has
    told so, and nothing else. -/
structure Exact (project : Project) (disk : Disk) (sweep : Sweep) (disk' : Disk) : Prop where
  /-- It looked at every artifact on the disk. -/
  scanned : sweep.scanned = (project.artifacts disk).length
  /-- It tells the artifacts that it removed. -/
  removed : ∀ p, p ∈ sweep.removed ↔ ∃ l, Orphaned project disk l ∧ p = ofLocation l
  /-- It tells each of them once. -/
  nodup : sweep.removed.Nodup
  /-- It tells how much they held. -/
  freed : sweep.freed = (sweep.removed.map (fileSize disk)).sum
  /-- It tells how many traces it removed. -/
  forgotten : sweep.forgotten =
    ((TraceTable.load disk project.traceFile).entries.filter fun e => isOrphan project disk e.1).length
  /-- The artifacts are gone. -/
  gone : ∀ l, Orphaned project disk l → disk'.sight l = .nothing
  /-- All else is as it was, but for the trace file, if traces were removed. -/
  kept : ∀ l, ¬ Orphaned project disk l → disk'.sight l = disk.sight l ∨
    sweep.forgotten ≠ 0 ∧ ofLocation l = project.traceFile ∧
      (∃ c, disk.sight l = .file c) ∧ ∃ c, disk'.sight l = .file c
  /-- The traces are gone, and the others are as they were. -/
  traces : (TraceTable.load disk' project.traceFile).entries =
    (TraceTable.load disk project.traceFile).entries.filter fun e => !isOrphan project disk e.1

/-- A sweep removes exactly the artifacts whose sources are no files, and their traces, and tells so. If
    it is rehearsed it tells the same and changes nothing, and a second sweep removes nothing. -/
theorem run_exact (h : Sweepable project disk) : ∃ sweep disk',
    run project false disk = (.ok sweep, disk') ∧ run project true disk = (.ok sweep, disk) ∧
      Exact project disk sweep disk' ∧
      run project false disk' = (.ok { scanned := (project.artifacts disk').length }, disk') := by
  have htrace : project.traceFile.IsPlace :=
    Project.isPlace_traceFile (Project.isPlace_outputRoot h.root)
  obtain ⟨disk', hrun, hpruned, hproper, hload⟩ := h.run
  refine ⟨dueIn project disk, disk', hrun, run_rehearsed, ?_, ?_⟩
  · exact {
      scanned := rfl
      removed := fun p => by
        rw [dueIn, due, List.mem_map]
        constructor
        · rintro ⟨e, he, rfl⟩
          obtain ⟨he, hgone⟩ := List.mem_filter.1 he
          exact ⟨_, h.orphaned_iff.2 ⟨e, he, hgone, rfl⟩,
            (Disk.ofLocation_steps (h.has_of_mem he).1.place).symm⟩
        · rintro ⟨l, hl, rfl⟩
          obtain ⟨e, he, hgone, rfl⟩ := h.orphaned_iff.1 hl
          exact ⟨e, List.mem_filter.2 ⟨he, hgone⟩,
            (Disk.ofLocation_steps (h.has_of_mem he).1.place).symm⟩
      nodup := List.pairwise_map.2 (h.pairwise_artifacts.filter _)
      freed := by rw [dueIn, due, List.map_map]; rfl
      forgotten := by
        rw [dueIn, orphans, PathTable.keys_eq_map_entries, List.filter_map, List.length_map]
        rfl
      gone := fun l hl => (hpruned.sight_gone hl).2
      kept := fun l hl => by
        rcases hpruned.sight l with ⟨hs, -⟩ | ⟨-, -, hgone⟩ | ⟨hs, hs', -, hforgotten, rfl⟩
        · exact .inl hs
        · exact absurd hgone hl
        · exact .inr ⟨hforgotten, Disk.ofLocation_steps htrace, hs, hs'⟩
      traces := by
        rw [hload, orphans, PathTable.entries_foldl_erase_filter] }
  · -- What is left are no orphans, so none are found again.
    have hnone :
        (TraceTable.load disk' project.traceFile).keys.filter (isOrphan project disk') = [] := by
      refine List.filter_eq_nil_iff.2 fun t ht => ?_
      rw [PathTable.keys_eq_map_entries, hload, orphans, PathTable.entries_foldl_erase_filter,
        List.mem_map] at ht
      obtain ⟨e, he, rfl⟩ := ht
      obtain ⟨he, hkept⟩ := List.mem_filter.1 he
      have hkey : e.1 ∈ (TraceTable.load disk project.traceFile).keys := by
        rw [PathTable.keys_eq_map_entries]
        exact List.mem_map_of_mem he
      rw [h.isOrphan_eq hpruned (.inl hkey)]
      simpa using hkept
    rw [run_of_artifacts (artifacts_of_not_gone fun e he => h.isGone_eq_false hpruned hproper he)
      hnone]
    rfl

/-- It is enough to look at the files that there are. -/
theorem sweepable_of_walk {files : List Location} (keys : List Path)
    (root : project.root.isAbsolute = true) (proper : disk.top.Proper)
    (refuses : ∀ step, disk.refuses project.traceFile step = none)
    (hfiles : disk.top.walk (fun _ => true) [] = files)
    (hkeys : (TraceTable.load disk project.traceFile).keys = keys)
    (usable : ∀ l ∈ files, Disk.Usable l)
    (apart : ∀ l ∈ files, (ArtifactKind.classify? project.outputRoot (ofLocation l)).isSome →
      ∀ t ∈ keys ++ files.map ofLocation, ∀ e ∈ ArtifactKind.classify? project.outputRoot t,
        (disk.goal (project.root.join e.2)).toOption ≠ some l) : Sweepable project disk := by
  have hmem : ∀ l, HasArtifact project disk l → l ∈ files := by
    rintro l ⟨⟨c, hs⟩, -⟩
    rw [← hfiles]
    exact Dir.mem_walk_of_sight [] hs
  refine ⟨root, proper, fun l hl => usable l (hmem l hl), refuses, ?_⟩
  intro l t kind source hl ht hclass hgoal
  have hlisted : t ∈ keys ++ files.map ofLocation := by
    rcases ht with ht | ⟨m, hm, rfl⟩
    · exact List.mem_append_left _ (hkeys ▸ ht)
    · exact List.mem_append_right _ (List.mem_map_of_mem (hmem m hm))
  obtain ⟨-, _, _, hclass'⟩ := id hl
  exact apart l (hmem l hl) (by simp [hclass']) t hlisted _ hclass (by rw [hgoal]; rfl)

/-- A project with its artifacts close by. -/
def littered : Project := ⟨.ofText "/w", { outputDir := .ofText "out" }⟩

/-- Traces of the artifacts of a source that is there and of one that is gone. -/
def litteredTraces : TraceTable :=
  PathTable.insert (PathTable.insert ∅ (.ofText "/w/out/a.c.directImports") ⟨"direct", "", []⟩)
    (.ofText "/w/out/b.c.directImports") ⟨"direct", "", []⟩

/-- The text of these traces. -/
def litteredText : String :=
  "\x7b\n  \"version\": 1,\n  \"traces\": \x7b\n" ++
    "    \"/w/out/a.c.directImports\": \x7b\n" ++
    "      \"rule\": \"direct\",\n      \"output_hash\": \"\",\n      \"deps\": []\n    \x7d,\n" ++
    "    \"/w/out/b.c.directImports\": \x7b\n" ++
    "      \"rule\": \"direct\",\n      \"output_hash\": \"\",\n      \"deps\": []\n    \x7d\n" ++
    "  \x7d\n\x7d\n"

set_option maxRecDepth 10000 in
theorem text?_litteredTraces : litteredTraces.text? = some litteredText := by
  cbv

/-- The disk with a source, its artifact, the artifact of a source that is gone, and their traces. -/
def litteredDisk : Disk where
  top := .dir (.ofText "w") (.file (.ofText "a.c") (.ofText "") (.dir (.ofText "out")
    (.file (.ofText "a.c.directImports") (.ofText "") (.file (.ofText "b.c.directImports")
      (.ofText "x.h\n") (.file (.ofText ".depcache-traces.json") (.ofText litteredText) .empty)))
    .empty)) .empty

theorem run_exact_littered : ∃ sweep disk',
    run littered false litteredDisk = (.ok sweep, disk') ∧
    run littered true litteredDisk = (.ok sweep, litteredDisk) ∧
    .ofText "/w/out/b.c.directImports" ∈ sweep.removed ∧ sweep.forgotten = 1 ∧
    disk'.sight [.ofText "w", .ofText "out", .ofText "b.c.directImports"] = .nothing ∧
    disk'.sight [.ofText "w", .ofText "out", .ofText "a.c.directImports"] = .file (.ofText "") ∧
    (TraceTable.load disk' littered.traceFile).keys = [.ofText "/w/out/a.c.directImports"] := by
  have hload : TraceTable.load litteredDisk littered.traceFile = litteredTraces :=
    TraceTable.load_of_stored text?_litteredTraces (by decide +kernel)
  have hsweepable : Sweepable littered litteredDisk := by
    refine sweepable_of_walk
      [.ofText "/w/out/a.c.directImports", .ofText "/w/out/b.c.directImports"]
      (by decide +kernel) (by decide +kernel) (fun _ => rfl) rfl ?_ ?_ ?_
    · rw [hload]
      decide +kernel
    · decide +kernel
    · decide +kernel
  obtain ⟨sweep, disk', hrun, hrehearsed, hexact, -⟩ := run_exact hsweepable
  have hgone : Orphaned littered litteredDisk
      [.ofText "w", .ofText "out", .ofText "b.c.directImports"] :=
    ⟨⟨_, rfl⟩, .direct, .ofText "b.c", by decide +kernel, by decide +kernel⟩
  have hkept : ¬ Orphaned littered litteredDisk
      [.ofText "w", .ofText "out", .ofText "a.c.directImports"] := by
    rintro ⟨-, kind, source, hclass, hfile⟩
    have hthere : (ArtifactKind.classify? littered.outputRoot
        (ofLocation [.ofText "w", .ofText "out", .ofText "a.c.directImports"])).all fun e =>
          litteredDisk.isFile (littered.root.join e.2) = true := by
      decide +kernel
    rw [hclass] at hthere
    simp [hfile] at hthere
  refine ⟨sweep, disk', hrun, hrehearsed, (hexact.removed _).2 ⟨_, hgone, by decide +kernel⟩, ?_,
    hexact.gone _ hgone, ?_, ?_⟩
  · rw [hexact.forgotten, hload]
    decide +kernel
  · rcases hexact.kept _ hkept with hs | ⟨-, htrace, -⟩
    · rw [hs]
      decide +kernel
    · exact absurd htrace (by decide +kernel)
  · rw [PathTable.keys_eq_map_entries, hexact.traces, hload]
    decide +kernel

end Sweep

end ImportIndex
