import ImportIndex.Build.Engine
import ImportIndex.Proofs.Import.Rules
import ImportIndex.Proofs.FileTree.Room

/-!
# The import graph

Which source imports which is seen on the disk (`Project.Imports`). A source takes over what its
imports of the same family import (`Project.Follows`), and so reaches files through them
(`Project.Reaches`). As long as this comes to an end, `Project.closure?` lists these files without
any build: `mem_closure` says which they are.

Building writes artifacts. The graph stays as it is if no source and no place where an import is
looked for is disturbed by that (`Project.Undisturbed`), as they are not if they are places of their
own (`undisturbed_of_isPlace`).
-/

namespace ImportIndex.Project

open Path

variable {project : Project} {disk disk' : Disk} {F G H : Path} {L ds : List Path} {n m : Nat}

/-! ### Imports -/

/-- Whether a source imports a file itself. -/
def Imports (project : Project) (disk : Disk) (F G : Path) : Prop :=
  ∃ ds, project.imports? disk F = some ds ∧ G ∈ ds

/-- Whether a source takes over the imports of a file that it imports: those of other sources of its
    family. -/
def takesOver (project : Project) (F G : Path) : Bool :=
  decide (G ≠ F) && Family.of? project.settings G == Family.of? project.settings F

/-- Whether a source imports another one and takes over its imports. -/
def Follows (project : Project) (disk : Disk) (F G : Path) : Prop :=
  project.Imports disk F G ∧ project.takesOver F G = true

/-- Whether a source imports a file, itself or through sources of its family. -/
def Reaches (project : Project) (disk : Disk) (F G : Path) : Prop :=
  ∃ H, Relation.ReflTransGen (project.Follows disk) F H ∧ project.Imports disk H G

theorem Imports.isBelow (hroot : project.root.IsPlace) (h : project.Imports disk F G) :
    G.IsBelow := by
  obtain ⟨ds, hds, hG⟩ := h
  exact isBelow_of_imports? hroot hds hG

theorem Imports.mem (h : project.Imports disk F G) (hds : project.imports? disk F = some ds) :
    G ∈ ds := by
  obtain ⟨ds', hds', hG⟩ := h
  exact Option.some.inj (hds'.symm.trans hds) ▸ hG

theorem mem_filter_takesOver (hds : project.imports? disk F = some ds) :
    G ∈ ds.filter (project.takesOver F) ↔ project.Follows disk F G := by
  rw [List.mem_filter]
  exact and_congr_left' ⟨fun hG => ⟨ds, hds, hG⟩, fun h => h.mem hds⟩

theorem Follows.ne (h : project.Follows disk F G) : G ≠ F :=
  fun he => by simp [Follows, takesOver, he] at h

theorem isBelow_of_reflTransGen (hroot : project.root.IsPlace) (hF : F.IsBelow)
    (h : Relation.ReflTransGen (project.Follows disk) F G) : G.IsBelow := by
  cases h with
  | refl => exact hF
  | tail _ h => exact h.1.isBelow hroot

theorem expands_eq {family : Family} {scanner : Scanner} (hF : F.IsBelow) (hG : G.IsBelow)
    (hfamily : Family.of? project.settings F = some family) :
    expands (project.importFamily family scanner).owns F G = project.takesOver F G := by
  have hsame : G.Same F ↔ G = F := ⟨hG.eq_of_same hF, fun h => h ▸ rfl⟩
  simp [expands, takesOver, importFamily, hfamily, hsame]

/-! ### Closures -/

/-- The files that a source imports, itself or through sources of its family: its direct imports
    followed by the closures of those that it takes over, in the order in which they are first seen,
    without the source. There is none if sources import one another more than `depth` levels
    deep. -/
def closure? (project : Project) (disk : Disk) : Nat → Path → Option (List Path)
  | 0, _ => none
  | depth + 1, F => do
    let ds ← project.imports? disk F
    let parts ← (ds.filter (project.takesOver F)).mapM (project.closure? disk depth)
    return ((ds ++ parts.flatten).filter (· ≠ F)).eraseDups

theorem closure?_succ_eq_some : project.closure? disk (n + 1) F = some L ↔
    ∃ ds parts, project.imports? disk F = some ds ∧
      List.Forall₂ (fun G part => project.closure? disk n G = some part)
        (ds.filter (project.takesOver F)) parts ∧
      L = ((ds ++ parts.flatten).filter (· ≠ F)).eraseDups := by
  rw [closure?]
  simp only [Option.bind_eq_bind, Option.bind_eq_some_iff, mapM_eq_some_iff]
  constructor
  · rintro ⟨ds, hds, parts, hparts, h⟩
    exact ⟨ds, parts, hds, hparts, (Option.some.inj h).symm⟩
  · rintro ⟨ds, parts, hds, hparts, rfl⟩
    exact ⟨ds, hds, parts, hparts, rfl⟩

theorem closure?_succ (h : project.closure? disk n F = some L) :
    project.closure? disk (n + 1) F = some L := by
  induction n generalizing F L with
  | zero => contradiction
  | succ n ih =>
    rw [closure?_succ_eq_some] at h ⊢
    obtain ⟨ds, parts, hds, hparts, rfl⟩ := h
    exact ⟨ds, parts, hds, hparts.imp fun _ _ => ih, rfl⟩

/-- The closure is the same at every depth that suffices. -/
theorem closure?_mono (hnm : n ≤ m) (h : project.closure? disk n F = some L) :
    project.closure? disk m F = some L := by
  induction hnm with
  | refl => exact h
  | step _ ih => exact closure?_succ ih

theorem closure?_unique {M : List Path} (h : project.closure? disk n F = some L)
    (h' : project.closure? disk m F = some M) : L = M :=
  Option.some.inj ((closure?_mono (Nat.le_max_left n m) h).symm.trans
    (closure?_mono (Nat.le_max_right n m) h'))

theorem mem_collected {parts : List (List Path)} :
    G ∈ ((ds ++ parts.flatten).filter (· ≠ F)).eraseDups ↔
      (G ∈ ds ∨ ∃ part ∈ parts, G ∈ part) ∧ G ≠ F := by
  rw [List.mem_eraseDups, List.mem_filter, List.mem_append, List.mem_flatten, decide_eq_true_iff]

/-- What is in the closure of a source: all that it reaches apart from itself. -/
theorem mem_closure (h : project.closure? disk n F = some L) :
    G ∈ L ↔ G ≠ F ∧ project.Reaches disk F G := by
  induction n generalizing F L with
  | zero => contradiction
  | succ n ih =>
    obtain ⟨ds, parts, hds, hparts, rfl⟩ := closure?_succ_eq_some.1 h
    rw [mem_collected, and_comm]
    -- A way to a file is an import, or it leads through a source that is taken over.
    refine and_congr_right fun hG => ⟨?_, ?_⟩
    · rintro (hG | ⟨part, hpart, hG⟩)
      · exact ⟨F, .refl, ds, hds, hG⟩
      · obtain ⟨H, hH, hclosure⟩ := exists_of_forall₂ hparts hpart
        obtain ⟨-, K, hK, himports⟩ := (ih hclosure).1 hG
        exact ⟨K, hK.head ((mem_filter_takesOver hds).1 hH), himports⟩
    · rintro ⟨H, hH, himports⟩
      rcases hH.cases_head with rfl | ⟨K, hK, hrest⟩
      · exact .inl (himports.mem hds)
      · by_cases hGK : G = K
        · exact .inl (hGK ▸ hK.1.mem hds)
        · obtain ⟨part, hpart, hclosure⟩ :=
            exists_of_forall₂ hparts.flip ((mem_filter_takesOver hds).2 hK)
          exact .inr ⟨part, hpart, (ih hclosure).2 ⟨hGK, H, hrest, himports⟩⟩

/-! ### What building leaves as it is -/

/-- Whether a path is that of an artifact. -/
def IsArtifact (project : Project) (t : Path) : Prop :=
  ∃ (kind : ArtifactKind) (F : Path), F.IsBelow ∧ t = kind.artifact project.outputRoot F

theorem IsArtifact.getLast? {t : Path} (h : project.IsArtifact t) :
    t.bytes.getLast? = some 0x73 := by
  obtain ⟨kind, F, -, rfl⟩ := h
  exact ArtifactKind.getLast?_artifact

/-- Whether two disks have the same imports of a source, as they hold the same source and the same
    files where it says to look. -/
structure AgreeOn (project : Project) (disk disk' : Disk) (F : Path) : Prop where
  /-- The source. -/
  source : project.reading? F ≠ none →
    (disk'.read (project.root.join F)).toOption = (disk.read (project.root.join F)).toOption
  /-- The files where it says to look. -/
  probes : ∀ p ∈ project.probes disk F, disk'.isFile p = disk.isFile p

/-- Whether no writing of artifacts changes the imports of a source. -/
def Undisturbed (project : Project) (disk : Disk) (F : Path) : Prop :=
  ∀ disk', disk.Rewritten project.IsArtifact disk' → project.AgreeOn disk disk' F

theorem findInRoots_congr {relative : Path} {roots : List Path}
    (h : ∀ p ∈ disk.probes relative roots, disk'.isFile p = disk.isFile p) :
    disk'.findInRoots relative roots = disk.findInRoots relative roots := by
  induction roots with
  | nil => rfl
  | cons root roots ih =>
    rw [Disk.probes, List.forall_mem_cons] at h
    rw [Disk.findInRoots_cons, Disk.findInRoots_cons, h.1]
    cases hfile : disk.isFile (root.join relative) with
    | true => rfl
    | false => exact ih fun p hp => h.2 p (by simpa [hfile] using hp)

theorem AgreeOn.of_read (h : ∀ p ∈ project.root.join F :: project.probes disk F,
    (disk'.read p).toOption = (disk.read p).toOption) : project.AgreeOn disk disk' F := by
  rw [List.forall_mem_cons] at h
  refine ⟨fun _ => h.1, fun p hp => ?_⟩
  rw [Disk.isFile_eq_isSome_read, Disk.isFile_eq_isSome_read, h.2 p hp]

/-- Disks that agree on a source have the same imports of it. -/
theorem AgreeOn.imports? (h : project.AgreeOn disk disk' F) :
    project.imports? disk' F = project.imports? disk F := by
  rw [Project.imports?, Project.imports?]
  cases hreading : project.reading? F with
  | none => rfl
  | some r =>
    obtain ⟨scanner, roots⟩ := r
    simp only [Option.bind_eq_bind, Option.bind_some]
    rw [Disk.readText_congr (h.source (by simp [hreading]))]
    cases htext : disk.readText (project.root.join F) with
    | error fault => rfl
    | ok text =>
      have hprobes := h.probes
      rw [Project.probes, hreading, htext] at hprobes
      have hfound : (scanner.references text).filterMap (disk'.resolve? scanner roots) =
          (scanner.references text).filterMap (disk.resolve? scanner roots) := by
        refine List.filterMap_congr fun r hr => ?_
        rw [Disk.resolve?, Disk.resolve?, findInRoots_congr fun p hp =>
          hprobes p (List.mem_flatMap.2 ⟨r, hr, hp⟩)]
      simp only [Except.toOption, Option.bind_some, hfound]

/-- Whether a project has the same imports of sources on one disk as another project on another disk,
    and takes over the same ones. -/
structure AlikeOn (project other : Project) (disk disk' : Disk) (sources : Path → Prop) : Prop where
  /-- The imports. -/
  imports : ∀ {F}, sources F → other.imports? disk' F = project.imports? disk F
  /-- Those that are taken over. -/
  takesOver : ∀ {F G}, sources F → project.Imports disk F G →
    other.takesOver F G = project.takesOver F G

namespace AlikeOn

variable {other : Project} {sources : Path → Prop} (h : project.AlikeOn other disk disk' sources)

include h

theorem follows_iff (hF : sources F) : other.Follows disk' F G ↔ project.Follows disk F G := by
  rw [Follows, Follows, Imports, h.imports hF, ← Imports]
  exact and_congr_right fun hG => by rw [h.takesOver hF hG]

/-- Sources that take over nothing but one another have the same closures. -/
theorem closure?_eq (hclosed : ∀ {F G}, sources F → project.Follows disk F G → sources G)
    (hF : sources F) : other.closure? disk' n F = project.closure? disk n F := by
  induction n generalizing F with
  | zero => rfl
  | succ n ih =>
    refine Option.ext fun L => ?_
    rw [closure?_succ_eq_some, closure?_succ_eq_some, h.imports hF]
    refine exists_congr fun ds => exists_congr fun parts => and_congr_right fun hds => ?_
    have htakes : ds.filter (other.takesOver F) = ds.filter (project.takesOver F) :=
      List.filter_congr fun G hG => h.takesOver hF ⟨ds, hds, hG⟩
    have hG : ∀ G ∈ ds.filter (project.takesOver F),
        other.closure? disk' n G = project.closure? disk n G :=
      fun G hG => ih (hclosed hF ((mem_filter_takesOver hds).1 hG))
    rw [htakes]
    refine and_congr_left fun _ => ?_
    constructor <;> refine fun hparts => forall₂_of_mem hparts fun G part hmem hpart => ?_
    · rwa [← hG G hmem]
    · rwa [hG G hmem]

end AlikeOn

section

variable (h : ∀ G, Relation.ReflTransGen (project.Follows disk) F G →
  project.imports? disk' G = project.imports? disk G)

include h

theorem imports_congr (hG : Relation.ReflTransGen (project.Follows disk) F G) :
    project.Imports disk' G H ↔ project.Imports disk G H := by
  rw [Imports, Imports, h G hG]

theorem reflTransGen_congr : Relation.ReflTransGen (project.Follows disk') F G ↔
    Relation.ReflTransGen (project.Follows disk) F G := by
  constructor
  · intro hG
    induction hG with
    | refl => exact .refl
    | tail _ hfollows ih => exact ih.tail ⟨(imports_congr h ih).1 hfollows.1, hfollows.2⟩
  · intro hG
    induction hG with
    | refl => exact .refl
    | tail hH hfollows ih => exact ih.tail ⟨(imports_congr h hH).2 hfollows.1, hfollows.2⟩

/-- What a source reaches depends on the imports of those sources only that it takes over. -/
theorem reaches_congr : project.Reaches disk' F G ↔ project.Reaches disk F G := by
  refine exists_congr fun H => ?_
  rw [reflTransGen_congr h]
  exact and_congr_right fun hH => imports_congr h hH

theorem closure?_congr : project.closure? disk' n F = project.closure? disk n F := by
  have halike : project.AlikeOn project disk disk' (Relation.ReflTransGen (project.Follows disk) F) :=
    ⟨fun hG => h _ hG, fun _ _ => rfl⟩
  exact halike.closure?_eq (fun hG hfollows => hG.tail hfollows) .refl

end

/-! ### Places of artifacts -/

/-- Whether there is an artifact at a location. -/
def ArtifactPlace (project : Project) (l : Location) : Prop :=
  ∃ (o m : Location) (kind : ArtifactKind), project.outputRoot = ofLocation o ∧
    (∀ n ∈ o, IsName n) ∧ (∀ n ∈ m, IsName n) ∧ l = o ++ kind.suffixed m

theorem ArtifactPlace.isName {l : Location} (h : project.ArtifactPlace l) : ∀ n ∈ l, IsName n := by
  obtain ⟨o, m, kind, -, ho, hm, rfl⟩ := h
  exact fun n hn => (List.mem_append.1 hn).elim (ho n) (ArtifactKind.isName_of_mem_suffixed hm n)

theorem ArtifactPlace.ne_nil {l : Location} (h : project.ArtifactPlace l) : l ≠ [] := by
  obtain ⟨o, m, kind, -, -, -, rfl⟩ := h
  simp [ArtifactKind.suffixed_ne_nil]

section

variable (hroot : project.root.IsPlace)

include hroot

theorem isArtifact_iff {t : Path} : project.IsArtifact t ↔ Disk.At project.ArtifactPlace t := by
  constructor
  · rintro ⟨kind, F, hF, rfl⟩
    obtain ⟨o, ho, hout⟩ := (isPlace_outputRoot hroot.1).exists_eq
    obtain ⟨m, hm, rfl⟩ := hF.exists_eq
    exact ⟨_, ⟨o, m, kind, hout, ho, hm, rfl⟩, by
      rw [hout, ArtifactKind.artifact_eq_ofLocation ho hm]⟩
  · rintro ⟨_, ⟨o, m, kind, hout, ho, hm, rfl⟩, rfl⟩
    exact ⟨kind, ofNames m, isBelow_ofNames hm, by
      rw [hout, ArtifactKind.artifact_eq_ofLocation ho hm]⟩

theorem IsArtifact.isPlace {t : Path} (h : project.IsArtifact t) : t.IsPlace := by
  obtain ⟨kind, F, hF, rfl⟩ := h
  exact ArtifactKind.isPlace_artifact (isPlace_outputRoot hroot.1) hF

theorem rewritten_at (h : disk.Rewritten project.IsArtifact disk') :
    disk.Rewritten (Disk.At project.ArtifactPlace) disk' :=
  h.mono fun _ => (isArtifact_iff hroot).1

/-- Writing artifacts does not change what a file at a place of its own holds. -/
theorem read_of_rewritten {p : Path} (hp : p.IsPlace) (hnot : ¬ project.IsArtifact p)
    (h : disk.Rewritten project.IsArtifact disk') :
    (disk'.read p).toOption = (disk.read p).toOption := by
  obtain ⟨l, hl, rfl⟩ := hp.exists_eq
  refine (rewritten_at hroot h).read_ofLocation (fun _ => ArtifactPlace.isName)
    (fun _ => ArtifactPlace.ne_nil) hl fun hplace => hnot ?_
  exact (isArtifact_iff hroot).2 ⟨l, hplace, rfl⟩

/-- A source is not disturbed if it and the files where it says to look are at places of their
    own. -/
theorem undisturbed_of_isPlace (h : ∀ p ∈ project.root.join F :: project.probes disk F,
    p.IsPlace ∧ ¬ project.IsArtifact p) : project.Undisturbed disk F := fun _ hd =>
  .of_read fun p hp => read_of_rewritten hroot (h p hp).1 (h p hp).2 hd

/-- A source is not disturbed if it and the files where it says to look are at places that do not end
    like those of artifacts. -/
theorem undisturbed_of_getLast? (h : ∀ p ∈ project.root.join F :: project.probes disk F,
    p.IsPlace ∧ p.bytes.getLast? ≠ some 0x73) : project.Undisturbed disk F :=
  undisturbed_of_isPlace hroot fun p hp =>
    ⟨(h p hp).1, fun hartifact => (h p hp).2 hartifact.getLast?⟩

/-- Writing an artifact leaves the others. -/
theorem read_writeIfChanged {t u : Path} {c d : Content} (ht : project.IsArtifact t)
    (hu : u.IsPlace) (hne : t ≠ u) (hread : disk.read u = .ok c) :
    (Disk.writeIfChanged t d disk).2.read u = .ok c := by
  obtain ⟨l, hl, rfl⟩ := (isArtifact_iff hroot).1 ht
  obtain ⟨m, hm, rfl⟩ := hu.exists_eq
  refine Disk.toOption_eq_some_iff.1 ?_
  rw [Disk.read_write_ofLocation hl.isName hl.ne_nil hm fun h => hne (h ▸ rfl)]
  exact Disk.toOption_eq_some_iff.2 hread

omit hroot in
/-- Storing traces that can be written is writing their text. -/
theorem save_eq {traces : TraceTable} {p : Path} {text : String} (h : traces.text? = some text) :
    (traces.save p disk).2 = (Disk.writeIfChanged p (.ofText text) disk).2 := by
  simp only [TraceTable.save, h]
  rcases Disk.writeIfChanged p (.ofText text) disk with ⟨r, disk'⟩
  cases r <;> rfl

theorem exists_traceFile_place :
    ∃ l, (∀ n ∈ l, IsName n) ∧ l ≠ [] ∧ project.traceFile = ofLocation l := by
  obtain ⟨o, ho, -, htrace⟩ := exists_traceFile_eq (isPlace_outputRoot hroot.1)
  refine ⟨o ++ [traceFileName.bytes], fun n hn => ?_, by simp, htrace⟩
  rcases List.mem_append.1 hn with hn | hn
  · exact ho n hn
  · exact List.mem_singleton.1 hn ▸ isName_traceFileName

/-- Storing the traces in the trace file leaves the files at other places. -/
theorem read_save {engine : Engine} (hstore : ∀ path ∈ engine.store, path = project.traceFile)
    {p : Path} (hp : p.IsPlace) (hne : p ≠ project.traceFile) :
    ((engine.save disk).2.read p).toOption = (disk.read p).toOption := by
  rw [Engine.save]
  cases hs : engine.store with
  | none => rfl
  | some path =>
    obtain rfl := hstore path hs
    cases htext : engine.traces.text? with
    | none => simp only [TraceTable.save, htext]
    | some text =>
      obtain ⟨l, hl, hne', htrace⟩ := exists_traceFile_place hroot
      obtain ⟨m, hm, rfl⟩ := hp.exists_eq
      change ((engine.traces.save project.traceFile disk).2.read _).toOption = _
      rw [save_eq htext, htrace]
      exact Disk.read_write_ofLocation hl hne' hm fun h => hne (h ▸ htrace.symm)

/-- Storing the traces leaves what artifacts list. -/
theorem importsOf_save {engine : Engine} (hstore : ∀ path ∈ engine.store, path = project.traceFile)
    {kind : ArtifactKind} (hF : F.IsBelow) (h : disk.importsOf kind project.outputRoot F = .ok L) :
    (engine.save disk).2.importsOf kind project.outputRoot F = .ok L := by
  have hout : project.outputRoot.IsPlace := isPlace_outputRoot hroot.1
  have hplace : (kind.artifact project.outputRoot F).IsPlace :=
    ArtifactKind.isPlace_artifact hout hF
  have hread : ((engine.save disk).2.readText (kind.artifact project.outputRoot F)).toOption =
      (disk.readText (kind.artifact project.outputRoot F)).toOption :=
    Disk.readText_congr (read_save hroot hstore hplace (traceFile_ne_artifact hout).symm)
  rw [Disk.importsOf] at h ⊢
  cases htext : disk.readText (kind.artifact project.outputRoot F) with
  | error fault => simp [htext] at h
  | ok text =>
    rw [htext] at h hread
    rw [Disk.toOption_eq_some_iff.1 hread]
    exact h

end

end ImportIndex.Project
