import ImportIndex.Proofs.Import.Scope

/-!
# What transitive artifacts list at least and at most

Sources may import one another in a cycle, so that a transitive artifact is put together from what
others contribute at the time. Whatever that is, it lists what its source and those that it takes
over import, and nothing that its source does not reach (`Project.Bounds`). A session keeps this
(`bounds_of_requireAll`), from whatever traces it starts, as long as they tell how a rule came to an
artifact in some world (`genuine_of_requireAll`).
-/

namespace ImportIndex.Project

open Relation

/-- Whether a list is within the bounds of the transitive imports of a source. -/
structure Bounds (project : Project) (disk : Disk) (F : Path) (L : List Path) : Prop where
  /-- No file is listed twice. -/
  nodup : L.Nodup
  /-- The source is not listed. -/
  not_mem : F ∉ L
  /-- The imports of the source are listed. -/
  direct : ∀ {G}, project.Imports disk F G → G ≠ F → G ∈ L
  /-- The imports of those that it takes over are listed. -/
  second : ∀ {G H}, project.Follows disk F G → project.Imports disk G H → H ≠ F → H ∈ L
  /-- What is listed is reached. -/
  reachable : ∀ {G}, G ∈ L → project.Reaches disk F G

theorem Bounds.congr {project : Project} {disk disk' : Disk} {F : Path} {L : List Path}
    (hL : project.Bounds disk F L) (h : ∀ G, ReflTransGen (project.Follows disk) F G →
      project.imports? disk' G = project.imports? disk G) : project.Bounds disk' F L where
  nodup := hL.nodup
  not_mem := hL.not_mem
  direct hG := hL.direct ((imports_congr h .refl).1 hG)
  second hG hH := by
    have hfollows : project.Follows disk F _ := ⟨(imports_congr h .refl).1 hG.1, hG.2⟩
    exact hL.second hfollows ((imports_congr h (.single hfollows)).1 hH)
  reachable hG := (reaches_congr h).2 (hL.reachable hG)

/-- The sources that targets are about, and those that they take over. -/
def Within (project : Project) (disk : Disk) (ts : List Path) (F : Path) : Prop :=
  ∃ (kind : ArtifactKind) (G : Path), G.IsBelow ∧ kind.artifact project.outputRoot G ∈ ts ∧
    ReflTransGen (project.Follows disk) G F

variable {project : Project} {book : Rulebook} {disk : Disk} {traces : TraceTable} {ts : List Path}
  {w : World} {F : Path} {L : List Path}

/-- What is collected from contributions within their bounds is within its bounds. -/
theorem bounds_of_collects (hroot : project.root.IsPlace)
    (hw : project.Fits disk (project.Bounds disk) w) (hF : F.IsBelow)
    (h : w.Collects project F L) : project.Bounds disk F L := by
  obtain ⟨ds, parts, hds, hparts, rfl⟩ := h
  have himports := hw.gives_direct hF hds
  have hbelow : ∀ p ∈ ds, p.IsBelow := fun p hp => isBelow_of_imports? hroot himports hp
  -- An import contributes its own imports, and nothing that it does not reach.
  have hpart : ∀ {G part}, G ∈ ds → w.Contributes project.outputRoot G part →
      (∀ {H}, project.Imports disk G H → H ≠ G → H ∈ part) ∧
        ∀ {H}, H ∈ part → project.Reaches disk G H := by
    intro G part hG hcontributes
    rcases (hw.contributes hroot (hbelow G hG) hcontributes).2 with hbounds | ⟨-, hcut⟩
    · exact ⟨hbounds.direct, hbounds.reachable⟩
    · refine ⟨fun {H} hH _ => ?_, fun hH => ⟨G, .refl, part, hcut, hH⟩⟩
      exact hH.mem hcut
  refine ⟨nodup_eraseDups _, fun h => (mem_collected.1 h).2 rfl, fun {G} hG hne => ?_,
    fun {G H} hG hH hne => ?_, fun {G} hG => ?_⟩
  · exact mem_collected.2 ⟨.inl (hG.mem himports), hne⟩
  · refine mem_collected.2 ⟨?_, hne⟩
    by_cases hHG : H = G
    · exact .inl (hHG ▸ hG.1.mem himports)
    · obtain ⟨part, hpartMem, hcontributes⟩ :=
        exists_of_forall₂ hparts.flip ((mem_filter_takesOver himports).2 hG)
      exact .inr ⟨part, hpartMem, (hpart (hG.1.mem himports) hcontributes).1 hH hHG⟩
  · rcases (mem_collected.1 hG).1 with hG | ⟨part, hpartMem, hG⟩
    · exact ⟨F, .refl, ds, himports, hG⟩
    · obtain ⟨H, hH, hcontributes⟩ := exists_of_forall₂ hparts hpartMem
      have hfollows := (mem_filter_takesOver himports).1 hH
      obtain ⟨K, hK, hlast⟩ := (hpart (hfollows.1.mem himports) hcontributes).2 hG
      exact ⟨K, .head hfollows hK, hlast⟩

/-! ### Sessions -/

theorem exists_within_of_mem (hts : ∀ t ∈ ts, project.IsArtifact t) {t : Path} (ht : t ∈ ts) :
    ∃ (kind : ArtifactKind) (F : Path),
      project.Within disk ts F ∧ t = kind.artifact project.outputRoot F := by
  obtain ⟨kind, F, hF, rfl⟩ := hts t ht
  exact ⟨kind, F, ⟨kind, F, hF, ht, .refl⟩, rfl⟩

/-- What a source takes over is among some sources if these import one another only. -/
theorem mem_of_reflTransGen {sources : List Path} {G : Path}
    (hclosed : ∀ F ∈ sources, ∀ G ∈ (project.imports? disk F).getD [], G ∈ sources)
    (hF : F ∈ sources) (h : ReflTransGen (project.Follows disk) F G) : G ∈ sources := by
  induction h with
  | refl => exact hF
  | tail _ hfollows ih =>
    obtain ⟨⟨ds, hds, hmem⟩, -⟩ := hfollows
    exact hclosed _ ih _ (by rwa [hds])

/-- What targets are about is among some sources if these import one another only. -/
theorem mem_of_within (hroot : project.root.IsPlace) (requests : List (ArtifactKind × Path))
    (hts : ts = requests.map fun r => r.1.artifact project.outputRoot r.2)
    {sources : List Path} (hrequests : ∀ r ∈ requests, r.2.IsBelow ∧ r.2 ∈ sources)
    (hclosed : ∀ F ∈ sources, ∀ G ∈ (project.imports? disk F).getD [], G ∈ sources)
    (h : project.Within disk ts F) : F ∈ sources := by
  subst hts
  obtain ⟨kind, G, hG, hmem, hreach⟩ := h
  obtain ⟨r, hr, heq⟩ := List.mem_map.1 hmem
  obtain ⟨hbelow, hsource⟩ := hrequests r hr
  obtain ⟨-, rfl⟩ := ArtifactKind.artifact_inj (isPlace_outputRoot hroot.1) hbelow hG heq
  exact mem_of_reflTransGen hclosed hsource hreach

section

variable (hroot : project.root.IsPlace) (hbook : project.rules = .ok book.rules)
  (hinj : Function.Injective book.digest)
  (hgenuine : ∀ {t trace}, project.IsArtifact t → traces.get? t = some trace →
    ∃ c, trace.Genuine book (fun _ _ => True) t c)
  (hundisturbed : ∀ F, project.Within disk ts F → project.Undisturbed disk F)

include hroot hundisturbed in
/-- The sources that targets are about can be worked on together. -/
theorem sources_within : project.Sources disk (project.Within disk ts) where
  below := by
    rintro F ⟨-, G, hG, -, hF⟩
    exact isBelow_of_reflTransGen hroot hG hF
  closed := by
    rintro F G ⟨kind, H, hH, hmem, hF⟩ hG
    exact ⟨kind, H, hH, hmem, hF.tail hG⟩
  undisturbed := fun {F} hF => hundisturbed F hF

include hroot hbook hinj hgenuine hundisturbed

/-- A session in which transitive artifacts are within their bounds. -/
theorem lawful_bounds : (project.importScope book disk traces (project.Within disk ts)
    (project.Bounds disk) (fun _ _ => True) fun _ _ => False).Lawful := by
  have hs := sources_within hroot hundisturbed
  refine lawful_importScope hroot hbook hs hinj rfl ?_ ?_ ?_ ?_ ?_ ?_ ?_ ?_ ?_
  · rintro t trace ⟨kind, F, hF, rfl⟩ hget
    exact hgenuine ⟨kind, F, hs.below hF, rfl⟩ hget
  · intro F L hF hL
    exact bounds_of_collects hroot (fits_world hroot) (hs.below hF) hL
  all_goals simp

variable {depth : Nat} {failed : List (Path × Failure)} {s : Session}
  (hts : ∀ t ∈ ts, project.IsArtifact t)
  (run : Session.requireAll book depth ts { disk, traces } = some (failed, s))

include hts run

/-- A session keeps the invariant of transitive artifacts within their bounds. -/
theorem inv_bounds : (project.importScope book disk traces (project.Within disk ts)
    (project.Bounds disk) (fun _ _ => True) fun _ _ => False).Inv s := by
  have hl := lawful_bounds hroot hbook hinj hgenuine hundisturbed
  exact ((Scope.requireAll_ends hl (Scope.inv_session hl) rfl
    fun t ht => exists_within_of_mem hts ht).1 _ _ run).1

/-- The traces of artifacts at the end of a session tell how they came about. -/
theorem genuine_of_requireAll {t : Path} {trace : Trace} (ht : project.IsArtifact t)
    (hget : s.traces.get? t = some trace) : ∃ c, trace.Genuine book (fun _ _ => True) t c := by
  have hi := inv_bounds hroot hbook hinj hgenuine hundisturbed hts run
  have hs := sources_within hroot hundisturbed
  by_cases hallowed : ∃ (kind : ArtifactKind) (F : Path),
      project.Within disk ts F ∧ t = kind.artifact project.outputRoot F
  · exact hi.genuine hallowed hget
  · rw [hi.others] at hget
    · exact hgenuine ht hget
    · rintro u ⟨kind, F, hF, rfl⟩ hsame
      have hplace : (kind.artifact project.outputRoot F).IsPlace :=
        ArtifactKind.isPlace_artifact (Project.isPlace_outputRoot hroot.1) (hs.below hF)
      exact hallowed ⟨kind, F, hF, (hplace.eq_of_same (ht.isPlace hroot) hsame).symm⟩

/-- A transitive artifact that is done in a session is within its bounds. -/
theorem bounds_of_requireAll (hF : F.IsBelow) {digest : String}
    (hdone : s.progress.get? (ArtifactKind.transitive.artifact project.outputRoot F) =
      some (.done digest)) :
    ∃ L, s.disk.importsOf .transitive project.outputRoot F = .ok L ∧ project.Bounds disk F L := by
  have hl := lawful_bounds hroot hbook hinj hgenuine hundisturbed
  have hi := inv_bounds hroot hbook hinj hgenuine hundisturbed hts run
  obtain ⟨-, c, hc⟩ :=
    exists_of_done hroot (sources_within hroot hundisturbed) rfl hi hF hdone
  obtain ⟨L, hlisting, -, hbounds⟩ := Makes.transitive hroot hF (hc.makes hl)
  exact ⟨L, importsOf_eq hc.read hlisting, hbounds⟩

end

/-! ### A small project -/

/-- A project at `/w` with the usual settings. -/
def usual : Project := ⟨.ofText "/w", {}⟩

/-- The rules of the project, with contents as their own digests. -/
def usualBook : Rulebook where
  rules := usual.rules.toOption.getD []
  digest := Content.spelled

theorem rules_usual : usual.rules = .ok usualBook.rules := by
  simp only [usualBook]
  exact rules_eq_getD (by decide)

/-- A disk with these files in the directory of the project, and nothing else. -/
def usualDisk (files : List (String × String)) : Disk where
  top := .dir (.ofText "w")
    (files.foldr (fun f rest => .file (.ofText f.1) (.ofText f.2) rest) .empty) .empty

/-- Three sources that import one another in a cycle, and a header that one of them imports. -/
def ring : Disk :=
  usualDisk [("a.c", "#include \"b.c\""), ("b.c", "#include \"c.c\"\n#include \"x.h\""),
    ("c.c", "#include \"a.c\""), ("x.h", "")]

/-- Two sources that refer to a file through the directory that the artifacts are in. -/
def detour : Disk :=
  usualDisk [("a.c", "#include \"_build/../x.h\""), ("b.c", "#include \"_build/../x.h\""),
    ("x.h", "")]

/-- The artifact of a source of the project. -/
def usualArtifact (kind : ArtifactKind) (name : String) : Path :=
  kind.artifact usual.outputRoot (.ofText name)

theorem isArtifact_usual (kind : ArtifactKind) (names : List String)
    (h : ∀ name ∈ names, (Path.ofText name).IsBelow) :
    ∀ t ∈ names.map (usualArtifact kind), usual.IsArtifact t := by
  intro t ht
  obtain ⟨name, hname, rfl⟩ := List.mem_map.1 ht
  exact ⟨kind, .ofText name, h name hname, rfl⟩

/-- Sources that look for files at places only that do not end like those of artifacts are not
    disturbed. -/
theorem undisturbed_usual (disk : Disk) (kind : ArtifactKind) (names : List String)
    (sources : List Path)
    (hnames : ∀ name ∈ names, (Path.ofText name).IsBelow ∧ Path.ofText name ∈ sources)
    (hclosed : ∀ F ∈ sources, ∀ G ∈ (usual.imports? disk F).getD [], G ∈ sources)
    (hclear : ∀ F ∈ sources, ∀ p ∈ usual.root.join F :: usual.probes disk F,
      p.IsPlace ∧ p.bytes.getLast? ≠ some 0x73) :
    ∀ F, usual.Within disk (names.map (usualArtifact kind)) F → usual.Undisturbed disk F := by
  have hroot : usual.root.IsPlace := by decide
  intro F hF
  refine undisturbed_of_getLast? hroot (hclear F ?_)
  refine mem_of_within hroot (names.map fun name => (kind, .ofText name)) ?_ ?_ hclosed hF
  · rw [List.map_map]
    rfl
  · intro r hr
    obtain ⟨name, hname, rfl⟩ := List.mem_map.1 hr
    exact hnames name hname

end ImportIndex.Project
