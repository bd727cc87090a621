import ImportIndex.Proofs.Build.Unfailing
import ImportIndex.Proofs.Import.Attested
import ImportIndex.Proofs.Import.Nesting

/-!
# Cycles are no failures

An import that closes a cycle is refused, and the rule that asked for it goes on with its direct imports.
Nothing else is refused where the direct imports of all sources can be listed and the artifacts can be
written. So no target fails then, however the sources import one another, whatever is required first, and
whatever traces older builds left (`Project.unfailing`).

It is not enough for this that the direct imports can be listed at first: the directory of the artifacts
may open the way to a source whose imports cannot be (`Project.exists_failed_through_artifacts`).
-/

namespace ImportIndex

/-- Whether all paths of a list can be listed in an artifact. -/
def Listable (ps : List Path) : Prop := ∀ p ∈ ps, ∃ line, Listing.line? p = some line

theorem Listable.listing {ps : List Path} (h : Listable ps) : ∃ c, ImportFamily.listing ps = .ok c := by
  obtain ⟨text, htext⟩ := Listing.render_eq_ok_iff.2 h
  exact ⟨.ofText text, by rw [ImportFamily.listing, htext, Except.map]⟩

namespace Project

open Relation Session

variable {project : Project} {book : Rulebook} {disk disk' : Disk} {traces : TraceTable} {ts : List Path}
  {sources : Path → Prop} {within : Nat → Path → Prop} {w : World} {F : Path} {L ds : List Path}
  {t : Path} {rule : Rule}

/-- Whether a target is an artifact of one of some sources. -/
def IsArtifactOf (project : Project) (sources : Path → Prop) (t : Path) : Prop :=
  ∃ (kind : ArtifactKind) (F : Path), sources F ∧ t = kind.artifact project.outputRoot F

/-- Whether artifacts of sources can be written, whatever artifacts of them were written before: direct
    ones with the imports, and transitive ones with any paths. -/
def Writable (project : Project) (disk : Disk) (sources : Path → Prop) : Prop :=
  ∀ disk' t c, disk.Rewritten (project.IsArtifactOf sources) disk' → project.IsArtifactOf sources t →
    project.Makes disk (fun _ _ => True) t c →
      ∃ written, (Disk.writeIfChanged t c disk').1 = .ok written

/-! ### What can be listed -/

theorem listable_of_imports? (h : project.imports? disk F = some ds) : Listable ds := by
  obtain ⟨-, -, -, -, -, -, hrender⟩ := exists_of_imports? h
  exact Listing.render_eq_ok_iff.1 hrender

/-- What is put together from lists can be listed. -/
theorem listable_of_collects (hroot : project.root.IsPlace)
    (hw : project.Fits disk (fun _ => Listable) w) (hF : F.IsBelow) (h : w.Collects project F L) :
    Listable L := by
  obtain ⟨ds, parts, hds, hparts, rfl⟩ := h
  have himports := hw.gives_direct hF hds
  intro p hp
  rcases (mem_collected.1 hp).1 with hp | ⟨part, hpart, hp⟩
  · exact listable_of_imports? himports p hp
  · obtain ⟨G, hG, hcontributes⟩ := exists_of_forall₂ hparts hpart
    have hbelow := isBelow_of_imports? hroot himports (List.mem_of_mem_filter hG)
    exact (hw.contributes hroot hbelow hcontributes).2.elim (· p hp) fun h =>
      listable_of_imports? h.2 p hp

/-- Only what can be listed is an import, so there are rules for the artifacts of an import if its own
    imports can be listed. -/
theorem exists_find_of_imports (hroot : project.root.IsPlace) (hbook : project.rules = .ok book.rules)
    (hF : F.IsBelow) (hds : project.imports? disk F = some ds) {G : Path}
    (hG : project.Imports disk G F) (kind : ArtifactKind) :
    ∃ rule, book.find (kind.artifact project.outputRoot F) = .ok rule := by
  obtain ⟨scanner, roots, -, hreading, -⟩ := exists_of_imports? hds
  obtain ⟨es, hes, hmem⟩ := hG
  obtain ⟨line, hline⟩ := listable_of_imports? hes F hmem
  obtain ⟨family, hfamily⟩ := exists_family_of_reading? hreading
  exact exists_find_of_text hroot hbook hF hfamily (Option.filter_eq_some_iff.1 hline).1 kind

/-- The rule of an artifact succeeds if it lacks nothing and the direct imports can be listed. -/
theorem Fits.exists_ok (hw : project.Fits disk (fun _ => Listable) w) (hroot : project.root.IsPlace)
    (hbook : project.rules = .ok book.rules) (hF : F.IsBelow) (hlacks : ¬ w.Lacks)
    (hds : project.imports? disk F = some ds) {kind : ArtifactKind}
    (hfind : book.find (kind.artifact project.outputRoot F) = .ok rule) {deps : List Dependency}
    {r : Except Failure Content} (hsteps : Tracked.Steps book w 0
      (rule.recipe (kind.artifact project.outputRoot F)).run deps (.done r)) : ∃ c, r = .ok c := by
  cases kind with
  | direct =>
    have hpost : r.toOption = _ := (hw.direct_meets hroot hbook hF hfind).steps hsteps
    obtain ⟨c, hc⟩ := (listable_of_imports? hds).listing
    rw [hds, Option.bind_some, hc] at hpost
    exact ⟨c, Disk.toOption_eq_some_iff.1 hpost⟩
  | transitive =>
    rcases (hw.transitive_meets hroot hbook hF hfind).steps hsteps with ⟨L, hL, rfl⟩ | ⟨hlacks', -⟩
    · exact (listable_of_collects hroot hw hF hL).listing
    · exact absurd hlacks' hlacks

/-- A session lacks nothing if it refuses nothing but what the rules get over. -/
theorem not_lacks_world {lists : Path → List Path → Prop} {refuses : Path → Failure → Prop}
    (h : ∀ t cause, refuses t cause → GetsOver t cause) :
    ¬ (project.importScope book disk traces sources lists refuses within).world.Lacks := by
  rintro (⟨t, cause, hrefused, hnot⟩ | ⟨t, c, ⟨_, _, ps, _, _, hlisting, _⟩, hnone⟩)
  · exact hnot (h t cause hrefused)
  · obtain ⟨text, -, htext⟩ := exists_of_listing hlisting
    cases hnone.symm.trans htext

/-! ### Sessions -/

section

variable (hroot : project.root.IsPlace) (hbook : project.rules = .ok book.rules)
  (hruled : ∀ t ∈ ts, ∃ rule, book.find t = .ok rule)
  (himports : ∀ F, project.Within disk ts F → ∃ ds, project.imports? disk F = some ds)

include hroot hbook hruled himports

/-- There are rules for both artifacts of every source that is worked on. -/
theorem exists_find_of_within (hF : project.Within disk ts F) (kind : ArtifactKind) :
    ∃ rule, book.find (kind.artifact project.outputRoot F) = .ok rule := by
  obtain ⟨ds, hds⟩ := himports F hF
  obtain ⟨other, G, hG, hmem, hreach⟩ := hF
  have hbelow := isBelow_of_reflTransGen hroot hG hreach
  cases hreach with
  | refl =>
    obtain ⟨rule, hfind⟩ := hruled _ hmem
    exact exists_find_artifact hroot hbook hG hfind kind
  | tail _ hfollows => exact exists_find_of_imports hroot hbook hbelow hds hfollows.1 kind

variable (hundisturbed : ∀ F, project.Within disk ts F → project.Undisturbed disk F)

include hundisturbed

/-- A session in which nothing is refused but transitive artifacts for cycles. -/
theorem lawful_getsOver (hinj : Function.Injective book.digest) (h : project.Recorded book traces)
    (hwritable : project.Writable disk (project.Within disk ts)) :
    (project.importScope book disk traces (project.Within disk ts) (fun _ => Listable) GetsOver
      fun _ _ => False).Lawful := by
  have hs := sources_within hroot hundisturbed
  refine lawful_importScope hroot hbook hs hinj rfl ?genuine ?lists ?cycle ?unruled ?failed ?unwritten
    ?again ?shallow ?deeper
  case genuine =>
    rintro t trace ⟨kind, F, hF, rfl⟩ hget
    exact h.genuine hroot hbook hinj ⟨kind, F, hs.below hF, rfl⟩ hget
  case lists => exact fun hF => listable_of_collects hroot (fits_world hroot) (hs.below hF)
  case cycle => exact fun _ _ _ => getsOver_transitive rfl
  case unruled =>
    rintro t cause ⟨kind, F, hF, rfl⟩ hnone
    obtain ⟨rule, hfind⟩ := exists_find_of_within hroot hbook hruled himports hF kind
    cases hnone.symm.trans hfind
  case failed =>
    rintro t rule deps cause ⟨kind, F, hF, rfl⟩ hfind hsteps
    obtain ⟨ds, hds⟩ := himports F hF
    obtain ⟨c, hc⟩ := (fits_world hroot).exists_ok hroot hbook (hs.below hF)
      (not_lacks_world fun _ _ => id) hds hfind hsteps
    cases hc
  case unwritten =>
    rintro disk' t c fault hreach ht ⟨kind, F, ps, hF, heq, hlisting, hbelow, hlists⟩ hfault
    have hmakes : project.Makes disk (fun _ _ => True) t c := by
      refine ⟨kind, F, ps, hF, heq, hlisting, hbelow, ?_⟩
      cases kind with
      | direct => exact hlists
      | transitive => trivial
    obtain ⟨written, hwrite⟩ := hwritable disk' t c hreach ht hmakes
    cases hfault.symm.trans hwrite
  case again => exact fun hrefused hcause => absurd hrefused.1 (by simp [hcause])
  case shallow => exact id
  case deeper => exact fun _ h => h.elim

end

/-- However sources import one another, whatever is required first, and whatever traces older builds
    left: a build of artifacts ends, and no target fails in it, if

    * there are rules for the artifacts that are required;
    * of their sources, and of those that these take over in turn, the direct imports can be listed;
    * none of these sources is disturbed when artifacts are written;
    * their artifacts can be written. -/
theorem unfailing (engine : Engine) (hroot : project.root.IsPlace)
    (hbook : project.rules = .ok engine.book.rules) (hinj : Function.Injective engine.book.digest)
    (h : project.Recorded engine.book engine.traces) (hts : ∀ t ∈ ts, project.IsArtifact t)
    (hruled : ∀ t ∈ ts, ∃ rule, engine.book.find t = .ok rule)
    (himports : ∀ F, project.Within disk ts F → ∃ ds, project.imports? disk F = some ds)
    (hundisturbed : ∀ F, project.Within disk ts F → project.Undisturbed disk F)
    (hwritable : project.Writable disk (project.Within disk ts)) :
    (∃ depth, ∀ n ≥ depth, ∃ built, engine.build n ts disk = some built) ∧
    ∀ n built, engine.build n ts disk = some built →
      built.report.failed = [] ∧ built.report.stats.failed = 0 := by
  constructor
  · obtain ⟨depth, hdepth⟩ := exists_requireAll hroot hbook ts disk engine.traces
    refine ⟨depth, fun n hn => ?_⟩
    obtain ⟨⟨failed, s⟩, hrun⟩ := hdepth n hn
    exact ⟨_, Engine.build_of_requireAll hrun⟩
  · intro n built hbuilt
    obtain ⟨⟨failed, s⟩, hrun, hbuilt⟩ := Option.bind_eq_some_iff.1 hbuilt
    obtain rfl := Option.some.inj hbuilt
    have hl := lawful_getsOver hroot hbook hruled himports hundisturbed hinj h hwritable
    obtain ⟨hfailed, hstats, -⟩ :=
      Scope.flawless hl (fun _ _ => And.left) (fun t ht => exists_within_of_mem hts ht) hrun
    exact ⟨hfailed, hstats⟩

/-! ### Room for artifacts -/

/-- Artifacts can be written where there is room for all of them. -/
theorem writable_of_room {places : Location → Prop} (h : disk.Room places)
    (hplaces : ∀ t, project.IsArtifactOf sources t → Disk.At places t) :
    project.Writable disk sources := by
  intro disk' t c hreach ht _
  obtain ⟨l, hl, rfl⟩ := hplaces t ht
  exact (h.rewritten (hreach.mono hplaces)).exists_write hl

/-- The places of the artifacts of sources that are named so. -/
def usualPlaces (names : List String) : List Location :=
  names.flatMap fun name => ArtifactKind.all.map fun kind =>
    ["w", "_build", "deps", name ++ kind.suffix].map Bytes.ofText

theorem writable_usual (names : List String) (hsources : ∀ F, sources F → F ∈ names.map .ofText)
    (hnames : ∀ name ∈ names, ∀ kind ∈ ArtifactKind.all, usualArtifact kind name =
      .ofLocation (["w", "_build", "deps", name ++ kind.suffix].map Bytes.ofText))
    (hplaces : ∀ l ∈ usualPlaces names, (∀ n ∈ l, IsName n) ∧ l ≠ [] ∧ Disk.Usable l ∧
      ∀ m ∈ usualPlaces names, l <+: m → l = m)
    (hfree : ∀ l ∈ usualPlaces names, disk.Free l) (hrefuses : ∀ p step, disk.refuses p step = none) :
    usual.Writable disk sources := by
  have hroom : disk.Room (· ∈ usualPlaces names) := {
    names := fun hl => (hplaces _ hl).1
    nonempty := fun hl => (hplaces _ hl).2.1
    usable := fun hl => (hplaces _ hl).2.2.1
    free := fun hl => hfree _ hl
    apart := fun hl hm => (hplaces _ hl).2.2.2 _ hm
    refuses := fun step _ => hrefuses _ step }
  refine writable_of_room hroom ?_
  rintro _ ⟨kind, F, hF, rfl⟩
  obtain ⟨name, hname, rfl⟩ := List.mem_map.1 (hsources F hF)
  have hkind : kind ∈ ArtifactKind.all := by cases kind <;> decide
  exact ⟨_, List.mem_flatMap.2 ⟨name, hname, List.mem_map_of_mem hkind⟩,
    hnames name hname kind hkind⟩

theorem exists_rule_usual (h : (usualBook.find t).toOption.isSome = true) :
    ∃ rule, usualBook.find t = .ok rule := by
  obtain ⟨rule, hrule⟩ := Option.isSome_iff_exists.1 h
  exact ⟨rule, Disk.toOption_eq_some_iff.1 hrule⟩

/-! ### A cycle that was turned -/

/-- What there is on the disk when the last source of the cycle is made to import the one before it. -/
def turned (disk : Disk) : Disk where
  top := (Disk.writeIfChanged (.ofText "/w/c.c") (.ofText "#include \"b.c\"") disk).2.top

/-- After another cycle was built, the sources of the new one are required, the last one first. -/
theorem unfailing_turned : ∃ before : Built,
    (Engine.inMemory usualBook).build 6 [usualArtifact .transitive "a.c"] ring = some before ∧
    let engine : Engine := { Engine.inMemory usualBook with traces := before.engine.traces }
    let targets := ["c.c", "b.c"].map (usualArtifact .transitive)
    (∃ depth, ∀ n ≥ depth, ∃ built, engine.build n targets (turned before.disk) = some built) ∧
    ∀ n built, engine.build n targets (turned before.disk) = some built →
      built.report.failed = [] ∧ built.report.stats.failed = 0 := by
  have hrun : ((Engine.inMemory usualBook).build 6 [usualArtifact .transitive "a.c"] ring).any
      (fun before : Built => decide (
        (∀ F ∈ ["b.c", "c.c", "x.h"].map Path.ofText,
          (∀ G ∈ (usual.imports? (turned before.disk) F).getD [],
            G ∈ ["b.c", "c.c", "x.h"].map Path.ofText) ∧
          (usual.imports? (turned before.disk) F).isSome ∧
          ∀ p ∈ usual.root.join F :: usual.probes (turned before.disk) F,
            p.IsPlace ∧ p.bytes.getLast? ≠ some 0x73) ∧
        ∀ l ∈ usualPlaces ["b.c", "c.c", "x.h"], (turned before.disk).Free l)) = true := by
    decide +kernel
  obtain ⟨before, run, h⟩ := (Option.any_eq_true _ _).1 hrun
  obtain ⟨hsources, hfree⟩ := of_decide_eq_true h
  have hroot : usual.root.IsPlace := by decide
  have hwithin : ∀ F, usual.Within (turned before.disk)
      (["c.c", "b.c"].map (usualArtifact .transitive)) F →
        F ∈ ["b.c", "c.c", "x.h"].map Path.ofText :=
    fun F hF => mem_of_within hroot (["c.c", "b.c"].map fun name => (.transitive, .ofText name)) rfl
      (by decide) (fun F hF => (hsources F hF).1) hF
  have hfind : ∀ t ∈ ["c.c", "b.c"].map (usualArtifact .transitive),
      (usualBook.find t).toOption.isSome = true := by decide
  have hrecorded : usual.Recorded usualBook before.engine.traces :=
    .build .start (fun t ht _ _ => isArtifact_usual .transitive ["a.c"] (by decide) t ht) run
  have hundisturbed := undisturbed_usual (turned before.disk) .transitive ["c.c", "b.c"]
    (["b.c", "c.c", "x.h"].map .ofText) (by decide) (fun F hF => (hsources F hF).1)
    fun F hF => (hsources F hF).2.2
  have hwritable : usual.Writable (turned before.disk)
      (usual.Within (turned before.disk) (["c.c", "b.c"].map (usualArtifact .transitive))) :=
    writable_usual ["b.c", "c.c", "x.h"] hwithin (by decide) (by decide) hfree
      fun _ _ => rfl
  exact ⟨before, run, unfailing { Engine.inMemory usualBook with traces := before.engine.traces } hroot
    rules_usual Content.spelled_injective hrecorded
    (isArtifact_usual .transitive ["c.c", "b.c"] (by decide))
    (fun t ht => exists_rule_usual (hfind t ht))
    (fun F hF => Option.isSome_iff_exists.1 (hsources F (hwithin F hF)).2.1) hundisturbed hwritable⟩

/-! ### A source that appears -/

/-- A source that refers to a file through the directory that the artifacts are in, one that imports
    nothing, and the file, which is no text. -/
def garbled : Disk where
  top := .dir (.ofText "w") (.file (.ofText "a.c") (.ofText "#include \"_build/../x.h\"")
    (.file (.ofText "b.c") (.ofText "") (.file (.ofText "x.h") ⟨⟨#[0xFF]⟩⟩ .empty))) .empty

/-- The direct imports of all sources can be listed, nothing is looked for among the artifacts, and these
    can be written. But when the first of them is written, a file appears that the other source refers to,
    and its own direct imports cannot be listed. -/
theorem exists_failed_through_artifacts :
    let targets := [usualArtifact .direct "b.c", usualArtifact .transitive "a.c"]
    Function.Injective usualBook.digest ∧ usual.Recorded usualBook ∅ ∧
    (∀ t ∈ targets, usual.IsArtifact t ∧ ∃ rule, usualBook.find t = .ok rule) ∧
    (∀ F, usual.Within garbled targets F → (∃ ds, usual.imports? garbled F = some ds) ∧
      ∀ p ∈ usual.probes garbled F, ¬ p.normalize.StartsWith usual.outputRoot) ∧
    usual.Writable garbled (usual.Within garbled targets) ∧
    ∃ built, (Engine.inMemory usualBook).build 5 targets garbled = some built ∧
      built.report.failed.map (·.1) = [usualArtifact .transitive "a.c"] ∧
      built.report.stats.failed = 3 := by
  intro targets
  have hrun : ((Engine.inMemory usualBook).build 5 targets garbled).any (fun built => decide (
      built.report.failed.map (·.1) = [usualArtifact .transitive "a.c"] ∧
        built.report.stats.failed = 3)) = true := by
    decide +kernel
  have hsources : ∀ F ∈ ["a.c", "b.c"].map Path.ofText, usual.imports? garbled F = some [] ∧
      ∀ p ∈ usual.probes garbled F, ¬ p.normalize.StartsWith usual.outputRoot := by
    decide +kernel
  have hfind : ∀ t ∈ targets, (usualBook.find t).toOption.isSome = true := by decide
  have hwithin : ∀ F, usual.Within garbled targets F → F ∈ ["a.c", "b.c"].map Path.ofText :=
    fun F hF => mem_of_within (by decide)
      [(.direct, .ofText "b.c"), (.transitive, .ofText "a.c")] rfl (by decide)
      (fun F hF => by simp [(hsources F hF).1]) hF
  refine ⟨Content.spelled_injective, .start, fun t ht => ⟨?_, exists_rule_usual (hfind t ht)⟩,
    fun F hF => ?_, ?_, ?_⟩
  · have hbelow : ∀ name ∈ ["a.c", "b.c"], (Path.ofText name).IsBelow := by decide
    rcases List.mem_pair.1 ht with rfl | rfl
    · exact isArtifact_usual .direct _ hbelow _ (List.mem_map_of_mem (by simp))
    · exact isArtifact_usual .transitive _ hbelow _ (List.mem_map_of_mem (by simp))
  · exact ⟨⟨_, (hsources F (hwithin F hF)).1⟩, (hsources F (hwithin F hF)).2⟩
  · exact writable_usual ["a.c", "b.c"] hwithin (by decide) (by decide)
      (by decide) fun _ _ => rfl
  · obtain ⟨built, run, hbuilt⟩ := (Option.any_eq_true _ _).1 hrun
    exact ⟨built, run, of_decide_eq_true hbuilt⟩

end Project

end ImportIndex
