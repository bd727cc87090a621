import ImportIndex.Import.Rules
import ImportIndex.Proofs.Artifact.Listing
import ImportIndex.Proofs.Artifact.Name
import ImportIndex.Proofs.Build.Evaluation
import ImportIndex.Proofs.Lists

/-!
# What a source imports

The direct imports of a source depend on what the source holds, and on where the files are that are
looked for (`Project.imports?`, `Project.probes`). The rule of direct imports asks for nothing else,
and comes to these imports or fails (`directRule_meets`).
-/

namespace ImportIndex

/-! ### Recipes -/

namespace Recipe

open Tracked

variable {α β : Type} {w : World} {asks : Question → Prop}

/-- A recipe meets what its first part and, unless that fails, its second part meet. -/
theorem meets_bind {x : Recipe α} {f : α → Recipe β} {between : Except Failure α → Prop}
    {post : Except Failure β → Prop} (hx : x.run.Meets w asks between)
    (hok : ∀ a, between (.ok a) → (f a).run.Meets w asks post)
    (herror : ∀ cause, between (.error cause) → post (.error cause)) :
    (x >>= f).run.Meets w asks post := by
  refine Meets.bind hx fun r hr => ?_
  cases r with
  | ok a => exact hok a hr
  | error cause => exact herror cause hr

/-- A recipe that looks at no file heeds all faults. -/
theorem heedsFaults_of_asksOnly {x : Tracked (Except Failure α)}
    (h : x.AsksOnly fun q => ∀ p, q ≠ .content p) : x.HeedsFaults := by
  induction x with
  | done => trivial
  | readText path next ih => exact absurd rfl (h.1 path)
  | isFile path next ih => exact fun answer => ih answer (h.2 answer)
  | need target next ih => exact fun answer => ih answer (h.2 answer)
  | artifact target next ih => exact fun answer => ih answer (h.2 answer)
  | count next ih => exact fun answer => ih answer (h answer)
  | tell event next ih => exact ih h

theorem asksOnly_bind {x : Tracked α} {f : α → Tracked β} (hx : x.AsksOnly asks)
    (hf : ∀ a, (f a).AsksOnly asks) : (x.bind f).AsksOnly asks := by
  induction x with
  | done a => exact hf a
  | readText path next ih => exact ⟨hx.1, fun answer => ih answer (hx.2 answer)⟩
  | isFile path next ih => exact ⟨hx.1, fun answer => ih answer (hx.2 answer)⟩
  | need target next ih => exact ⟨hx.1, fun answer => ih answer (hx.2 answer)⟩
  | artifact target next ih => exact ⟨hx.1, fun answer => ih answer (hx.2 answer)⟩
  | count next ih => exact fun answer => ih answer (hx answer)
  | tell event next ih => exact ih hx

/-- A recipe asks for what its parts ask for. -/
theorem asksOnly_run_bind {x : Recipe α} {f : α → Recipe β} (hx : x.run.AsksOnly asks)
    (hf : ∀ a, (f a).run.AsksOnly asks) : (x >>= f).run.AsksOnly asks := by
  refine asksOnly_bind hx fun r => ?_
  cases r with
  | ok a => exact hf a
  | error cause => trivial

end Recipe

/-! ### Looking for files -/

namespace Disk

variable {disk : Disk} {relative : Path}

/-- The places where a file is looked for: under one root after another, up to the first that has
    it. -/
def probes (disk : Disk) (relative : Path) : List Path → List Path
  | [] => []
  | root :: roots =>
    root.join relative ::
      if disk.isFile (root.join relative) then [] else disk.probes relative roots

theorem exists_of_mem_probes {roots : List Path} {p : Path} (h : p ∈ disk.probes relative roots) :
    ∃ root ∈ roots, p = root.join relative := by
  induction roots with
  | nil => cases h
  | cons root roots ih =>
    rw [probes, List.mem_cons] at h
    rcases h with rfl | h
    · exact ⟨root, List.mem_cons_self, rfl⟩
    · split at h
      · cases h
      · obtain ⟨root, hroot, hp⟩ := ih h
        exact ⟨root, List.mem_cons_of_mem _ hroot, hp⟩

/-- Where there are more files, fewer places are looked at. -/
theorem probes_subset {disk' : Disk} {roots : List Path}
    (h : ∀ p, disk.isFile p = true → disk'.isFile p = true) :
    disk'.probes relative roots ⊆ disk.probes relative roots := by
  induction roots with
  | nil => exact List.Subset.refl _
  | cons root roots ih =>
    rw [probes, probes]
    refine List.cons_subset_cons _ ?_
    by_cases hfile : disk.isFile (root.join relative) = true
    · rw [if_pos (h _ hfile), if_pos hfile]
      exact List.Subset.refl _
    · rw [if_neg hfile]
      split
      · exact List.nil_subset _
      · exact ih

/-- The file that a reference stands for on the disk, as an absolute path. -/
def resolve? (disk : Disk) (scanner : Scanner) (roots : List Path) (reference : String) :
    Option Path :=
  (disk.findInRoots (scanner.candidate reference) roots).map fun root =>
    (root.join (scanner.candidate reference)).normalize

theorem findInRoots_cons {root : Path} {roots : List Path} :
    disk.findInRoots relative (root :: roots) =
      if disk.isFile (root.join relative) then some root else disk.findInRoots relative roots := by
  rw [findInRoots, ImportIndex.findInRoots]
  cases disk.isFile (root.join relative) <;> rfl

theorem findInRoots_eq_some {root : Path} {roots : List Path}
    (h : disk.findInRoots relative roots = some root) :
    root ∈ roots ∧ disk.isFile (root.join relative) = true := by
  induction roots with
  | nil => contradiction
  | cons r roots ih =>
    rw [findInRoots_cons] at h
    split at h
    · next hfile =>
      obtain rfl := Option.some.inj h
      exact ⟨List.mem_cons_self, hfile⟩
    · exact ⟨List.mem_cons_of_mem _ (ih h).1, (ih h).2⟩

/-- The place where a file is found was looked at. -/
theorem mem_probes_of_findInRoots {root : Path} {roots : List Path}
    (h : disk.findInRoots relative roots = some root) : root.join relative ∈ disk.probes relative roots := by
  induction roots with
  | nil => cases h
  | cons r roots ih =>
    rw [findInRoots_cons] at h
    rw [probes]
    split at h
    · obtain rfl := Option.some.inj h
      exact List.mem_cons_self
    · next hfile =>
      rw [if_neg hfile]
      exact List.mem_cons_of_mem _ (ih h)

end Disk

section

open Recipe Tracked

variable {disk : Disk} {w : World} (hw : ∀ p, w.content p = (disk.read p).toOption)
  {asks : Question → Prop} {scanner : Scanner} {roots : List Path} {source : Path}

include hw

theorem isFile_of_content (p : Path) : w.isFile p = disk.isFile p := by
  rw [World.isFile, hw, Disk.isFile_eq_isSome_read]

theorem findInRoots_meets {relative : Path}
    (hasks : ∀ p ∈ disk.probes relative roots, asks (.presence p)) :
    (findInRoots Recipe.isFile relative roots).run.Meets w asks
      fun r => r = .ok (disk.findInRoots relative roots) := by
  induction roots with
  | nil => exact rfl
  | cons root roots ih =>
    rw [Disk.probes] at hasks
    rw [Disk.findInRoots_cons]
    refine ⟨hasks _ List.mem_cons_self, ?_⟩
    rw [isFile_of_content hw]
    cases hfile : disk.isFile (root.join relative) with
    | true => exact rfl
    | false => exact ih fun p hp => hasks p (List.mem_cons_of_mem _ (by simpa [hfile] using hp))

theorem resolveAll_meets {references : List String} {before : List Path}
    (hasks : ∀ r ∈ references, ∀ p ∈ disk.probes (scanner.candidate r) roots, asks (.presence p)) :
    (resolveAll scanner roots source references before).run.Meets w asks
      fun r => r = .ok (before.reverse ++ references.filterMap (disk.resolve? scanner roots)) := by
  induction references generalizing before with
  | nil =>
    rw [List.filterMap_nil, List.append_nil]
    exact rfl
  | cons reference references ih =>
    rw [List.forall_mem_cons] at hasks
    have hresolve : (resolve scanner roots reference).run.Meets w asks
        fun r => r = .ok (disk.resolve? scanner roots reference) := by
      refine meets_bind (findInRoots_meets hw hasks.1) (fun root hroot => ?_) fun _ h => ?_
      · obtain rfl := Except.ok.inj hroot
        exact rfl
      · contradiction
    refine meets_bind hresolve (fun found hfound => ?_) fun _ h => ?_
    · obtain rfl := Except.ok.inj hfound
      cases hr : disk.resolve? scanner roots reference with
      | some p =>
        have hrest := @ih (p :: before) hasks.2
        rw [List.reverse_cons, List.append_assoc, List.singleton_append] at hrest
        rw [List.filterMap_cons_some hr]
        exact hrest
      | none =>
        rw [List.filterMap_cons_none hr]
        exact ih hasks.2
    · contradiction

theorem directImports_meets (hsource : asks (.content source))
    (hasks : ∀ text, disk.readText source = .ok text → ∀ r ∈ scanner.references text,
      ∀ p ∈ disk.probes (scanner.candidate r) roots, asks (.presence p)) :
    (directImports scanner roots source).run.Meets w asks
      fun r => r.toOption = (disk.readText source).toOption.map fun text =>
        (scanner.references text).filterMap (disk.resolve? scanner roots) := by
  refine ⟨hsource, fun found hfound => ?_⟩
  rw [hw] at hfound
  have htext : (found.bind Session.textOf).toOption = (disk.readText source).toOption := by
    rw [Disk.readText]
    cases hread : disk.read source with
    | ok c =>
      rw [hread] at hfound
      obtain rfl := Disk.toOption_eq_some_iff.1 hfound
      simp only [Except.bind, Session.textOf]
      cases c.toText? <;> rfl
    | error fault =>
      rw [hread] at hfound
      cases found with
      | ok c => contradiction
      | error fault' => rfl
  cases hr : found.bind Session.textOf with
  | ok text =>
    rw [hr] at htext
    have hread := Disk.toOption_eq_some_iff.1 htext.symm
    have hmeets := @resolveAll_meets disk w hw asks scanner roots source _ [] (hasks text hread)
    refine hmeets.mono (fun _ h => h) fun r h => ?_
    rw [h, hread]
    rfl
  | error fault =>
    rw [hr] at htext
    rw [← htext]
    exact rfl

end

/-! ### The rule of direct imports -/

namespace Project

variable {project : Project} {disk : Disk} {F : Path}

/-- How the references in a source are found, and where they are looked up. -/
def reading? (project : Project) (F : Path) : Option (Scanner × List Path) := do
  let family ← Family.of? project.settings F
  let scanner ← (project.scanner family).toOption
  return (scanner, project.searchRoots family)

/-- The direct imports of a source, as seen from the project root, in the order of the references
    that stand for them. There are none if the source cannot be read, or if an import is no file
    below the project root that can be listed. -/
def imports? (project : Project) (disk : Disk) (F : Path) : Option (List Path) := do
  let (scanner, roots) ← project.reading? F
  let text ← (disk.readText (project.root.join F)).toOption
  let found := (scanner.references text).filterMap (disk.resolve? scanner roots)
  let imports ← (found.mapM fun p : Path => p.relativeTo project.root).toOption
  let _ ← (Listing.render imports).toOption
  return imports

/-- The places where the direct imports of a source are looked for. -/
def probes (project : Project) (disk : Disk) (F : Path) : List Path :=
  match project.reading? F, disk.readText (project.root.join F) with
  | some (scanner, roots), .ok text =>
    (scanner.references text).flatMap fun r => disk.probes (scanner.candidate r) roots
  | _, _ => []

theorem reading?_eq {family : Family} {scanner : Scanner}
    (hfamily : Family.of? project.settings F = some family)
    (hscanner : project.scanner family = .ok scanner) :
    project.reading? F = some (scanner, project.searchRoots family) := by
  rw [reading?, hfamily, Option.bind_eq_bind, Option.bind_some, hscanner]
  rfl

/-- Only a source that has a family is read for imports. -/
theorem exists_family_of_reading? {scanner : Scanner} {roots : List Path}
    (h : project.reading? F = some (scanner, roots)) :
    ∃ family, Family.of? project.settings F = some family := by
  simp only [reading?, Option.bind_eq_bind, Option.bind_eq_some_iff] at h
  obtain ⟨family, hfamily, -⟩ := h
  exact ⟨family, hfamily⟩

/-- The rule of direct imports asks for the source and looks where it says, and comes to the direct
    imports, if there are any. -/
theorem directRule_meets {family : Family} {scanner : Scanner} {t : Path} {w : World}
    {asks : Question → Prop} (hfamily : Family.of? project.settings F = some family)
    (hscanner : project.scanner family = .ok scanner)
    (ht : ArtifactKind.direct.source? project.outputRoot t = some F)
    (hw : ∀ p, w.content p = (disk.read p).toOption) (hsource : asks (.content (project.root.join F)))
    (hprobes : ∀ p ∈ project.probes disk F, asks (.presence p)) :
    (((project.importFamily family scanner).directRule project.outputRoot project.root).recipe
      t).run.Meets w asks fun r => r.toOption =
        (project.imports? disk F).bind fun ds => (ImportFamily.listing ds).toOption := by
  have hreading := reading?_eq hfamily hscanner
  have hsourceOf : (ImportFamily.sourceOf .direct project.outputRoot t) = pure F := by
    rw [ImportFamily.sourceOf, ht]
  change (ImportFamily.sourceOf .direct project.outputRoot t >>= _).run.Meets w asks _
  rw [hsourceOf, pure_bind]
  refine Recipe.meets_bind (directImports_meets hw hsource fun text htext r hr p hp => ?_)
    (fun found hfound => ?_) fun cause hcause => ?_
  · refine hprobes p ?_
    rw [probes, hreading, htext]
    exact List.mem_flatMap.2 ⟨r, hr, hp⟩
  · obtain ⟨text, htext, rfl⟩ := Option.map_eq_some_iff.1 hfound.symm
    rw [imports?, hreading]
    simp only [Option.bind_eq_bind, Option.bind_some, htext]
    change Except.toOption (ImportFamily.listingBelow project.root _) = _
    rw [ImportFamily.listingBelow]
    cases ((scanner.references text).filterMap
      (disk.resolve? scanner (project.searchRoots family))).mapM
        fun p : Path => p.relativeTo project.root with
    | error cause => rfl
    | ok ds =>
      change (ImportFamily.listing ds).toOption = _
      cases hr : Listing.render ds <;>
        simp [ImportFamily.listing, hr, Except.map, Except.toOption]
  · rw [imports?, hreading]
    simp only [Option.bind_eq_bind, Option.bind_some]
    rw [Option.map_eq_none_iff.1 hcause.symm]
    rfl

/-- The rule of direct imports fails if the source cannot be read. -/
theorem heedsFaults_directRule {family : ImportFamily} {scanner : Scanner} {roots : List Path}
    {out root t : Path} (himports : family.imports = directImports scanner roots) :
    ((family.directRule out root).recipe t).run.HeedsFaults := by
  have hresolve : ∀ (source : Path) (references : List String) (before : List Path),
      (resolveAll scanner roots source references before).run.AsksOnly
        fun q => ∀ p, q ≠ .content p := by
    intro source references
    induction references with
    | nil => exact fun _ => trivial
    | cons reference references ih =>
      intro before
      refine Recipe.asksOnly_run_bind (Recipe.asksOnly_run_bind ?_ fun _ => trivial) fun found => ?_
      · generalize hroots : roots = rs
        clear hroots himports
        induction rs with
        | nil => trivial
        | cons r rs ihr =>
          refine ⟨fun p => by simp, fun answer => ?_⟩
          cases answer with
          | true => trivial
          | false => exact ihr
      · cases found with
        | some p => exact ih _
        | none => exact ih _
  change (ImportFamily.sourceOf .direct out t >>= fun source : Path =>
    (family.imports (root.join source) >>= fun ds => _ : Recipe Content)).run.HeedsFaults
  rw [ImportFamily.sourceOf]
  cases ArtifactKind.direct.source? out t with
  | none => trivial
  | some F =>
    rw [himports]
    refine ⟨fun answer => ?_, fun fault _ => rfl⟩
    refine Recipe.heedsFaults_of_asksOnly ?_
    cases answer with
    | error fault => trivial
    | ok text => exact Recipe.asksOnly_run_bind (hresolve _ _ []) fun ds => trivial

/-! ### What the imports are like -/

/-- The imports of a source can be listed, and lie below the project root. -/
theorem exists_of_imports? {ds : List Path} (h : project.imports? disk F = some ds) :
    ∃ scanner roots text, project.reading? F = some (scanner, roots) ∧
      disk.readText (project.root.join F) = .ok text ∧
      (((scanner.references text).filterMap (disk.resolve? scanner roots)).mapM
        fun p : Path => p.relativeTo project.root) = .ok ds ∧
      ∃ text, Listing.render ds = .ok text := by
  rw [imports?] at h
  simp only [Option.bind_eq_bind, Option.bind_eq_some_iff, Disk.toOption_eq_some_iff] at h
  obtain ⟨⟨scanner, roots⟩, hreading, text, htext, imports, himports, listed, hlisted, h⟩ := h
  obtain rfl := Option.some.inj h
  exact ⟨scanner, roots, text, hreading, htext, himports, listed, hlisted⟩

theorem isAbsolute_of_reading? (hroot : project.root.IsPlace) {scanner : Scanner}
    {roots : List Path} (h : project.reading? F = some (scanner, roots)) {root : Path}
    (hr : root ∈ roots) : root.isAbsolute = true := by
  simp only [reading?, Option.bind_eq_bind, Option.bind_eq_some_iff] at h
  obtain ⟨family, -, scanner', -, h⟩ := h
  obtain ⟨-, rfl⟩ := Prod.mk.inj (Option.some.inj h)
  have hdir : ∃ p, project.dir p = root := by
    cases family
    · obtain ⟨p, -, hp⟩ := List.mem_map.1 hr
      exact ⟨p, hp⟩
    · obtain ⟨p, -, hp⟩ := List.mem_map.1 hr
      exact ⟨p, hp⟩
  obtain ⟨p, rfl⟩ := hdir
  exact (isPlace_dir hroot.1 p).1

theorem isAbsolute_of_mem_probes (hroot : project.root.IsPlace) {p : Path}
    (h : p ∈ project.probes disk F) : p.isAbsolute = true := by
  rw [probes] at h
  split at h
  · next scanner roots text hreading _ =>
    obtain ⟨r, -, hp⟩ := List.mem_flatMap.1 h
    obtain ⟨root, hmem, rfl⟩ := Disk.exists_of_mem_probes hp
    exact Path.isAbsolute_join (isAbsolute_of_reading? hroot hreading hmem) _
  · cases h

/-- Where a source is read alike and there are more files, its imports are looked for in fewer places. -/
theorem probes_subset {disk' : Disk}
    (hread : (disk'.read (project.root.join F)).toOption = (disk.read (project.root.join F)).toOption)
    (h : ∀ p, disk.isFile p = true → disk'.isFile p = true) :
    project.probes disk' F ⊆ project.probes disk F := by
  intro p hp
  rw [probes] at hp
  split at hp
  · next scanner roots text hreading htext =>
    have htext' : disk.readText (project.root.join F) = .ok text := by
      rw [← Disk.toOption_eq_some_iff, ← Disk.readText_congr hread, htext]
      rfl
    obtain ⟨r, hr, hp⟩ := List.mem_flatMap.1 hp
    rw [probes, hreading, htext']
    exact List.mem_flatMap.2 ⟨r, hr, Disk.probes_subset h hp⟩
  · cases hp

theorem isBelow_of_imports? (hroot : project.root.IsPlace) {ds : List Path}
    (h : project.imports? disk F = some ds) {G : Path} (hG : G ∈ ds) : G.IsBelow := by
  obtain ⟨scanner, roots, text, hreading, -, hds, -⟩ := exists_of_imports? h
  obtain ⟨p, hp, hrelative⟩ := exists_of_mapM_eq_ok hds hG
  obtain ⟨reference, -, hresolve⟩ := List.mem_filterMap.1 hp
  obtain ⟨root, hfound, rfl⟩ := Option.map_eq_some_iff.1 hresolve
  have hmem := (Disk.findInRoots_eq_some hfound).1
  refine Path.isBelow_of_relativeTo hroot ?_ hrelative
  exact (Path.isPlace_normalize (Path.isAbsolute_join
    (isAbsolute_of_reading? hroot hreading hmem) _)).1

end Project

end ImportIndex
