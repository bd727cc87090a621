import ImportIndex.Proofs.Artifact.RoundTrip
import ImportIndex.Proofs.Import.Confined
import ImportIndex.Proofs.Import.Exact
import ImportIndex.Proofs.Import.Graph
import ImportIndex.Proofs.Reference.Dotted
import ImportIndex.Proofs.Source.Discovery

/-!
# Imports through dotted references

What a dotted reference stands for is looked for below the search roots and nowhere else, as long as the
extension of dotted sources is without separators. So the rule of direct imports never comes upon a file
outside of the project that way (`Project.dotted_enclosed`).

A file that is found for a reference that does not end in a dot has the extension of dotted sources, without
dots at its front. So it is a dotted source itself, is expanded, and is discovered (`Project.dotted_family`).
This does not hold if the extension is set with a dot: references are read as if it were without, while
sources are not (`Project.exists_candidate_of_no_family`).
-/

namespace ImportIndex.Project

open Path

variable {project : Project} {scanner : Scanner} {root : Path} {paths : List Path} {r : String}

theorem scanner_eq (h : project.scanner .dotted = .ok scanner) : scanner =
    .dotted project.settings.moduleKeyword (Scanner.undotted project.settings.moduleExtension) :=
  (Scanner.ofModules_eq_ok_iff.1 h).2

section

variable (hscanner : project.scanner .dotted = .ok scanner)
  (hslash : '/' ∉ (Scanner.undotted project.settings.moduleExtension).toList)

include hscanner hslash

/-- A dotted reference stands for a file that is looked for below each search root. -/
theorem isName_of_mem_candidate {text : String} (hr : r ∈ scanner.references text) :
    ∀ c ∈ (scanner.candidate r).components, ∃ n, c = .name n := by
  obtain rfl := scanner_eq hscanner
  exact Scanner.isName_of_mem_candidate (Scanner.isDotted_of_mem_references hr) hslash Scanner.head?_undotted

theorem startsWith_of_candidate {text : String} (hr : r ∈ scanner.references text) (root : Path) :
    (root.join (scanner.candidate r)).normalize.StartsWith root.normalize := by
  rw [StartsWith, components_normalize_join (isName_of_mem_candidate hscanner hslash hr)]
  exact List.prefix_append _ _

end

/-- Files below the root of the project are listed, unless one cannot be a line. -/
theorem listingBelow_ne_outsideRoot {p prefixed : Path} (h : ∀ p ∈ paths, p.normalize.StartsWith root) :
    ImportFamily.listingBelow root paths ≠ .error (.outsideRoot p prefixed) := by
  rcases mapM_cases (fun p : Path => p.relativeTo root) paths with
    ⟨_, q, _, cause, hpaths, -, hq, -⟩ | ⟨relative, hmap, -⟩
  · rcases Path.relativeTo_cases q root with ⟨-, d, hd⟩ | ⟨houtside, -⟩
    · cases hd.symm.trans hq
    · exact absurd (h q (hpaths ▸ by simp)) houtside
  · rw [ImportFamily.listingBelow, hmap]
    change (Listing.render relative).map Content.ofText ≠ _
    cases hrender : Listing.render relative with
    | ok text => simp [Except.map]
    | error cause =>
      obtain ⟨_, q, _, -, -, -, rfl⟩ := Listing.exists_of_render_error hrender
      simp [Except.map]

/-- The rule of direct imports never comes upon a file outside of the root if references lead only below it. -/
theorem confined_directRule {family : ImportFamily} {roots : List Path} {out t : Path}
    (himports : family.imports = directImports scanner roots)
    (hbelow : ∀ text, ∀ r ∈ scanner.references text, ∀ base ∈ roots,
      (base.join (scanner.candidate r)).normalize.normalize.StartsWith root) :
    ((family.directRule out root).recipe t).run.Confined (fun _ => True)
      fun r => ∀ p prefixed, r ≠ .error (.outsideRoot p prefixed) := by
  change (ImportFamily.sourceOf .direct out t >>= fun source : Path =>
    (family.imports (root.join source) >>= fun paths =>
      liftM (ImportFamily.listingBelow root paths) : Recipe Content)).run.Confined _ _
  cases hF : ArtifactKind.direct.source? out t with
  | none =>
    have hnone : ImportFamily.sourceOf .direct out t = throw (.notAnArtifact t) := by
      rw [ImportFamily.sourceOf, hF]
    rw [hnone]
    exact fun _ _ h => by cases h
  | some F =>
    have hsource : ImportFamily.sourceOf .direct out t = pure F := by rw [ImportFamily.sourceOf, hF]
    rw [hsource, himports]
    simp only [pure_bind]
    have hdirect : (directImports scanner roots (root.join F)).run.Confined (fun _ => True) fun r =>
        (∃ fault, r = .error (.readSource (root.join F) fault)) ∨
          ∃ found, r = .ok found ∧ ∀ p ∈ found, p.normalize.StartsWith root :=
      confined_directImports trivial (fun _ _ _ _ _ => trivial) hbelow
    refine Recipe.confined_bind hdirect (fun found hfound => ?_) fun cause hcause p prefixed heq => ?_
    · obtain ⟨_, h⟩ | ⟨_, h, hfound⟩ := hfound
      · cases h
      · obtain rfl := Except.ok.inj h
        have hlisting := fun p prefixed => @listingBelow_ne_outsideRoot root found p prefixed hfound
        cases hresult : ImportFamily.listingBelow root found with
        | ok content => exact fun _ _ h => by cases h
        | error cause => exact fun p prefixed h => hlisting p prefixed (hresult.trans (by cases h; rfl))
    · rcases hcause with ⟨_, h⟩ | ⟨_, h, -⟩ <;> cases h
      cases heq

/-- Dotted references cannot lead out of the search roots if the extension of the files that they stand for is
    without separators: such a file is looked for by a relative path without `..`, so that it lies below the
    search root, whatever that is. With all search roots below the root of the project, the rule of direct
    imports never fails for a file outside of it, whatever the source holds and whatever is on the disk. -/
theorem dotted_enclosed (hext : '/' ∉ project.settings.moduleExtension.toList)
    (hscanner : project.scanner .dotted = .ok scanner) :
    (∀ text, ∀ r ∈ scanner.references text, (scanner.candidate r).isAbsolute = false ∧
      .up ∉ (scanner.candidate r).components ∧
      ∀ root : Path, (root.join (scanner.candidate r)).normalize.StartsWith root.normalize) ∧
    (project.root.IsPlace → (∀ root ∈ project.moduleRoots, root.StartsWith project.root) →
      ∀ book require t s result deps s', Session.answer book require t
        (((project.importFamily .dotted scanner).directRule project.outputRoot project.root).recipe t).run [] s =
          some ((result, deps), s') → ∀ p prefixed, result ≠ .error (.outsideRoot p prefixed)) := by
  have hslash : '/' ∉ (Scanner.undotted project.settings.moduleExtension).toList :=
    fun h => hext (Scanner.mem_of_mem_undotted h)
  refine ⟨fun text r hr => ⟨?_, fun hup => ?_, startsWith_of_candidate hscanner hslash hr⟩,
    fun hroot hroots book require t s result deps s' hanswer => ?_⟩
  · obtain rfl := scanner_eq hscanner
    exact Scanner.not_isAbsolute_candidate (Scanner.isDotted_of_mem_references hr)
  · obtain ⟨n, hn⟩ := isName_of_mem_candidate hscanner hslash hr _ hup
    cases hn
  · refine Session.confined_answer (confined_directRule rfl fun text r hr base hbase => ?_) hanswer
    obtain ⟨q, -, rfl⟩ := List.mem_map.1 hbase
    have hplace : (project.dir q).IsPlace := isPlace_dir hroot.1 q
    have hstart := startsWith_of_candidate hscanner hslash hr (project.dir q)
    rw [hplace.2] at hstart
    rw [(isPlace_normalize (isAbsolute_join hplace.1 _)).2]
    exact (hroots _ hbase).trans hstart

/-- A project whose dotted sources are looked for in two directories, with an extension that is written with a
    dot or without. -/
def hall (extension : String) : Project where
  root := .ofText "/w"
  settings := { moduleExtension := extension, moduleRoots := [.ofText "lib/..", .ofText "src"] }

/-- A source with references that have dots in a row or end in one, and what one of them stands for. -/
def hallDisk : Disk where
  top := .dir (.ofText "w") (.dir (.ofText "src")
      (.dir (.ofText "A") (.file (.ofText "B.hs") (.ofText "") .empty) .empty)
    (.file (.ofText "m.hs") (.ofText "import A..B\nimport C..\n") .empty)) .empty

set_option maxRecDepth 4000 in
theorem references_hall : (Scanner.dotted "import" "hs").references "import A..B\nimport C..\n" =
    ["A..B", "C.."] := by
  decide

/-- How a dotted reference of the source is looked for. -/
theorem dotted_enclosed_hall :
    let scanner := Scanner.dotted "import" "hs"
    let target := Path.ofText "/w/_build/deps/m.hs.directImports"
    '/' ∉ (hall ".hs").settings.moduleExtension.toList ∧ (hall ".hs").scanner .dotted = .ok scanner ∧
      (hall ".hs").root.IsPlace ∧ (∀ root ∈ (hall ".hs").moduleRoots, root.StartsWith (hall ".hs").root) ∧
      "C.." ∈ scanner.references "import A..B\nimport C..\n" ∧
      ((ofText "../x").join (scanner.candidate "C..")).normalize.StartsWith (ofText "../x").normalize ∧
      ∃ result deps s', Session.answer usualBook (Session.require usualBook 0) target
        ((((hall ".hs").importFamily .dotted scanner).directRule (hall ".hs").outputRoot
          (hall ".hs").root).recipe target).run [] { disk := hallDisk, traces := ∅ } =
            some ((result, deps), s') ∧
        (∀ p prefixed, result ≠ .error (.outsideRoot p prefixed)) ∧
        result = .ok (.ofText "src/A/B.hs\n") := by
  intro scanner target
  have hslash : '/' ∉ (hall ".hs").settings.moduleExtension.toList := by decide
  have hscanner : (hall ".hs").scanner .dotted = .ok scanner := by decide
  have hroot : (hall ".hs").root.IsPlace := by decide
  have hroots : ∀ root ∈ (hall ".hs").moduleRoots, root.StartsWith (hall ".hs").root := by decide
  have hr : "C.." ∈ scanner.references "import A..B\nimport C..\n" := by simp [scanner, references_hall]
  obtain ⟨hreferences, hrule⟩ := dotted_enclosed hslash hscanner
  refine ⟨hslash, hscanner, hroot, hroots, hr, (hreferences _ _ hr).2.2 _, ?_⟩
  have hrun : (Session.answer usualBook (Session.require usualBook 0) target
      ((((hall ".hs").importFamily .dotted scanner).directRule (hall ".hs").outputRoot
        (hall ".hs").root).recipe target).run [] { disk := hallDisk, traces := ∅ }).any (fun answered =>
          decide (answered.1.1 = .ok (.ofText "src/A/B.hs\n"))) = true := by
    decide +kernel
  obtain ⟨⟨⟨result, deps⟩, s'⟩, hanswer, hresult⟩ := (Option.any_eq_true _ _).1 hrun
  exact ⟨result, deps, s', hanswer, hrule hroot hroots _ _ _ _ _ _ _ hanswer, of_decide_eq_true hresult⟩

/-! ### The family of what is imported -/

theorem family_congr {settings : Settings} {F G : Path} (h : G.fileName? = F.fileName?) :
    Family.of? settings G = Family.of? settings F := by
  rw [Family.of?, Family.of?, extension?, extension?, h]

/-- The family of the files that dotted references stand for. -/
theorem family_candidate {text : String} (hscanner : project.scanner .dotted = .ok scanner)
    (hslash : '/' ∉ (Scanner.undotted project.settings.moduleExtension).toList)
    (hdots : '.' ∉ (Scanner.undotted project.settings.moduleExtension).toList)
    (hr : r ∈ scanner.references text) (hend : r.toList.getLast? ≠ some '.') :
    Family.of? project.settings (scanner.candidate r) =
      if project.settings.moduleExtension.toList.head? ≠ some '.' then some .dotted
      else if Scanner.undotted project.settings.moduleExtension ∈ project.settings.nativeExtensions then
        some .quoted
      else none := by
  obtain rfl := scanner_eq hscanner
  have hdotted := Scanner.isDotted_of_mem_references hr
  rw [Family.of?, Scanner.extension?_candidate hdotted hslash hdots hend]
  simp only [Option.bind_eq_bind, Option.bind_some, Bytes.toText?_ofText, Scanner.undotted_eq_iff]

/-- A file below a place is found in the directory there. -/
theorem exists_get?_of_read {disk : Disk} {l m : List Bytes} {c : Content} (hl : ∀ n ∈ l ++ m, IsName n)
    (hm : m ≠ []) (h : disk.read (ofLocation (l ++ m)) = .ok c) :
    ∃ d, disk.entry (ofLocation l) = .ok (.dir d) ∧ d.get? m = some (.file c) := by
  have hl' : ∀ n ∈ l, IsName n := fun n hn => hl n (List.mem_append_left _ hn)
  obtain ⟨husable, hs⟩ := (Disk.read_ofLocation_eq_ok_iff hl).1 h
  have hdir : disk.sight l = .directory :=
    Dir.sight_of_append (m := m) (by rw [← Disk.sight, hs]; simp) hm
  have hisdir : disk.isDir (ofLocation l) = true :=
    Disk.isDir_ofLocation hl' (Disk.usable_of_le husable (List.prefix_append l m))
      (Disk.not_file_of_directory hdir) hdir
  cases hentry : disk.entry (ofLocation l) with
  | error fault => simp [Disk.isDir, hentry] at hisdir
  | ok e =>
    cases e with
    | file content => simp [Disk.isDir, hentry] at hisdir
    | dir d =>
      obtain ⟨k, hgoal, hget⟩ := Disk.get?_of_entry hentry
      obtain rfl := Disk.goal_ofLocation hl' hgoal
      refine ⟨d, rfl, ?_⟩
      rw [Disk.sight, Dir.sight_append_of_get? hget, Dir.sight] at hs
      cases hfile : d.get? m with
      | none => simp [hfile] at hs
      | some e =>
        cases e with
        | file content => simpa [hfile, Entry.sight] using hs
        | dir inner => simp [hfile, Entry.sight] at hs

/-- The file that a reference stands for has the name that the reference tells. -/
theorem fileName?_of_relativeTo {base q p G : Path} (hroot : project.root.IsPlace)
    (hbase : base.isAbsolute = true) (hq : ∀ c ∈ q.components, ∃ n, c = .name n) (hne : q.components ≠ [])
    (hp : (base.join q).normalize = p) (hG : p.relativeTo project.root = .ok G) (hpn : p ≠ project.root) :
    ∃ r m, project.root = ofLocation r ∧ (∀ n ∈ r ++ m, IsName n) ∧ m ≠ [] ∧ p = ofLocation (r ++ m) ∧
      G = ofNames m ∧ G.fileName? = q.fileName? := by
  obtain ⟨r, hr, hrootEq⟩ := hroot.exists_eq
  obtain ⟨l, hl, hpl⟩ := exists_normalize (isAbsolute_join hbase q)
  have hplace := isPlace_ofLocation hl
  rw [hp] at hpl
  rw [relativeTo, hpl, hplace.2, hrootEq] at hG
  split at hG
  · next d heq =>
    obtain rfl := Except.ok.inj hG
    obtain ⟨m, rfl, rfl⟩ := stripStart?_eq_some hl hr heq
    have hm : ∀ n ∈ m, IsName n := fun n hn => hl n (List.mem_append_right _ hn)
    have hmne : m ≠ [] := by
      rintro rfl
      exact hpn (by rw [hpl, List.append_nil, hrootEq])
    refine ⟨r, m, hrootEq, hl, hmne, hpl, rfl, ?_⟩
    -- Both end as the path to the file does.
    have hjoin := components_normalize_join (p := base) hq
    rw [hp, hpl, components_ofLocation hl] at hjoin
    have hlast : q.components.getLast? = (m.map Component.name).getLast? := by
      have hleft := congrArg List.getLast? hjoin
      rw [List.map_append, ← List.cons_append, List.getLast?_append_of_ne_nil _ (by simpa using hmne),
        List.getLast?_append_of_ne_nil _ hne] at hleft
      exact hleft.symm
    rw [fileName?, fileName?, components_ofNames hm, hlast]
  · cases hG

/-- The files that dotted references stand for, apart from references that end in a dot, have the extension of
    dotted sources without the dots at its front. So they are dotted sources themselves if there are no such
    dots: what is found for such a reference is expanded by every source that imports it, and is discovered
    unless a directory on the way to it hides it. If there are, they belong to the other family or to none. -/
theorem dotted_family (hscanner : project.scanner .dotted = .ok scanner)
    (hslash : '/' ∉ (Scanner.undotted project.settings.moduleExtension).toList)
    (hdots : '.' ∉ (Scanner.undotted project.settings.moduleExtension).toList) :
    (∀ text, ∀ r ∈ scanner.references text, r.toList.getLast? ≠ some '.' →
      Family.of? project.settings (scanner.candidate r) =
        if project.settings.moduleExtension.toList.head? ≠ some '.' then some .dotted
        else if Scanner.undotted project.settings.moduleExtension ∈ project.settings.nativeExtensions then
          some .quoted
        else none) ∧
    (project.settings.moduleExtension.toList.head? ≠ some '.' → project.root.IsPlace →
      ∀ disk : Disk, disk.top.Proper → disk.isFile project.root = false →
        ∀ text, ∀ r ∈ scanner.references text, r.toList.getLast? ≠ some '.' → ∀ p G,
          disk.resolve? scanner project.moduleRoots r = some p → p.relativeTo project.root = .ok G →
            (∀ F, expands (project.importFamily .dotted scanner).owns F G = !decide (G.Same F)) ∧
            ∃ m, (∀ n ∈ m, IsName n) ∧ G = ofNames m ∧ (G ∈ project.sources disk ↔ ∀ k ∈ wayTo m,
              ¬ Hides (k.getLastD []) ∧ ¬ (project.root.join (ofNames k)).Same project.outputRoot)) := by
  refine ⟨fun text r hr hend => family_candidate hscanner hslash hdots hr hend,
    fun hhead hroot disk hproper hfile text r hr hend p G hp hG => ?_⟩
  obtain ⟨base, hbase, rfl⟩ := Option.map_eq_some_iff.1 hp
  obtain ⟨hmem, hfound⟩ := Disk.findInRoots_eq_some hbase
  obtain ⟨q, -, rfl⟩ := List.mem_map.1 hmem
  have habs : (project.dir q).isAbsolute = true := (isPlace_dir hroot.1 q).1
  have hfound := Disk.isFile_normalize (isAbsolute_join habs _) hfound
  have hfamily := family_candidate hscanner hslash hdots hr hend
  rw [if_pos hhead] at hfamily
  have hne : (scanner.candidate r).components ≠ [] := fun hnil => by
    have hnone : (scanner.candidate r).extension? = none := by simp [extension?, fileName?, hnil]
    simp [Family.of?, hnone] at hfamily
  have hnames := isName_of_mem_candidate hscanner hslash hr
  obtain ⟨l, m, hroot', hlm, hm, hpeq, rfl, hname⟩ := fileName?_of_relativeTo hroot habs hnames hne rfl hG
    fun heq => by rw [heq, hfile] at hfound; cases hfound
  have howned : Family.of? project.settings (ofNames m) = some .dotted := (family_congr hname).trans hfamily
  have hmnames : ∀ n ∈ m, IsName n := fun n hn => hlm n (List.mem_append_right _ hn)
  refine ⟨fun F => ?_, m, hmnames, rfl, ?_⟩
  · simp [expands, importFamily, howned]
  · rw [hpeq, Disk.isFile_eq_isSome_read, Option.isSome_iff_exists] at hfound
    obtain ⟨c, hc⟩ := hfound
    obtain ⟨d, hd, hget⟩ := exists_get?_of_read hlm hm (Disk.toOption_eq_some_iff.1 hc)
    rw [(sources_exact hproper).2, hroot', hd]
    constructor
    · rintro ⟨_, m', c', ⟨⟩, hget', heq, -, hway⟩
      obtain ⟨_, -, hin⟩ := Disk.get?_of_entry hd
      have hm' : ∀ n ∈ m', IsName n :=
        (hproper.of_get? hin).isName (by simp [Dir.sight, hget', Entry.sight])
      rwa [ofNames_injective hmnames hm' heq]
    · exact fun hway => ⟨d, m, c, rfl, hget, rfl, by simp [howned], hway⟩

/-- A file that is found for a reference with dots in a row is expanded and discovered. -/
theorem dotted_family_hall :
    let scanner := Scanner.dotted "import" "hs"
    (hall "hs").scanner .dotted = .ok scanner ∧
      '/' ∉ (Scanner.undotted (hall "hs").settings.moduleExtension).toList ∧
      '.' ∉ (Scanner.undotted (hall "hs").settings.moduleExtension).toList ∧
      (hall "hs").settings.moduleExtension.toList.head? ≠ some '.' ∧ (hall "hs").root.IsPlace ∧
      hallDisk.top.Proper ∧ hallDisk.isFile (hall "hs").root = false ∧
      "A..B" ∈ scanner.references "import A..B\nimport C..\n" ∧ "A..B".toList.getLast? ≠ some '.' ∧
      hallDisk.resolve? scanner (hall "hs").moduleRoots "A..B" = some (.ofText "/w/src/A/B.hs") ∧
      (ofText "/w/src/A/B.hs").relativeTo (hall "hs").root = .ok (.ofText "src/A/B.hs") ∧
      Family.of? (hall "hs").settings (scanner.candidate "A..B") = some .dotted ∧
      expands ((hall "hs").importFamily .dotted scanner).owns (.ofText "src/m.hs") (.ofText "src/A/B.hs") =
        true ∧
      .ofText "src/A/B.hs" ∈ (hall "hs").sources hallDisk := by
  intro scanner
  have hscanner : (hall "hs").scanner .dotted = .ok scanner := by decide
  have hslash : '/' ∉ (Scanner.undotted (hall "hs").settings.moduleExtension).toList := by decide
  have hdots : '.' ∉ (Scanner.undotted (hall "hs").settings.moduleExtension).toList := by decide
  have hhead : (hall "hs").settings.moduleExtension.toList.head? ≠ some '.' := by decide
  have hroot : (hall "hs").root.IsPlace := by decide
  have hproper : hallDisk.top.Proper := by decide
  have hfile : hallDisk.isFile (hall "hs").root = false := by decide
  have hr : "A..B" ∈ scanner.references "import A..B\nimport C..\n" := by
    simp [scanner, references_hall]
  have hend : "A..B".toList.getLast? ≠ some '.' := by decide
  have hp : hallDisk.resolve? scanner (hall "hs").moduleRoots "A..B" = some (.ofText "/w/src/A/B.hs") := by
    decide
  have hG : (ofText "/w/src/A/B.hs").relativeTo (hall "hs").root = .ok (.ofText "src/A/B.hs") := by
    decide
  obtain ⟨hfamily, hfound⟩ := dotted_family hscanner hslash hdots
  obtain ⟨hexpands, m, hm, hspelled, hsources⟩ :=
    hfound hhead hroot hallDisk hproper hfile _ _ hr hend _ _ hp hG
  refine ⟨hscanner, hslash, hdots, hhead, hroot, hproper, hfile, hr, hend, hp, hG, ?_, ?_, ?_⟩
  · rw [hfamily _ _ hr hend, if_pos hhead]
  · rw [hexpands]
    decide
  · obtain rfl : m = [.ofText "src", .ofText "A", .ofText "B.hs"] :=
      ofNames_injective hm (by decide) (hspelled.symm.trans (by decide))
    rw [hsources]
    decide

/-- Where the extension is set with a dot, no file that a dotted reference stands for is a dotted source. -/
theorem exists_candidate_of_no_family : ¬ ∀ (project : Project) (scanner : Scanner),
    project.scanner .dotted = .ok scanner → Scanner.undotted project.settings.moduleExtension ≠ "" →
      '/' ∉ (Scanner.undotted project.settings.moduleExtension).toList →
        '.' ∉ (Scanner.undotted project.settings.moduleExtension).toList →
          ∀ text, ∀ r ∈ scanner.references text, r.toList.getLast? ≠ some '.' →
            Family.of? project.settings (scanner.candidate r) = some .dotted := by
  intro h
  have hscanner : (hall ".hs").scanner .dotted = .ok (.dotted "import" "hs") := by decide
  have hr : "B" ∈ (Scanner.dotted "import" "hs").references "import B\n" := by decide
  have hfamily := h _ _ hscanner (by decide) (by decide) (by decide) _ _ hr (by decide)
  have hnone : Family.of? (hall ".hs").settings ((Scanner.dotted "import" "hs").candidate "B") = none := by
    decide
  cases hnone.symm.trans hfamily

end ImportIndex.Project
