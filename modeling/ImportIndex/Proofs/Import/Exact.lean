import ImportIndex.Proofs.Artifact.Naming
import ImportIndex.Proofs.FileTree.Folded
import ImportIndex.Proofs.Import.Bounds
import ImportIndex.Proofs.Path.Canonical

/-!
# The list of direct imports

What the rule of direct imports makes of a source, said without the rule. The references are looked up
in their order, each under one search root after another, and the first place that is a file counts
(`Disk.hit?`). The artifact lists the files as paths from the project root, one in a line, unless one of
them lies elsewhere or cannot be a line (`Project.Renders`).

A place is tried as it is spelled, with its `..` and repeated separators, but listed as a normal path.
Where there are no links, both lead to the same file, so that every path that is listed is one of a file
below the project root, and none is empty. Main statement: the rule of each source makes exactly this,
and what is recorded is the content of the source and every place that was tried
(`Project.directOutcome`).
-/

namespace ImportIndex

/-! ### Looking for files -/

namespace Disk

variable {disk : Disk} {relative : Path} {roots : List Path}

/-- The first place, under one root after another, that is a file. -/
def hit? (disk : Disk) (relative : Path) (roots : List Path) : Option Path :=
  (roots.map (·.join relative)).find? disk.isFile

/-- What is recorded when a file is looked for: all places up to the first that is a file. -/
def lookups (disk : Disk) (relative : Path) (roots : List Path) : List Dependency :=
  (disk.probes relative roots).map fun p => .presence p (disk.isFile p)

theorem hit?_eq_map_findInRoots :
    disk.hit? relative roots = (disk.findInRoots relative roots).map (·.join relative) := by
  induction roots with
  | nil => rfl
  | cons root roots ih =>
    rw [findInRoots_cons, hit?, List.map_cons, List.find?_cons]
    cases disk.isFile (root.join relative) with
    | true => rfl
    | false => exact ih

theorem resolve?_eq_map_hit? {scanner : Scanner} {reference : String} :
    disk.resolve? scanner roots reference =
      (disk.hit? (scanner.candidate reference) roots).map Path.normalize := by
  rw [hit?_eq_map_findInRoots, Option.map_map]
  rfl

/-- What references stand for are the files that were found for them, in normal form. -/
theorem filterMap_resolve? {scanner : Scanner} {references : List String} :
    references.filterMap (disk.resolve? scanner roots) =
      (references.filterMap fun r => disk.hit? (scanner.candidate r) roots).map Path.normalize := by
  rw [List.map_filterMap]
  exact congrArg (List.filterMap · references) (funext fun _ => resolve?_eq_map_hit?)

theorem exists_of_hit? {p : Path} (h : disk.hit? relative roots = some p) :
    disk.isFile p = true ∧ ∃ root ∈ roots, p = root.join relative := by
  obtain ⟨root, hroot, rfl⟩ := List.mem_map.1 (List.mem_of_find?_eq_some h)
  exact ⟨List.find?_some h, root, hroot, rfl⟩

end Disk

/-! ### Answers to the requests of the rule -/

namespace Session

variable {book : Rulebook} {require : Require} {t source : Path} {scanner : Scanner} {roots : List Path}
  {α : Type} {s : Session}

theorem answer_findInRoots {relative : Path} (next : Except Failure (Option Path) → Tracked α)
    (before : List Dependency) :
    answer book require t ((findInRoots Recipe.isFile relative roots).run.bind next) before s =
      answer book require t (next (.ok (s.disk.findInRoots relative roots)))
        ((s.disk.lookups relative roots).reverse ++ before) s := by
  induction roots generalizing before with
  | nil => rfl
  | cons root roots ih =>
    have hpresence : answer book require t
        ((findInRoots Recipe.isFile relative (root :: roots)).run.bind next) before s =
          answer book require t (((if s.disk.isFile (root.join relative) then return some root
            else findInRoots Recipe.isFile relative roots : Recipe (Option Path))).run.bind next)
            (.presence (root.join relative) (s.disk.isFile (root.join relative)) :: before) s := rfl
    rw [hpresence, Disk.findInRoots_cons, Disk.lookups, Disk.probes]
    cases hfile : s.disk.isFile (root.join relative) with
    | true =>
      simp only [if_true, List.map_cons, List.map_nil, List.reverse_cons, List.reverse_nil,
        List.nil_append, List.cons_append, hfile]
      rfl
    | false =>
      simp only [Bool.false_eq_true, if_false, List.map_cons, List.reverse_cons, List.append_assoc,
        List.cons_append, List.nil_append, hfile]
      exact ih _

theorem answer_resolveAll (references : List String) (found : List Path)
    (next : Except Failure (List Path) → Tracked α) (before : List Dependency) :
    ∃ told, answer book require t ((resolveAll scanner roots source references found).run.bind next)
        before s =
      answer book require t
        (next (.ok (found.reverse ++ references.filterMap (s.disk.resolve? scanner roots))))
        ((references.flatMap fun r => s.disk.lookups (scanner.candidate r) roots).reverse ++ before)
        { s with told } := by
  induction references generalizing found before s with
  | nil =>
    refine ⟨s.told, ?_⟩
    simp only [List.filterMap_nil, List.append_nil, List.flatMap_nil, List.reverse_nil, List.nil_append]
    rfl
  | cons reference references ih =>
    have hrun : (resolveAll scanner roots source (reference :: references) found).run.bind next =
        (findInRoots Recipe.isFile (scanner.candidate reference) roots).run.bind fun r =>
          (match r.map (Option.map fun root : Path => (root.join (scanner.candidate reference)).normalize) with
            | .ok (some p) => (resolveAll scanner roots source references (p :: found)).run
            | .ok none => .tell (.unresolved source reference)
                (resolveAll scanner roots source references found).run
            | .error cause => .done (.error cause)).bind next := by
      rw [resolveAll, resolve, ExceptT.run_bind, ExceptT.run_bind]
      change ((Tracked.bind _ _).bind _).bind next = _
      rw [Tracked.bind_assoc, Tracked.bind_assoc]
      refine congrArg (Tracked.bind · _) (funext fun r => ?_)
      rcases r with cause | _ | root <;> rfl
    rw [hrun, answer_findInRoots, List.flatMap_cons, List.reverse_append, List.append_assoc]
    change ∃ told, answer book require t (Tracked.bind next (match Except.ok
      (s.disk.resolve? scanner roots reference) with
        | .ok (some p) => (resolveAll scanner roots source references (p :: found)).run
        | .ok none => .tell (.unresolved source reference)
            (resolveAll scanner roots source references found).run
        | .error cause => .done (.error cause))) _ s = _
    cases hfound : s.disk.resolve? scanner roots reference with
    | some p =>
      obtain ⟨told, htold⟩ := ih (p :: found)
        ((s.disk.lookups (scanner.candidate reference) roots).reverse ++ before) (s := s)
      refine ⟨told, htold.trans ?_⟩
      rw [List.filterMap_cons_some hfound, List.reverse_cons, List.append_assoc, List.singleton_append]
    | none =>
      obtain ⟨told, htold⟩ := ih found
        ((s.disk.lookups (scanner.candidate reference) roots).reverse ++ before)
        (s := { s with told := .unresolved source reference :: s.told })
      rw [List.filterMap_cons_none hfound]
      exact ⟨told, htold⟩

theorem exists_of_bind_textOf {found : Except IoFault Content} {text : String}
    (h : found.bind textOf = .ok text) : ∃ content, found = .ok content ∧ content.toText? = some text := by
  cases found with
  | error fault => cases h
  | ok content =>
    refine ⟨content, rfl, ?_⟩
    rw [Except.bind, textOf] at h
    split at h
    · next htext => rw [htext, Except.ok.inj h]
    · cases h

end Session

/-! ### What is listed -/

namespace Path

variable {p : Path}

/-- Whether a path can be a line: it is a text without line breaks. -/
def IsLine (p : Path) : Prop := ∃ line, p = .ofText line ∧ '\n' ∉ line.toList ∧ '\r' ∉ line.toList

theorem isLine_iff (hne : p.bytes ≠ []) : p.IsLine ↔ ∃ line, Listing.line? p = some line :=
  exists_congr fun _ => (Listing.line?_eq_some_iff hne).symm

/-- A path is seen from a root exactly if it starts with it. -/
theorem relativeTo_cases (p root : Path) :
    (p.normalize.StartsWith root ∧ ∃ q, p.relativeTo root = .ok q) ∨
      ¬ p.normalize.StartsWith root ∧ p.relativeTo root = .error (.outsideRoot p root) := by
  by_cases h : p.normalize.StartsWith root
  · obtain ⟨q, hq⟩ : ∃ q, p.normalize.stripStart? root = some q := by
      rw [stripStart?, if_pos h]
      dsimp only
      split <;> exact ⟨_, rfl⟩
    exact .inl ⟨h, q, by rw [relativeTo, hq]⟩
  · refine .inr ⟨h, ?_⟩
    rw [relativeTo, stripStart?, if_neg h]

/-- A relative path that is not empty has a piece that is not. -/
theorem exists_filter_splitAt_eq (hne : p.bytes ≠ []) (habs : p.isAbsolute = false) :
    ∃ piece pieces, (splitAt separator p.bytes).filter (!·.isEmpty) = piece :: pieces := by
  obtain ⟨b, bytes, hbytes⟩ := List.exists_cons_of_ne_nil hne
  have hb : b ≠ separator := by
    rintro rfl
    simp [isAbsolute, hbytes] at habs
  have hsplit : ∃ piece pieces, splitAt separator p.bytes = (b :: piece) :: pieces := by
    rw [hbytes, splitAt, splitWhere, if_neg (by simpa using hb)]
    split
    · exact ⟨[], [], rfl⟩
    · exact ⟨_, _, rfl⟩
  obtain ⟨piece, pieces, hpieces⟩ := hsplit
  exact ⟨_, _, by rw [hpieces, List.filter_cons_of_pos rfl]⟩

end Path

/-- Where something is read below a place, the place is a directory. -/
theorem Disk.sight_of_read_join {disk : Disk} {r : List Bytes} {p : Path} {c : Content}
    (hr : ∀ n ∈ r, IsName n) (hne : p.bytes ≠ []) (habs : p.isAbsolute = false)
    (hread : disk.read ((Path.ofLocation r).join p) = .ok c) : disk.sight r = .directory := by
  have hjoin := Path.isAbsolute_join (Path.isAbsolute_ofLocation (l := r)) p
  obtain ⟨rest, hrest, hlayout⟩ := Path.exists_layout_eq hjoin
  have hsplit : splitAt Path.separator rest = r ++ splitAt Path.separator p.bytes :=
    congrArg Path.Layout.pieces (hlayout.symm.trans (Path.layout_join hr habs))
  obtain ⟨piece, pieces, hpieces⟩ := Path.exists_filter_splitAt_eq hne habs
  have hsteps : ((Path.ofLocation r).join p).steps = r ++ piece :: pieces := by
    rw [Path.steps_eq hrest, hsplit, List.filter_append, hpieces,
      List.filter_eq_self.2 fun n hn => by simpa using (hr n hn).1]
  obtain ⟨loc, hgoal, hs⟩ := read_eq_ok_iff.1 hread
  obtain ⟨-, hwalk⟩ := goal_eq_ok_iff.1 hgoal
  have hstart : disk.start ((Path.ofLocation r).join p) = [] := by simp [start, hjoin]
  rw [(stepsTo_of_file hwalk hs).2, hstart, hsteps, List.nil_append, walk, List.foldlM_append] at hwalk
  -- The walk comes to the place and goes on from there.
  cases hway : r.foldlM (walkStep disk.sight) [] with
  | error fault =>
    rw [hway] at hwalk
    cases hwalk
  | ok k =>
    rw [hway] at hwalk
    obtain rfl : k = r := (eq_append_of_walk hr hway).1
    change (walkStep disk.sight k piece >>= fun l => pieces.foldlM (walkStep disk.sight) l) = _ at hwalk
    cases hstep : walkStep disk.sight k piece with
    | error fault =>
      rw [hstep] at hwalk
      cases hwalk
    | ok l => exact (walkStep_eq_ok hstep).1

theorem Disk.isFile_of_read_join {disk : Disk} {root p : Path} {c : Content} (hroot : root.IsPlace)
    (hne : p.bytes ≠ []) (habs : p.isAbsolute = false) (hread : disk.read (root.join p) = .ok c) :
    disk.isFile root = false := by
  obtain ⟨r, hr, rfl⟩ := hroot.exists_eq
  rw [Bool.eq_false_iff, Ne, isFile_eq_isSome_read, Option.isSome_iff_exists]
  rintro ⟨content, hcontent⟩
  have hsight := ((read_ofLocation_eq_ok_iff hr).1 (toOption_eq_some_iff.1 hcontent)).2
  cases (sight_of_read_join hr hne habs hread).symm.trans hsight

namespace Project

variable {project : Project} {book : Rulebook} {disk : Disk} {t F : Path} {family : Family}

/-- A file that was found at `p` is shown as `d`, the path to it from the project root. -/
structure Shown (project : Project) (disk : Disk) (p d : Path) : Prop where
  /-- The path is normal and made of names. -/
  below : d.IsBelow
  /-- It leads somewhere else than the root. -/
  nonempty : d.bytes ≠ []
  /-- It leads to where the file was found. -/
  same : project.root.join d = p.normalize
  /-- There is a file. -/
  isFile : disk.isFile (project.root.join d) = true

/-- What a list of files becomes, each given by the place where it was found. -/
inductive Renders (project : Project) (disk : Disk) : List Path → Except Failure Content → Prop where
  /-- The first file that lies outside of the project. -/
  | outside {before after : List Path} {p : Path}
      (inside : ∀ q ∈ before, q.normalize.StartsWith project.root)
      (outside : ¬ p.normalize.StartsWith project.root) :
      Renders project disk (before ++ p :: after) (.error (.outsideRoot p.normalize project.root))
  /-- All lie in the project, and there is a first one that cannot be a line. -/
  | unlistable {hits before after : List Path} {d : Path}
      (shown : List.Forall₂ (project.Shown disk) hits (before ++ d :: after))
      (lines : ∀ e ∈ before, e.IsLine) (noLine : ¬ d.IsLine) :
      Renders project disk hits (.error (.invalidArtifactPath d))
  /-- Each file is a line. -/
  | listed {hits : List Path} {lines : List String}
      (shown : List.Forall₂ (project.Shown disk) hits (lines.map .ofText))
      (whole : ∀ line ∈ lines, '\n' ∉ line.toList ∧ '\r' ∉ line.toList) :
      Renders project disk hits (.ok (.ofText (String.join (lines.map (· ++ "\n")))))

/-- What the rule of direct imports makes of a source, and what is recorded. -/
inductive DirectOutcome (project : Project) (book : Rulebook) (disk : Disk) (scanner : Scanner)
    (roots : List Path) (source : Path) : Except Failure Content → List Dependency → Prop where
  /-- The source cannot be read, or is no text. -/
  | unreadable {fault : IoFault} (hread : (disk.read source).bind Session.textOf = .error fault) :
      DirectOutcome project book disk scanner roots source (.error (.readSource source fault))
        (Session.contentRead? book source (disk.read source)).toList
  /-- The files that its references stand for are listed. -/
  | readable {content : Content} {text : String} {result : Except Failure Content}
      (hread : disk.read source = .ok content) (htext : content.toText? = some text)
      (hrenders : project.Renders disk ((scanner.references text).filterMap fun r =>
        disk.hit? (scanner.candidate r) roots) result) :
      DirectOutcome project book disk scanner roots source result
        (.content source (some (book.digest content)) ::
          (scanner.references text).flatMap fun r => disk.lookups (scanner.candidate r) roots)

/-- A file that lies in the project is shown as the path to it from the root. -/
theorem shown_of_relativeTo {p d : Path} (hroot : project.root.IsPlace)
    (hfile : disk.isFile project.root = false) (habs : p.isAbsolute = true) (hp : disk.isFile p = true)
    (h : p.normalize.relativeTo project.root = .ok d) : project.Shown disk p d := by
  obtain ⟨r, hr, hroot⟩ := hroot.exists_eq
  obtain ⟨l, hl, hpl⟩ := Path.exists_normalize habs
  have hnormal := Disk.isFile_normalize habs hp
  rw [Path.relativeTo, (Path.isPlace_normalize habs).2, hpl, hroot] at h
  split at h
  · next m heq =>
    obtain rfl := Except.ok.inj h
    obtain ⟨m, rfl, rfl⟩ := Path.stripStart?_eq_some hl hr heq
    have hm : ∀ n ∈ m, IsName n := fun n hn => hl n (List.mem_append_right _ hn)
    have hne : m ≠ [] := by
      rintro rfl
      rw [hpl, List.append_nil, ← hroot, hfile] at hnormal
      cases hnormal
    have hsame : project.root.join (Path.ofNames m) = p.normalize := by
      rw [hroot, Path.join_ofLocation hr hm hne, hpl]
    exact {
      below := Path.isBelow_ofNames hm
      nonempty := fun hempty => hne (Path.ofNames_injective hm (by simp)
        (congrArg Path.mk hempty : Path.ofNames m = Path.ofNames []))
      same := hsame
      isFile := hsame ▸ hnormal }
  · cases h

/-- What is found for references below the roots that a source is read with are files. -/
theorem isFile_of_mem_hits {scanner : Scanner} {roots : List Path} {references : List String} {p : Path}
    (hroot : project.root.IsPlace) (hreading : project.reading? F = some (scanner, roots))
    (hp : p ∈ references.filterMap fun r => disk.hit? (scanner.candidate r) roots) :
    p.isAbsolute = true ∧ disk.isFile p = true := by
  obtain ⟨r, -, hhit⟩ := List.mem_filterMap.1 hp
  obtain ⟨hfile, root, hmem, rfl⟩ := Disk.exists_of_hit? hhit
  exact ⟨Path.isAbsolute_join (isAbsolute_of_reading? hroot hreading hmem) _, hfile⟩

/-- Files that were found are listed one by one. -/
theorem renders_listingBelow (hroot : project.root.IsPlace) (hfile : disk.isFile project.root = false)
    {hits : List Path} (hhits : ∀ p ∈ hits, p.isAbsolute = true ∧ disk.isFile p = true) :
    project.Renders disk hits (ImportFamily.listingBelow project.root (hits.map Path.normalize)) := by
  rw [ImportFamily.listingBelow]
  rcases mapM_cases (fun p : Path => p.relativeTo project.root) (hits.map Path.normalize) with
    ⟨before, p, after, cause, hsplit, hbefore, hp, hmap⟩ | ⟨ds, hmap, hds⟩
  · obtain ⟨before, rest, rfl, rfl, hrest⟩ := List.map_eq_append_iff.1 hsplit
    obtain ⟨p, after, rfl, rfl, rfl⟩ := List.map_eq_cons_iff.1 hrest
    have hinside : ∀ q ∈ before, q.normalize.StartsWith project.root := fun q hq => by
      rcases Path.relativeTo_cases q.normalize project.root with ⟨hstart, -⟩ | ⟨-, herror⟩
      · rwa [Path.normalize_normalize] at hstart
      · obtain ⟨d, hd⟩ := hbefore _ (List.mem_map_of_mem hq)
        cases hd.symm.trans herror
    rcases Path.relativeTo_cases p.normalize project.root with ⟨-, d, hd⟩ | ⟨houtside, herror⟩
    · cases hd.symm.trans hp
    · obtain rfl := Except.error.inj (hp.symm.trans herror)
      rw [hmap]
      refine .outside hinside ?_
      rwa [Path.normalize_normalize] at houtside
  · have hshown : List.Forall₂ (project.Shown disk) hits ds :=
      forall₂_of_mem (List.forall₂_map_left_iff.1 hds) fun p d hp hd =>
        shown_of_relativeTo hroot hfile (hhits p hp).1 (hhits p hp).2 hd
    have hne : ∀ d ∈ ds, d.bytes ≠ [] := fun d hd => by
      obtain ⟨p, -, hp⟩ := exists_of_forall₂ hshown hd
      exact hp.nonempty
    rw [hmap]
    change project.Renders disk hits ((Listing.render ds).map Content.ofText)
    rcases Listing.render_cases ds with ⟨before, d, after, rfl, hbefore, hd, hrender⟩ |
      ⟨lines, rfl, hlines, hrender⟩
    · rw [hrender]
      refine .unlistable hshown (fun e he => ?_) fun hline => ?_
      · exact (Path.isLine_iff (hne e (List.mem_append_left _ he))).2 (hbefore e he)
      · obtain ⟨line, hline⟩ := (Path.isLine_iff (hne d (by simp))).1 hline
        rw [hd] at hline
        cases hline
    · rw [hrender]
      exact .listed hshown fun line hline => (Listing.line?_eq_some (hlines line hline)).2.2

/-- The rule of direct imports reads the source, finds the files, and lists them. -/
theorem run_directRule {scanner : Scanner}
    (hsource : ArtifactKind.direct.source? project.outputRoot t = some F) :
    (((project.importFamily family scanner).rule project.outputRoot project.root .direct).recipe t).run =
      .readText (project.root.join F) fun answer =>
        match answer.mapError (Failure.readSource (project.root.join F)) with
        | .ok text => (resolveAll scanner (project.searchRoots family) (project.root.join F)
            (scanner.references text) []).run.bind fun found =>
              .done (found.bind (ImportFamily.listingBelow project.root))
        | .error cause => .done (.error cause) := by
  have hsourceOf : ImportFamily.sourceOf .direct project.outputRoot t = pure F := by
    rw [ImportFamily.sourceOf, hsource]
  change (ImportFamily.sourceOf .direct project.outputRoot t >>= _).run = _
  rw [hsourceOf, pure_bind]
  refine congrArg (Tracked.readText (project.root.join F)) (funext fun answer => ?_)
  cases answer with
  | error fault => rfl
  | ok text =>
    refine congrArg (Tracked.bind · _) (funext fun found => ?_)
    cases found with
    | error cause => rfl
    | ok paths => rfl

/-- The rule of direct imports makes exactly the list of what the references of a source stand for,
    and records exactly what it looked at. -/
theorem directOutcome (hroot : project.root.IsPlace) (hbook : project.rules = .ok book.rules)
    (hsource : ArtifactKind.direct.source? project.outputRoot t = some F)
    (hfamily : Family.of? project.settings F = some family) (require : Session.Require) (s : Session) :
    ∃ rule scanner told result deps, book.find t = .ok rule ∧ project.scanner family = .ok scanner ∧
      Session.answer book require t (rule.recipe t).run [] s = some ((result, deps), { s with told }) ∧
      project.DirectOutcome book s.disk scanner (project.searchRoots family) (project.root.join F)
        result deps := by
  obtain ⟨scanner, hscanner, hfind⟩ := find_of_source? hroot hbook hsource hfamily
  have hreading : project.reading? F = some (scanner, project.searchRoots family) :=
    reading?_eq hfamily hscanner
  have hread : ∀ next : Except IoFault String → Tracked (Except Failure Content),
      Session.answer book require t (.readText (project.root.join F) next) [] s =
        Session.answer book require t (next ((s.disk.read (project.root.join F)).bind Session.textOf))
          ((Session.contentRead? book (project.root.join F)
            (s.disk.read (project.root.join F))).toList ++ []) s := fun _ => rfl
  cases htext : (s.disk.read (project.root.join F)).bind Session.textOf with
  | error fault =>
    refine ⟨_, scanner, s.told, _, _, hfind, hscanner, ?_, .unreadable htext⟩
    rw [run_directRule hsource, hread, htext]
    change some ((_, ((Session.contentRead? _ _ _).toList ++ []).reverse), s) = _
    cases hcontent : Session.contentRead? book (project.root.join F) (s.disk.read (project.root.join F)) <;>
      rfl
  | ok text =>
    obtain ⟨content, hcontent, hcontentText⟩ := Session.exists_of_bind_textOf htext
    obtain ⟨_, -, -, hne, habs⟩ := ArtifactKind.exists_of_source? (isPlace_outputRoot hroot.1) hsource
    have hfile := Disk.isFile_of_read_join hroot hne habs hcontent
    obtain ⟨told, htold⟩ := Session.answer_resolveAll (t := t) (s := s)
      (scanner.references text) []
      (fun found => .done (found.bind (ImportFamily.listingBelow project.root)))
      [.content (project.root.join F) (some (book.digest content))]
    refine ⟨_, scanner, told, _, _, hfind, hscanner, ?_,
      .readable hcontent hcontentText
        (renders_listingBelow hroot hfile fun _ => isFile_of_mem_hits hroot hreading)⟩
    rw [run_directRule hsource, hread, htext, hcontent]
    refine htold.trans ?_
    rw [List.reverse_nil, List.nil_append, Disk.filterMap_resolve?]
    change some ((_, (_ ++ [_]).reverse), _) = _
    rw [List.reverse_append, List.reverse_reverse]
    rfl

/-- A source that refers to one file twice, in different spellings, and to one that is missing. -/
def roundabout : Disk where
  top := .dir (.ofText "w") (.file (.ofText "a.c")
      (.ofText "#include \"sub/..//b.h\"\n#include \"c.h\"\n#include \"/w/./b.h\"")
    (.file (.ofText "b.h") (.ofText "") (.dir (.ofText "sub") .empty .empty))) .empty

theorem directOutcome_roundabout :
    let target := Path.ofText "/w/_build//deps/./a.c.directImports"
    let session : Session := { disk := roundabout, traces := ∅ }
    usual.root.IsPlace ∧ usual.rules = .ok usualBook.rules ∧
      ArtifactKind.direct.source? usual.outputRoot target = some (.ofText "a.c") ∧
      Family.of? usual.settings (.ofText "a.c") = some .quoted ∧
      ∃ rule scanner told result deps, usualBook.find target = .ok rule ∧
        usual.scanner .quoted = .ok scanner ∧
        Session.answer usualBook (Session.require usualBook 0) target (rule.recipe target).run []
          session = some ((result, deps), { session with told }) ∧
        usual.DirectOutcome usualBook roundabout scanner (usual.searchRoots .quoted)
          (usual.root.join (.ofText "a.c")) result deps ∧
        result = .ok (.ofText "b.h\nb.h\n") := by
  intro target session
  have hroot : usual.root.IsPlace := by decide
  have hsource : ArtifactKind.direct.source? usual.outputRoot target = some (.ofText "a.c") := by decide
  have hfamily : Family.of? usual.settings (.ofText "a.c") = some .quoted := by decide
  obtain ⟨rule, scanner, told, result, deps, hfind, hscanner, hanswer, houtcome⟩ :=
    directOutcome hroot rules_usual hsource hfamily (Session.require usualBook 0) session
  refine ⟨hroot, rules_usual, hsource, hfamily, rule, scanner, told, result, deps, hfind, hscanner,
    hanswer, houtcome, ?_⟩
  have hrun : (usualBook.find target).toOption.any (fun rule =>
      ((Session.answer usualBook (Session.require usualBook 0) target (rule.recipe target).run []
        session).any fun answered =>
          answered.1.1 = .ok (.ofText "b.h\nb.h\n"))) = true := by
    decide +kernel
  rw [hfind] at hrun
  change Option.any _ (Session.answer usualBook (Session.require usualBook 0) target
    (rule.recipe target).run [] session) = true at hrun
  rw [hanswer] at hrun
  exact of_decide_eq_true hrun

end Project

end ImportIndex
