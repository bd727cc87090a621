import ImportIndex.Proofs.Artifact.Spelling
import ImportIndex.Proofs.Build.Extent
import ImportIndex.Proofs.Build.History
import ImportIndex.Proofs.FileTree.Folded
import ImportIndex.Proofs.FileTree.Proper
import ImportIndex.Proofs.Import.Bounds
import Mathlib.Data.FinEnum
import Mathlib.Data.Set.Finite.Lattice
import Mathlib.Data.Set.Finite.List

/-!
# How deep builds go

Whatever the traces say, a build comes to finitely many targets (`Project.Universe`): those that are asked
for or named in the traces, and both artifacts of each source that is known of, as it belongs to one of
these, is listed in a file that is named as an artifact, or is there. The rules ask for no other targets,
and make lists of such sources only, so that these targets are the extent of a build
(`Project.closed_extent`). Nested requests are for distinct ones of them, so a build ends, and is not nested
deeper than there are targets (`Project.nesting`).

The sources that are there are counted at the moment in question. It is not enough to count them at the
beginning, as artifacts may be sources (`Project.nesting_echo`).
-/

namespace ImportIndex

open Session

/-- Whether a content lists a path. -/
def Content.Lists (c : Content) (G : Path) : Prop :=
  ∃ text, c.toText? = some text ∧ G ∈ Listing.parse text

/-- Whether a file on the disk that is named as an artifact lists a path. -/
def Disk.Lists (disk : Disk) (G : Path) : Prop :=
  ∃ (l : Location) (n : Bytes) (kind : ArtifactKind) (c : Content),
    disk.sight (l ++ [n ++ kind.ending]) = .file c ∧ c.Lists G

namespace Project

/-- Whether a source is a file below the project root. -/
def Present (project : Project) (disk : Disk) (G : Path) : Prop :=
  G.IsBelow ∧ disk.isFile (project.root.join G) = true

/-- Whether a target is asked for, or named in the traces. -/
def Named (traces : TraceTable) (targets : List Path) (t : Path) : Prop :=
  t ∈ targets ∨ ∃ e ∈ traces.entries, e.1 = t ∨ ∃ digest, .artifact t digest ∈ e.2.deps

section

variable (project : Project) (disk : Disk) (traces : TraceTable) (targets : List Path)
  (present : Path → Prop)

/-- Whether a source is known of: it belongs to a target that is named, it is there, or it is listed. -/
def Known (G : Path) : Prop :=
  (∃ kind t u, Named traces targets t ∧ t.Same u ∧
    ArtifactKind.source? kind project.outputRoot u = some G) ∨ present G ∨ disk.Lists G

/-- The targets that a build may come to: those that are named, and both artifacts of each source that is
    known of. -/
def Universe : Set Path :=
  { t | Named traces targets t ∨ ∃ kind G, project.Known disk traces targets present G ∧
      (Family.of? project.settings G).isSome ∧ t = ArtifactKind.artifact kind project.outputRoot G }

/-- The extent of a build: it comes to these targets, in any spelling, and all that is listed is known of. -/
def extent : Extent where
  targets t := ∃ u ∈ project.Universe disk traces targets present, u.Same t
  holds t c := (∃ kind : ArtifactKind, kind.ending <:+ t.bytes) →
    ∀ G, c.Lists G → project.Known disk traces targets present G
  makes c := ∀ G, c.Lists G → project.Known disk traces targets present G
  disks disk' := (∀ G, project.Present disk' G → present G) ∧
    ∀ (l : Location) (n : Bytes) (kind : ArtifactKind) (c : Content),
      disk'.sight (l ++ [n ++ kind.ending]) = .file c →
        ∀ G, c.Lists G → project.Known disk traces targets present G

end

variable {project : Project} {book : Rulebook} {disk disk' : Disk} {traces : TraceTable}
  {targets : List Path} {present : Path → Prop} {t u F G : Path} {rule : Rule} {c : Content}
  {kind : ArtifactKind}

/-! ### What is written -/

/-- An import was found at one of the places where it was looked for. -/
theorem exists_probe_of_imports? (hroot : project.root.IsPlace) {ds : List Path}
    (h : project.imports? disk F = some ds) (hG : G ∈ ds) : ∃ p ∈ project.probes disk F,
      p.isAbsolute = true ∧ disk.isFile p = true ∧ project.root.join G = p.normalize := by
  obtain ⟨scanner, roots, text, hreading, htext, hds, hrender⟩ := exists_of_imports? h
  obtain ⟨p, hp, hrelative⟩ := exists_of_mapM_eq_ok hds hG
  obtain ⟨reference, href, hresolve⟩ := List.mem_filterMap.1 hp
  obtain ⟨root, hfound, rfl⟩ := Option.map_eq_some_iff.1 hresolve
  obtain ⟨hmem, hfile⟩ := Disk.findInRoots_eq_some hfound
  have habsolute := Path.isAbsolute_join (isAbsolute_of_reading? hroot hreading hmem)
    (scanner.candidate reference)
  refine ⟨_, ?_, habsolute, hfile, ?_⟩
  · rw [probes, hreading, htext]
    exact List.mem_flatMap.2 ⟨reference, href, Disk.mem_probes_of_findInRoots hfound⟩
  obtain ⟨r, hr, hrootr⟩ := hroot.exists_eq
  obtain ⟨l, hl, hpl⟩ := Path.exists_normalize habsolute
  rw [hpl] at hrelative ⊢
  rw [Path.relativeTo, Path.normalize_ofLocation hl, hrootr] at hrelative
  split at hrelative
  · next heq =>
    obtain rfl := Except.ok.inj hrelative
    obtain ⟨m, rfl, rfl⟩ := Path.stripStart?_eq_some hl hr heq
    have hne : m ≠ [] := by
      rintro rfl
      have hempty : Listing.line? (Path.ofNames []) = none := Listing.line?_nil
      obtain ⟨line, hline⟩ := Listing.render_eq_ok_iff.1 hrender _ hG
      simp [hempty] at hline
    rw [hrootr, Path.join_ofLocation hr (fun n hn => hl n (List.mem_append_right _ hn)) hne]
  · contradiction

/-- An import is a file below the project root. -/
theorem present_of_imports? (hroot : project.root.IsPlace) {ds : List Path}
    (h : project.imports? disk F = some ds) (hG : G ∈ ds) : project.Present disk G := by
  obtain ⟨p, -, habsolute, hfile, hp⟩ := exists_probe_of_imports? hroot h hG
  refine ⟨isBelow_of_imports? hroot h hG, ?_⟩
  rw [hp]
  exact Disk.isFile_normalize habsolute hfile

/-- What is listed is read back. -/
theorem lists_of_listing {ps : List Path} (h : ImportFamily.listing ps = .ok c) (hG : c.Lists G) :
    G ∈ ps := by
  rw [ImportFamily.listing] at h
  cases hrender : Listing.render ps with
  | error cause => simp [hrender, Except.map] at h
  | ok text =>
    rw [hrender] at h
    obtain rfl := Except.ok.inj h
    obtain ⟨text', htext, hG⟩ := hG
    obtain rfl := Option.some.inj ((Content.toText?_ofText text).symm.trans htext)
    exact Listing.parse_render hrender ▸ hG

/-- What is put together from listings is in one of them. -/
theorem mem_of_mem_firstSeen {ps : List Path} (h : G ∈ firstSeen F ps) : G ∈ ps := by
  have haddAll : ∀ {ps : List Path} {l : FirstSeen}, G ∈ (l.addAll ps).toList → G ∈ l.toList ∨ G ∈ ps := by
    intro ps
    induction ps with
    | nil => exact .inl
    | cons p ps ih =>
      intro l h
      rcases ih (l := l.add p) h with h | h
      · rw [FirstSeen.toList_add] at h
        split at h
        · exact .inl h
        · exact (List.mem_append.1 h).imp_right fun h => by simp [List.mem_singleton.1 h]
      · exact .inr (List.mem_cons_of_mem _ h)
  exact (List.mem_filter.1 ((haddAll h).resolve_left (by simp))).1

/-- A target with a rule is the artifact of a source, in some spelling. -/
theorem exists_of_find (hbook : project.rules = .ok book.rules) (h : book.find t = .ok rule) :
    ∃ family scanner kind F, project.scanner family = .ok scanner ∧
      Family.of? project.settings F = some family ∧
      ArtifactKind.source? kind project.outputRoot t = some F ∧
      rule = (project.importFamily family scanner).rule project.outputRoot project.root kind := by
  obtain ⟨scanners, hscanners, hrules⟩ := exists_rules_eq hbook
  have hmem : rule ∈ book.rules ∧ rule.makes t = true := by
    rw [Rulebook.find] at h
    split at h
    · cases h
    · next hfor =>
      obtain rfl := Except.ok.inj h
      exact List.mem_filter.1 (hfor ▸ List.mem_singleton.2 rfl)
    · cases h
  rw [hrules] at hmem
  obtain ⟨⟨family, -, hrule⟩, hmakes⟩ := And.imp_left List.mem_flatMap.1 hmem
  obtain ⟨kind, -, rfl⟩ := List.mem_map.1 hrule
  rw [ImportFamily.makes_rule, Option.any_eq_true] at hmakes
  obtain ⟨F, hF, howns⟩ := hmakes
  exact ⟨family, scanners family, kind, F, hscanners family, beq_iff_eq.1 howns, hF, rfl⟩

/-! ### The extent is closed -/

section

variable (hroot : project.root.IsPlace) (hbook : project.rules = .ok book.rules)

include hroot

/-- If a target belongs to the extent, so do both artifacts of its source. -/
theorem targets_of_source? (ht : (project.extent disk traces targets present).targets t)
    (hsource : kind.source? project.outputRoot t = some F)
    (howned : (Family.of? project.settings F).isSome) (kind : ArtifactKind) :
    (project.extent disk traces targets present).targets (kind.artifact project.outputRoot F) := by
  have hout : project.outputRoot.IsPlace := isPlace_outputRoot hroot.1
  obtain ⟨u, hu | ⟨other, G, hG, hGowned, rfl⟩, hs⟩ := ht
  · exact ⟨_, .inr ⟨kind, F, .inl ⟨_, u, t, hu, hs, hsource⟩, howned, rfl⟩, rfl⟩
  · have hsame := ArtifactKind.artifact_same hout.1
      (hs.trans (ArtifactKind.same_artifact_of_source? hout hsource))
    exact ⟨_, .inr ⟨kind, G, hG, hGowned, rfl⟩, hsame.2 kind⟩

omit hroot in
/-- What an artifact gives is known of. -/
theorem known_of_gives {ps : List Path}
    (h : ((project.extent disk traces targets present).world disk').Gives kind project.outputRoot F ps)
    (hG : G ∈ ps) : project.Known disk traces targets present G := by
  obtain ⟨c, text, hmakes, htext, rfl⟩ := h
  exact hmakes ⟨kind, List.suffix_append _ _⟩ G ⟨text, htext, hG⟩

/-- The rule of direct imports makes a list of what is there. -/
theorem admits_directRule {family : Family} {scanner : Scanner}
    (hdisk : ∀ G, project.Present disk' G → present G)
    (hfamily : Family.of? project.settings F = some family)
    (hscanner : project.scanner family = .ok scanner)
    (hsource : ArtifactKind.direct.source? project.outputRoot t = some F) :
    (project.extent disk traces targets present).Admits disk'
      (((project.importFamily family scanner).rule project.outputRoot project.root .direct).recipe t).run := by
  refine .inl ((directRule_meets hfamily hscanner hsource (fun _ => rfl) (by simp)
    (by simp)).mono (fun _ h => h) fun r hr c hc G hG => ?_)
  rw [hc] at hr
  obtain ⟨ds, hds, hlisting⟩ := Option.bind_eq_some_iff.1 hr.symm
  have hmem := lists_of_listing (Disk.toOption_eq_some_iff.1 hlisting) hG
  exact .inr (.inl (hdisk G (present_of_imports? hroot hds hmem)))

/-- The rule of transitive imports asks for artifacts of sources that are known of. -/
theorem admits_transitiveRule {family : Family} {scanner : Scanner}
    (ht : (project.extent disk traces targets present).targets t)
    (hfamily : Family.of? project.settings F = some family)
    (hsource : ArtifactKind.transitive.source? project.outputRoot t = some F) :
    (project.extent disk traces targets present).Admits disk'
      (((project.importFamily family scanner).rule project.outputRoot project.root .transitive).recipe
        t).run := by
  have howned : (Family.of? project.settings F).isSome := by simp [hfamily]
  have hasks : ∀ ds, ((project.extent disk traces targets present).world disk').Gives .direct
      project.outputRoot F ds → ∀ G ∈ ds,
        expands (project.importFamily family scanner).owns F G = true → ∀ kind : ArtifactKind,
          (project.extent disk traces targets present).targets
            (kind.artifact project.outputRoot G) := by
    intro ds hds G hG hexpands kind
    have hGowned : Family.of? project.settings G = some family := by
      simp only [expands, Bool.and_eq_true] at hexpands
      exact beq_iff_eq.1 hexpands.2
    exact ⟨_, .inr ⟨kind, G, known_of_gives hds hG, by simp [hGowned], rfl⟩, rfl⟩
  refine .inr fun d => (transitiveRule_meets hsource
    ⟨_, rfl, targets_of_source? hroot ht hsource howned _⟩
    fun ds hds G hG hexpands kind => ⟨_, rfl, hasks ds hds G hG hexpands kind⟩).mono (fun _ h => h) ?_
  rintro r (⟨L, ⟨ds, parts, hds, hparts, rfl⟩, hlisting⟩ | ⟨-, cause, hcause⟩) c hc G hG
  · have hmem := mem_of_mem_firstSeen (lists_of_listing (hlisting.symm.trans hc) hG)
    rcases List.mem_append.1 hmem with hmem | hmem
    · exact known_of_gives hds hmem
    · obtain ⟨part, hpart, hmem⟩ := List.mem_flatten.1 hmem
      obtain ⟨H, -, hH⟩ := exists_of_forall₂ hparts hpart
      exact hH.elim (known_of_gives · hmem) fun hH => known_of_gives hH.2 hmem
  · cases hc.symm.trans hcause

include hbook

/-- The extent of a build is closed, as far as the sources that are there are counted in. -/
theorem closed_extent : (project.extent disk traces targets present).Closed book
    fun disk' => ∀ G, project.Present disk' G → present G where
  holds t := ⟨.ofText "", fun _ G ⟨text, htext, hG⟩ => by
    obtain rfl := Option.some.inj ((Content.toText?_ofText "").symm.trans htext)
    exact absurd hG List.not_mem_nil⟩
  reads := by
    rintro d t c hd hread ⟨kind, hsuffix⟩
    obtain ⟨l, n, hs⟩ := Disk.exists_sight_of_read ArtifactKind.separator_not_mem_ending
      ArtifactKind.length_ending hsuffix hread
    exact hd.2 l n kind c hs
  rules := by
    intro d t rule hd ht hfind
    obtain ⟨family, scanner, kind, F, hscanner, hfamily, hsource, rfl⟩ := exists_of_find hbook hfind
    cases kind with
    | direct => exact admits_directRule hroot hd.1 hfamily hscanner hsource
    | transitive => exact admits_transitiveRule hroot ht hfamily hsource
  writes := by
    intro d t c hd hmakes hwithin
    have hgrows : Disk.Grows (fun _ => True) (fun _ c' => c' = c) d (Disk.writeIfChanged t c d).2 :=
      Disk.grows_writeIfChanged Disk.lands_true trivial fun _ _ _ _ => rfl
    refine ⟨hwithin, fun l n kind c' hc' => ?_⟩
    rcases hgrows.sight (l ++ [n ++ kind.ending]) with hs | ⟨-, hs, -⟩ | ⟨c'', -, hs, rfl⟩
    · exact hd.2 l n kind c' (hs ▸ hc')
    · cases hs.symm.trans hc'
    · obtain rfl := Sight.file.inj (hs.symm.trans hc')
      exact hmakes

end

/-! ### The extent is finite -/

theorem finite_named : { t | Named traces targets t }.Finite := by
  refine (targets ++ traces.entries.flatMap fun e =>
    e.1 :: e.2.deps.map Dependency.path).finite_toSet.subset ?_
  rintro t (ht | ⟨e, he, ht⟩)
  · exact List.mem_append_left _ ht
  · refine List.mem_append_right _ (List.mem_flatMap.2 ⟨e, he, ?_⟩)
    rcases ht with rfl | ⟨digest, hdep⟩
    · exact List.mem_cons_self
    · exact List.mem_cons_of_mem _ (List.mem_map.2 ⟨_, hdep, rfl⟩)

theorem finite_lists (disk : Disk) : { G | disk.Lists G }.Finite := by
  refine ((disk.top.walk (fun _ => true) []).flatMap fun l => match disk.sight l with
      | .file c => (c.toText?.map Listing.parse).getD []
      | _ => []).finite_toSet.subset ?_
  rintro G ⟨l, n, kind, c, hs, text, htext, hG⟩
  refine List.mem_flatMap.2 ⟨_, Dir.mem_walk_of_sight [] hs, ?_⟩
  simpa [hs, htext] using hG

theorem finite_length_le (n : Nat) : { p : Path | p.bytes.length ≤ n }.Finite :=
  .of_finite_image ((List.finite_length_le UInt8 n).subset (by rintro b ⟨p, hp, rfl⟩; exact hp))
    fun p _ q _ h => congrArg Path.mk h

theorem Present.exists_goal (h : project.Present disk G) :
    ∃ l c, disk.goal (project.root.join G) = .ok l ∧ disk.sight l = .file c := by
  have hfile := h.2
  rw [Disk.isFile_eq_isSome_read, Option.isSome_iff_exists] at hfile
  obtain ⟨c, hc⟩ := hfile
  obtain ⟨l, hl⟩ := Disk.read_eq_ok_iff.1 (Disk.toOption_eq_some_iff.1 hc)
  exact ⟨l, c, hl⟩

/-- What is there is spelled in a path that can be used. -/
theorem Present.length_le (h : project.Present disk G) : G.bytes.length ≤ maxPath := by
  obtain ⟨l, c, hgoal, -⟩ := h.exists_goal
  obtain ⟨-, -, hlen⟩ := Disk.fault?_eq_none_iff.1 (Disk.goal_eq_ok_iff.1 hgoal).1
  refine le_trans ?_ hlen
  rw [Path.join]
  split
  · rfl
  · split
    · rfl
    · split
      · simp
      · simp
        omega

/-- What is there is named by a location below the root where a file is. -/
theorem Present.exists_sight (hroot : project.root.IsPlace) (h : project.Present disk G) :
    ∃ r m c, (∀ n ∈ r ++ m, IsName n) ∧ project.root = Path.ofLocation r ∧ G = Path.ofNames m ∧
      disk.sight (r ++ m) = .file c := by
  obtain ⟨l, c, hgoal, hs⟩ := h.exists_goal
  obtain ⟨r, hr, heq⟩ := hroot.exists_eq
  obtain ⟨m, hm, rfl⟩ := h.1.exists_eq
  have hnames : ∀ n ∈ r ++ m, IsName n := fun n hn => (List.mem_append.1 hn).elim (hr n) (hm n)
  refine ⟨r, m, c, hnames, heq, rfl, ?_⟩
  by_cases hne : m = []
  · -- What is written with a separator at the end is no file.
    obtain ⟨hend, -⟩ := Disk.stepsTo_of_file (Disk.goal_eq_ok_iff.1 hgoal).2 hs
    rw [hne, Path.endsInSeparator_join_nil hroot.1] at hend
    cases hend
  · rw [heq, Path.join_ofLocation hr hm hne] at hgoal
    rwa [Disk.goal_ofLocation hnames hgoal] at hs

/-- What is there can be found by looking at all the files that there are. -/
theorem Present.mem_of_walk (hroot : project.root.IsPlace) (h : project.Present disk G) :
    G ∈ (disk.top.walk (fun _ => true) []).filterMap fun l =>
      (Path.ofLocation l).stripStart? project.root := by
  obtain ⟨r, m, c, hnames, heq, rfl, hs⟩ := h.exists_sight hroot
  refine List.mem_filterMap.2 ⟨r ++ m, Dir.mem_walk_of_sight [] hs, ?_⟩
  rw [heq]
  exact Path.stripStart?_ofLocation (fun n hn => hnames n (List.mem_append_left _ hn))
    fun n hn => hnames n (List.mem_append_right _ hn)

instance : Finite ArtifactKind :=
  .of_injective (· = ArtifactKind.direct) (by rintro ⟨⟩ ⟨⟩ <;> simp)

/-- If what is there can be used as a path, there are finitely many targets, up to spelling. -/
theorem finite_universe (hroot : project.root.IsPlace)
    (hpresent : ∀ G, present G → G.bytes.length ≤ maxPath) :
    (Path.components '' project.Universe disk traces targets present).Finite := by
  have hout : project.outputRoot.IsPlace := isPlace_outputRoot hroot.1
  -- What belongs to a target is spelled in many ways, but its artifacts are not.
  have hbelongs : ∀ (kind other : ArtifactKind) (t : Path), { cs : List Component | ∃ u G, t.Same u ∧
      other.source? project.outputRoot u = some G ∧
        (kind.artifact project.outputRoot G).components = cs }.Subsingleton := by
    rintro kind other t _ ⟨u, G, hs, hG, rfl⟩ _ ⟨v, H, hs', hH, rfl⟩
    have hsame := (ArtifactKind.same_artifact_of_source? hout hG).symm.trans
      (hs.symm.trans (hs'.trans (ArtifactKind.same_artifact_of_source? hout hH)))
    exact (ArtifactKind.artifact_same hout.1 hsame).2 kind
  have hnamed : { t | Named traces targets t }.Finite := finite_named
  have hlisted : { G | present G ∨ disk.Lists G }.Finite :=
    ((finite_length_le maxPath).union (finite_lists disk)).subset fun G hG => hG.imp_left (hpresent G)
  have hknown : ∀ kind : ArtifactKind, ((fun G => (kind.artifact project.outputRoot G).components) ''
      { G | project.Known disk traces targets present G }).Finite := by
    intro kind
    refine ((Set.finite_iUnion fun other => hnamed.biUnion fun t _ => (hbelongs kind other t).finite).union
      (hlisted.image fun G => (kind.artifact project.outputRoot G).components)).subset ?_
    rintro _ ⟨G, ⟨other, t, u, ht, hs, hG⟩ | hG, rfl⟩
    · exact .inl (Set.mem_iUnion.2 ⟨other, Set.mem_biUnion ht ⟨u, G, hs, hG, rfl⟩⟩)
    · exact .inr ⟨G, hG, rfl⟩
  refine ((hnamed.image Path.components).union (Set.finite_iUnion hknown)).subset ?_
  rintro _ ⟨t, ht | ⟨kind, G, hG, -, rfl⟩, rfl⟩
  · exact .inl ⟨t, ht, rfl⟩
  · exact .inr (Set.mem_iUnion.2 ⟨kind, G, hG, rfl⟩)

/-! ### Builds -/

section

variable (hroot : project.root.IsPlace) (hbook : project.rules = .ok book.rules)
  {m₀ m : Moment} {marks : List Mark}

include hroot hbook

/-- What holds wherever requests lead: it is within the extent, if all that is there is counted in. -/
theorem holds_extent (hwalk : Walk book (.requests targets) ⟨{ disk, traces }, [], .working⟩ marks m)
    (hpresent : ∀ d, d.Rewritten (fun _ => True) m.session.disk → ∀ G, project.Present d G → present G) :
    (project.extent disk traces targets present).Holds book m := by
  have hrewritten : ∀ {m m'}, Leads book (.requests targets) m m' →
      m.session.disk.Rewritten (fun _ => True) m'.session.disk := Leads.rewritten fun _ _ h => h
  have hstart : (project.extent disk traces targets present).Holds book
      ⟨{ disk, traces }, [], .working⟩ := by
    refine .session ⟨hpresent _ (hrewritten ⟨_, hwalk⟩), fun l n kind c hs G hG => ?_⟩ ?_
    · exact .inr (.inr ⟨l, n, kind, c, hs, hG⟩)
    · intro t trace htrace u digest hdep
      obtain ⟨e, hmem, -, rfl, -⟩ := PathTable.exists_of_get? htrace
      exact ⟨u, .inl (.inr ⟨e, hmem, .inr ⟨digest, hdep⟩⟩), rfl⟩
  exact hstart.walk (closed_extent hroot hbook) (fun t ht => ⟨t, .inl (.inl ht), rfl⟩)
    (fun _ _ h => h) .session hwalk fun m₁ _ hm => hpresent _ (hrewritten hm)

/-- No more targets are on the stack than there are, if all that is there is counted in. -/
theorem length_stack_le (hwalk : Walk book (.requests targets) ⟨{ disk, traces }, [], .working⟩ marks m)
    (hlength : ∀ G, present G → G.bytes.length ≤ maxPath)
    (hpresent : ∀ d, d.Rewritten (fun _ => True) m.session.disk → ∀ G, project.Present d G → present G) :
    m.session.stack.length ≤
      (Path.components '' project.Universe disk traces targets present).ncard :=
  (holds_extent hroot hbook hwalk hpresent).length_stack_le (Orderly.session.walk hwalk)
    (finite_universe hroot hlength) fun _ ht => ht

/-- Requests that are followed deep enough are answered. -/
theorem exists_requireAll (targets : List Path) (disk : Disk) (traces : TraceTable) : ∃ depth, ∀ n ≥ depth,
    ∃ r, Session.requireAll book n targets { disk, traces } = some r := by
  refine ⟨(Path.components '' project.Universe disk traces targets
    fun G => G.bytes.length ≤ maxPath).ncard + 1, fun n hn => ?_⟩
  refine (leads_of_requireAll (o := .requests targets) (fun t ht => ht) .refl).2 ?_
  rintro m ⟨marks, hwalk⟩
  have hstack := length_stack_le hroot hbook hwalk (fun G h => h) fun d _ G hG => hG.length_le
  rw [(Orderly.session.walk hwalk).stack, List.length_map] at hstack
  omega

end

end Project

end ImportIndex
