import ImportIndex.Proofs.FileTree.Proper
import ImportIndex.Proofs.Path.Normal
import ImportIndex.Proofs.Path.Sorted
import Mathlib.Data.List.Infix

/-!
# What is discovered

A walk decides at each directory whether to enter it, and never looks back. What it lists is told by the
whole way there: it is the files that have only directories on their way that are entered
(`Dir.Proper.mem_walk_iff`). So the sources of a project are the files of a family that no directory on the
way hides, be it for its name or for holding the artifacts, each of them once and in the order of paths
(`Project.sources_exact`).

The name of a hidden directory is a text. One that starts with a dot and is no text does not hide what is
below (`Project.exists_source_behind_dot`).
-/

namespace ImportIndex

open Path

/-- The way to a location: the locations of the directories that it is in, the outermost first. -/
def wayTo (m : Location) : List Location :=
  -- Neither the start nor the location itself is on the way.
  m.dropLast.inits.tail

variable {k m start : Location} {n : Bytes} {enter : Location → Bool}

theorem mem_wayTo : k ∈ wayTo m ↔ k ≠ [] ∧ k <+: m ∧ k ≠ m := by
  have htail : ∀ l : Location, k ∈ l.inits.tail ↔ k ≠ [] ∧ k <+: l := by
    intro l
    cases l with
    | nil => simp
    | cons n l =>
      rw [List.inits_cons, List.tail_cons, ← List.mem_inits, List.inits_cons, List.mem_cons]
      cases k <;> simp
  rw [wayTo, htail]
  refine and_congr_right fun hk => ?_
  rcases List.eq_nil_or_concat m with rfl | ⟨m, n, rfl⟩
  · simp [hk]
  · rw [List.concat_eq_append, List.dropLast_concat, List.prefix_concat_iff]
    constructor
    · intro hk
      refine ⟨.inr hk, fun heq => ?_⟩
      have hlen := hk.length_le
      rw [heq, List.length_append, List.length_singleton] at hlen
      omega
    · rintro ⟨rfl | hk, hne⟩
      · exact absurd rfl hne
      · exact hk

/-- The way into a directory goes by it and then on inside. -/
theorem wayTo_cons (hm : m ≠ []) : wayTo (n :: m) = [n] :: (wayTo m).map (n :: ·) := by
  obtain ⟨a, l, rfl⟩ := List.exists_cons_of_ne_nil hm
  rw [wayTo, List.dropLast_cons_cons, List.inits_cons, List.tail_cons, wayTo]
  cases (a :: l).dropLast <;> simp

namespace Dir

variable {d : Dir}

theorem get?_file {name : Bytes} {content : Content} {rest : Dir} :
    (file name content rest).get? (n :: m) =
      if name = n then (if m = [] then some (.file content) else none) else rest.get? (n :: m) := by
  rw [get?, get?, find?]
  by_cases hn : name = n <;> simp [hn]

theorem get?_dir {name : Bytes} {inner rest : Dir} :
    (dir name inner rest).get? (n :: m) = if name = n then inner.get? m else rest.get? (n :: m) := by
  rw [get?, get?, find?]
  by_cases hn : name = n <;> simp [hn]

theorem Proper.start_not_mem_walk (h : d.Proper) : start ∉ d.walk enter start := by
  intro hmem
  obtain ⟨m, -, heq, hne, -⟩ := h.exists_of_mem_walk hmem
  exact hne (List.self_eq_append_right.1 heq)

/-- A walk lists the files all of whose directories on the way are entered. -/
theorem Proper.mem_walk_iff (h : d.Proper) : start ++ m ∈ d.walk enter start ↔
    (∃ content, d.get? m = some (.file content)) ∧ ∀ k ∈ wayTo m, enter (start ++ k) = true := by
  -- Each entry settles the locations that start with its name, and leaves the others to the rest.
  induction d generalizing start m with
  | empty => cases m <;> simp [walk, get?, find?]
  | file name content rest ih =>
    rcases m with _ | ⟨n, m⟩
    · exact iff_of_false (by simpa using h.start_not_mem_walk) (by simp [get?])
    rw [walk, List.mem_cons, get?_file, List.append_cancel_left_eq]
    by_cases hn : name = n
    · subst hn
      have hrest : start ++ name :: m ∉ rest.walk enter start := h.2.2.not_mem_walk h.2.1 rfl
      by_cases hm : m = [] <;> simp [hrest, hm, wayTo]
    · have hne : n :: m ≠ [name] := fun heq => hn (List.cons.inj heq).1.symm
      simp [ih h.2.2, hn, hne]
  | dir name inner rest ihinner ih =>
    rcases m with _ | ⟨n, m⟩
    · exact iff_of_false (by simpa using h.start_not_mem_walk) (by simp [get?])
    rw [walk, List.mem_append, get?_dir]
    by_cases hn : name = n
    · subst hn
      have hrest : start ++ name :: m ∉ rest.walk enter start := h.2.2.2.not_mem_walk h.2.1 rfl
      have hinner := @ihinner m (start ++ [name]) h.2.2.1
      rw [List.append_assoc, List.singleton_append] at hinner
      rcases eq_or_ne m [] with rfl | hm
      · have hin : start ++ [name] ∉ inner.walk enter (start ++ [name]) := h.2.2.1.start_not_mem_walk
        simp [hrest, hin, get?]
      · by_cases henter : enter (start ++ [name]) = true <;>
          simp [hrest, wayTo_cons hm, hinner, henter]
    · have hinner : start ++ n :: m ∉ inner.walk enter (start ++ [name]) := by
        intro hmem
        obtain ⟨m', -, heq, -⟩ := h.2.2.1.exists_of_mem_walk hmem
        rw [List.append_assoc, List.append_cancel_left_eq] at heq
        exact hn (List.cons.inj heq).1.symm
      simp [ih h.2.2.2, hn, hinner]

end Dir

namespace Path

variable {l : List Bytes}

theorem fileName?_ofNames (hl : ∀ n ∈ l, IsName n) : (ofNames l).fileName? = l.getLast? := by
  rw [fileName?, components_ofNames hl, List.getLast?_map]
  cases l.getLast? <;> rfl

theorem eq_of_ofNames_same (hl : ∀ n ∈ l, IsName n) (hm : ∀ n ∈ m, IsName n)
    (h : (ofNames l).Same (ofNames m)) : l = m := by
  rw [Same, components_ofNames hl, components_ofNames hm] at h
  exact (List.map_inj_right fun _ _ => Component.name.inj).1 h

end Path

namespace Project

variable {project : Project} {disk : Disk} {d : Dir} {F : Path}

/-- Whether a directory of this name is hidden: the name is a text that starts with a dot. -/
def Hides (n : Bytes) : Prop := n.head? = some dot ∧ n.toText?.isSome = true

instance (n : Bytes) : Decidable (Hides n) :=
  inferInstanceAs (Decidable (n.head? = some dot ∧ n.toText?.isSome = true))

/-- Whether what is in a directory, given by its location from the project root, can be a source. -/
def Admits (project : Project) (k : Location) : Prop :=
  ¬ Hides (k.getLastD []) ∧ ¬ (project.root.join (ofNames k)).Same project.outputRoot

theorem isSearched_ofNames (hk : ∀ n ∈ k, IsName n) :
    project.isSearched (ofNames k) = true ↔ project.Admits k := by
  rw [isSearched, isHidden, fileName?_ofNames hk, Admits, Hides, List.getLastD_eq_getLast?]
  cases k.getLast? with
  | none => simp
  | some n => simp [imp_iff_not_or]

/-- The files that are found in the directory of the project. -/
theorem mem_filesBelow (hd : d.Proper) :
    F ∈ (d.walk (fun loc => project.isSearched (.below loc)) []).map Path.below ↔
      ∃ names content, F = ofNames names ∧ d.get? names = some (.file content) ∧
        ∀ k ∈ wayTo names, project.Admits k := by
  have hsearched : ∀ {names content}, d.get? names = some (.file content) →
      ((∀ k ∈ wayTo names, project.isSearched (.below k) = true) ↔
        ∀ k ∈ wayTo names, project.Admits k) := by
    intro names content hget
    have hnames : ∀ n ∈ names, IsName n := hd.isName (by simp [Dir.sight, hget, Entry.sight])
    refine forall_congr' fun k => imp_congr_right fun hk => ?_
    exact isSearched_ofNames fun n hn => hnames n ((mem_wayTo.1 hk).2.1.subset hn)
  rw [List.mem_map]
  constructor
  · rintro ⟨names, hmem, rfl⟩
    rw [← List.nil_append names, hd.mem_walk_iff] at hmem
    obtain ⟨⟨content, hget⟩, hway⟩ := hmem
    exact ⟨names, content, rfl, hget, (hsearched hget).1 hway⟩
  · rintro ⟨names, content, rfl, hget, hway⟩
    refine ⟨names, ?_, rfl⟩
    rw [← List.nil_append names, hd.mem_walk_iff]
    exact ⟨⟨content, hget⟩, (hsearched hget).2 hway⟩

theorem mem_sources : F ∈ project.sources disk ↔ F ∈ disk.filesBelow project.isSearched project.root ∧
    (Family.of? project.settings F).isSome = true := by
  rw [sources, Path.sort, mem_sorted, List.mem_filter]

/-- A source is a path of names. -/
theorem isBelow_of_mem_sources (hproper : disk.top.Proper) (h : F ∈ project.sources disk) : F.IsBelow := by
  have hfile := (mem_sources.1 h).1
  rw [Disk.filesBelow] at hfile
  split at hfile
  · next d hentry =>
    obtain ⟨_, -, hget⟩ := Disk.get?_of_entry hentry
    have hd : d.Proper := hproper.of_get? hget
    obtain ⟨names, content, rfl, hget, -⟩ := (mem_filesBelow hd).1 hfile
    exact isBelow_ofNames (hd.isName (by simp [Dir.sight, hget, Entry.sight]))
  · simp at hfile

/-- The sources of a project are the files of a family that are below its root, but for those in a
    directory that is hidden or is the one of the artifacts. They ascend in the order of paths. -/
theorem sources_exact (hproper : disk.top.Proper) :
    (project.sources disk).Pairwise (fun F G => F.compare G = .lt) ∧
    ∀ F, F ∈ project.sources disk ↔ ∃ d names content, disk.entry project.root = .ok (.dir d) ∧
      d.get? names = some (.file content) ∧ F = ofNames names ∧
      (Family.of? project.settings F).isSome = true ∧ ∀ k ∈ wayTo names, ¬ Hides (k.getLastD []) ∧
        ¬ (project.root.join (ofNames k)).Same project.outputRoot := by
  rw [sources, Path.sort, Disk.filesBelow]
  cases hentry : disk.entry project.root with
  | error fault => simp
  | ok e =>
    cases e with
    | file content => simp
    | dir d =>
      obtain ⟨_, -, hget⟩ := Disk.get?_of_entry hentry
      have hd : d.Proper := hproper.of_get? hget
      constructor
      · -- No two locations are the same path, so that the sources do not only not descend.
        refine pairwise_sorted (List.Pairwise.filter _ (List.pairwise_map.2 ?_))
        refine hd.nodup_walk.imp_of_mem fun {l m} hl hm hne hsame => hne ?_
        obtain ⟨l, _, rfl, -, hlnames, -⟩ := hd.exists_of_mem_walk hl
        obtain ⟨m, _, rfl, -, hmnames, -⟩ := hd.exists_of_mem_walk hm
        exact eq_of_ofNames_same hlnames hmnames hsame
      · intro F
        simp only [mem_sorted, List.mem_filter, mem_filesBelow hd, Except.ok.injEq, Entry.dir.injEq,
          Admits]
        constructor
        · rintro ⟨⟨names, content, hF, hget, hway⟩, hfamily⟩
          exact ⟨d, names, content, rfl, hget, hF, hfamily, hway⟩
        · rintro ⟨_, names, content, rfl, hget, hF, hfamily, hway⟩
          exact ⟨⟨names, content, hF, hget, hway⟩, hfamily⟩

/-! ### A project in a small tree -/

/-- A project at `/w` whose artifacts go to `/w/out`. -/
def wood : Project := ⟨.ofText "/w", { outputDir := .ofText "src/../out" }⟩

/-- Sources side by side with a hidden directory and with that of the artifacts, and at places that are
    named like these. -/
def grove : Disk where
  top := .dir (.ofText "w")
    (.dir (.ofText "out") (.file (.ofText "o.c") (.ofText "") .empty)
      (.dir (.ofText ".git") (.dir (.ofText "a") (.file (.ofText "g.c") (.ofText "") .empty) .empty)
        (.dir (.ofText "src")
          (.dir (.ofText "out") (.file [0x79, 0xFF, 0x2E, 0x63] (.ofText "") .empty)
            (.file (.ofText ".git.c") (.ofText "") .empty))
          (.file (.ofText "src.h") (.ofText "") (.file (.ofText "README") (.ofText "") .empty)))))
    .empty

/-- Only what is below the two directories is left out. -/
theorem sources_exact_grove :
    grove.top.Proper ∧
    (∀ F, F ∈ wood.sources grove ↔ F ∈ [.ofText "src.h", .ofText "src/.git.c",
      ofNames [.ofText "src", .ofText "out", [0x79, 0xFF, 0x2E, 0x63]]]) ∧
    (wood.sources grove).Pairwise (fun F G => F.compare G = .lt) ∧
    .ofText "src/.git.c" ∈ wood.sources grove := by
  have hproper : grove.top.Proper := by decide
  have hfound : (grove.filesBelow wood.isSearched wood.root).filter (fun F =>
      (Family.of? wood.settings F).isSome) = [ofNames [.ofText "src", .ofText "out",
        [0x79, 0xFF, 0x2E, 0x63]], .ofText "src/.git.c", .ofText "src.h"] := by
    decide +kernel
  obtain ⟨hascending, hexact⟩ := @sources_exact wood grove hproper
  refine ⟨hproper, fun F => ?_, hascending, ?_⟩
  · rw [sources, Path.sort, mem_sorted, hfound]
    simp [or_comm, or_left_comm]
  · refine (hexact _).2 ⟨_, [.ofText "src", .ofText ".git.c"], .ofText "", rfl, ?_⟩
    decide +kernel

/-- A source in a directory whose name starts with a dot, and is no text. -/
def nook : Disk where
  top := .dir (.ofText "w")
    (.dir [0x2E, 0xFF] (.file (.ofText "a.c") (.ofText "") .empty) .empty) .empty

/-- What is in a directory whose name starts with a dot can be a source, if that name is no text. -/
theorem exists_source_behind_dot : ∃ k F, nook.top.Proper ∧ F = ofNames [[0x2E, 0xFF], .ofText "a.c"] ∧
    k ∈ wayTo [[0x2E, 0xFF], .ofText "a.c"] ∧ (k.getLastD []).head? = some dot ∧
    F ∈ wood.sources nook :=
  ⟨[[0x2E, 0xFF]], _, by decide, rfl, by decide, by decide, by decide +kernel⟩

end Project

end ImportIndex
