import ImportIndex.Proofs.FileTree.Places
import ImportIndex.Proofs.Path.Joined
import Mathlib.Data.List.Flatten

/-!
# Folded paths on a disk

There are no links on a disk, so `..` leads back along the path: a path that leads to a file leads to the
same one when it is folded lexically (`Disk.isFile_normalize`). The converse does not hold, as the
directories that the folding leaves out need not exist.
-/

namespace ImportIndex

open Path

variable {l m steps : List Bytes} {n : Bytes} {p : Path}

namespace Path

/-- Pieces that are joined after a separator are the pieces with a separator before each. -/
theorem separator_cons_joinWith (hne : l ≠ []) :
    separator :: joinWith separator l = l.flatMap (separator :: ·) := by
  induction l with
  | nil => contradiction
  | cons piece l ih =>
    cases l with
    | nil => simp [joinWith]
    | cons q l =>
      rw [List.flatMap_cons, ← ih (by simp), joinWith]
      · rfl
      · simp

theorem steps_eq {rest : Bytes} (h : p.bytes = separator :: rest) :
    p.steps = (splitAt separator rest).filter (!·.isEmpty) := by
  have hsplit : splitAt separator (separator :: rest) = [] :: splitAt separator rest := by
    rw [splitAt, splitWhere]
    rfl
  rw [steps, h, hsplit, List.filter_cons_of_neg (by simp)]

/-- What counts of an absolute path are its steps. -/
theorem components_eq_filterMap_steps (h : p.isAbsolute = true) :
    p.components = .root :: p.steps.filterMap pieceComponent? := by
  obtain ⟨rest, hrest, hlayout⟩ := exists_layout_eq h
  have hidle : ∀ pieces : List Bytes,
      (pieces.filter (!·.isEmpty)).filterMap pieceComponent? = pieces.filterMap pieceComponent? := by
    intro pieces
    induction pieces with
    | nil => rfl
    | cons piece pieces ih =>
      cases piece with
      | nil => simpa [pieceComponent?, isIdle] using ih
      | cons b piece => rw [List.filter_cons_of_pos rfl, List.filterMap_cons, List.filterMap_cons, ih]
  rw [components, hlayout, steps_eq hrest, hidle]
  rfl

/-- A path that is the same as an absolute one is absolute. -/
theorem isAbsolute_of_same {q : Path} (h : p.isAbsolute = true) (hs : p.Same q) :
    q.isAbsolute = true := by
  by_contra habs
  refine root_not_mem (Bool.eq_false_iff.2 habs) ?_
  rw [← show p.components = q.components from hs, components_eq_filterMap_steps h]
  exact List.mem_cons_self

/-- The steps of an absolute path are spelled in it. -/
theorem flatMap_steps_sublist (h : p.isAbsolute = true) :
    (p.steps.flatMap (separator :: ·)).Sublist p.bytes := by
  obtain ⟨rest, hrest, -⟩ := exists_layout_eq h
  have hbytes : p.bytes = (splitAt separator rest).flatMap (separator :: ·) := by
    have hne : splitAt separator rest ≠ [] := splitWhere_ne_nil _ rest
    rw [← separator_cons_joinWith hne, joinWith_splitAt, hrest]
  rw [steps_eq hrest, hbytes]
  exact List.filter_sublist.flatMap _

end Path

namespace Disk

variable {see : Location → Sight} {disk : Disk}

/-- A walk comes to where its steps lead by themselves. -/
theorem foldl_resolve_of_walk (hsteps : ∀ s ∈ steps, s ≠ [])
    (h : steps.foldlM (walkStep see) l = .ok m) :
    (steps.filterMap pieceComponent?).foldl Component.resolve l = m := by
  induction steps generalizing l with
  | nil => exact Except.ok.inj h
  | cons piece steps ih =>
    rw [List.forall_mem_cons] at hsteps
    rw [List.foldlM_cons] at h
    cases hs : walkStep see l piece with
    | error fault =>
      rw [hs] at h
      contradiction
    | ok next =>
      rw [hs] at h
      rcases (walkStep_eq_ok hs).2 with ⟨rfl, rfl⟩ | ⟨-, rfl, rfl⟩ | ⟨hhere, hup, -, -, rfl⟩
      · exact ih hsteps.2 h
      · exact ih hsteps.2 h
      · have hpiece : pieceComponent? piece = some (.name piece) := by
          simp [pieceComponent?, isIdle, hsteps.1, hhere, hup]
        rw [List.filterMap_cons_some hpiece]
        exact ih hsteps.2 h

/-- What a walk comes to is spelled in the steps. -/
theorem flatMap_sublist_of_walk (h : steps.foldlM (walkStep see) l = .ok m) :
    (m.flatMap (separator :: ·)).Sublist ((l ++ steps).flatMap (separator :: ·)) := by
  induction steps generalizing l with
  | nil => simp [Except.ok.inj h]
  | cons piece steps ih =>
    rw [List.foldlM_cons] at h
    cases hs : walkStep see l piece with
    | error fault =>
      rw [hs] at h
      contradiction
    | ok next =>
      rw [hs] at h
      refine (ih h).trans (List.Sublist.flatMap ?_ _)
      rcases (walkStep_eq_ok hs).2 with ⟨rfl, rfl⟩ | ⟨-, rfl, rfl⟩ | ⟨-, -, -, -, rfl⟩
      · exact (List.sublist_cons_self _ _).append_left next
      · exact (List.dropLast_sublist l).append (List.sublist_cons_self _ _)
      · simp

/-- Names that are not too long are added to a location. -/
theorem isName_of_walk (hsteps : ∀ s ∈ steps, s ≠ [] ∧ separator ∉ s)
    (hl : ∀ n ∈ l, IsName n ∧ n.length ≤ maxName) (h : steps.foldlM (walkStep see) l = .ok m) :
    ∀ n ∈ m, IsName n ∧ n.length ≤ maxName := by
  induction steps generalizing l with
  | nil => exact Except.ok.inj h ▸ hl
  | cons piece steps ih =>
    rw [List.forall_mem_cons] at hsteps
    rw [List.foldlM_cons] at h
    cases hs : walkStep see l piece with
    | error fault =>
      rw [hs] at h
      contradiction
    | ok next =>
      rw [hs] at h
      refine ih hsteps.2 ?_ h
      rcases (walkStep_eq_ok hs).2 with ⟨-, rfl⟩ | ⟨-, -, rfl⟩ | ⟨hhere, hup, hlen, -, rfl⟩
      · exact hl
      · exact fun n hn => hl n (List.dropLast_subset _ hn)
      · refine fun n hn => (List.mem_append.1 hn).elim (hl n) fun hn => ?_
        obtain rfl := List.mem_singleton.1 hn
        exact ⟨⟨hsteps.1.1, hsteps.1.2, hhere, hup⟩, hlen⟩

/-- A path that leads to a file ends in its name. -/
theorem stepsTo_of_file {c : Content} (hwalk : disk.walk (disk.start p ++ stepsTo p) = .ok l)
    (hs : disk.sight l = .file c) : p.endsInSeparator = false ∧ stepsTo p = p.steps := by
  cases hend : p.endsInSeparator with
  | false => exact ⟨rfl, by simp [stepsTo, hend]⟩
  | true =>
    -- What a separator follows is a directory.
    rw [walk, stepsTo, hend, if_pos rfl, ← List.append_assoc, List.foldlM_append] at hwalk
    cases hbefore : (disk.start p ++ p.steps).foldlM (walkStep disk.sight) [] with
    | error fault =>
      rw [hbefore] at hwalk
      contradiction
    | ok k =>
      rw [hbefore] at hwalk
      have hstep : walkStep disk.sight k herePiece = .ok l := by
        rw [← bind_pure (walkStep disk.sight k herePiece)]
        exact hwalk
      obtain ⟨hdir, ⟨-, rfl⟩ | ⟨hne, -⟩ | ⟨hne, -⟩⟩ := walkStep_eq_ok hstep
      · rw [hdir] at hs
        cases hs
      · exact absurd rfl hne
      · exact absurd rfl hne

/-- A path that leads to a file is spelled with the name of the file at its end. -/
theorem exists_sight_of_read {e : Bytes} {c : Content} (he : separator ∉ e) (hlen : 2 < e.length)
    (hsuffix : e <:+ p.bytes) (h : disk.read p = .ok c) : ∃ l n, disk.sight (l ++ [n ++ e]) = .file c := by
  obtain ⟨b, hb⟩ := hsuffix
  obtain ⟨init, n, hsplit⟩ := exists_splitAt_append separator b
  obtain ⟨l, hgoal, hs⟩ := read_eq_ok_iff.1 h
  obtain ⟨-, hwalk⟩ := goal_eq_ok_iff.1 hgoal
  have hlong : ∀ piece : Bytes, piece.length ≤ 2 → n ++ e ≠ piece := by
    rintro piece hpiece rfl
    rw [List.length_append] at hpiece
    omega
  have hsteps : p.steps = init.filter (!·.isEmpty) ++ [n ++ e] := by
    have hempty : (n ++ e).isEmpty = false := by simpa using hlong [] (by decide)
    rw [steps, ← hb, hsplit e he, List.filter_append, List.filter_cons_of_pos (by simp [hempty]),
      List.filter_nil]
  rw [(stepsTo_of_file hwalk hs).2, hsteps, ← List.append_assoc, walk, List.foldlM_append] at hwalk
  cases hbefore : (disk.start p ++ init.filter (!·.isEmpty)).foldlM (walkStep disk.sight) [] with
  | error fault =>
    rw [hbefore] at hwalk
    contradiction
  | ok k =>
    rw [hbefore] at hwalk
    have hstep : walkStep disk.sight k (n ++ e) = .ok l := by
      rw [← bind_pure (walkStep disk.sight k (n ++ e))]
      exact hwalk
    rcases (walkStep_eq_ok hstep).2 with ⟨hhere, -⟩ | ⟨-, hup, -⟩ | ⟨-, -, -, -, rfl⟩
    · exact absurd hhere (hlong _ (by decide))
    · exact absurd hup (hlong _ (by decide))
    · exact ⟨k, n, hs⟩

theorem stepsTo_spec {s : Bytes} (hs : s ∈ stepsTo p) : s ≠ [] ∧ separator ∉ s := by
  rcases List.mem_append.1 hs with hs | hs
  · obtain ⟨hs, hempty⟩ := List.mem_filter.1 hs
    exact ⟨by simpa using hempty, separator_not_mem_splitAt hs⟩
  · split at hs
    · obtain rfl := List.mem_singleton.1 hs
      decide
    · cases hs

/-- A path leads to names that are not too long. -/
theorem isName_of_goal (hp : p.isAbsolute = true) (hgoal : disk.goal p = .ok l) :
    ∀ n ∈ l, IsName n ∧ n.length ≤ maxName := by
  obtain ⟨-, hwalk⟩ := goal_eq_ok_iff.1 hgoal
  have hstart : disk.start p = [] := by simp [start, hp]
  rw [hstart, List.nil_append] at hwalk
  exact isName_of_walk (fun s hs => stepsTo_spec hs) (by simp) hwalk

/-- Where an absolute path leads on a disk is where it leads by its components. -/
theorem resolve_of_goal (hp : p.isAbsolute = true) (hgoal : disk.goal p = .ok l) : p.resolve [] = l := by
  obtain ⟨-, hwalk⟩ := goal_eq_ok_iff.1 hgoal
  have hstart : disk.start p = [] := by simp [start, hp]
  have hsteps : (stepsTo p).filterMap pieceComponent? = p.steps.filterMap pieceComponent? := by
    rw [stepsTo, List.filterMap_append]
    split <;> simp [pieceComponent?, isIdle]
  rw [hstart, List.nil_append] at hwalk
  rw [resolve, components_eq_filterMap_steps hp, List.foldl_cons, ← hsteps]
  exact foldl_resolve_of_walk (fun s hs => (stepsTo_spec hs).1) hwalk

/-- A path that is folded tells where it leads, if it leads anywhere. -/
theorem normalize_of_goal (hp : p.isAbsolute = true) (hgoal : disk.goal p = .ok l) :
    p.normalize = ofLocation l := by
  rw [normalize_of_isAbsolute hp [], resolve_of_goal hp hgoal]

/-- Absolute paths that are the same lead to the same location, as far as they lead anywhere. -/
theorem goal_eq_of_same {q : Path} (hp : p.isAbsolute = true) (hs : p.Same q)
    (hgp : disk.goal p = .ok l) (hgq : disk.goal q = .ok m) : l = m := by
  rw [← resolve_of_goal hp hgp, ← resolve_of_goal (isAbsolute_of_same hp hs) hgq, resolve, resolve, hs]

/-- A path that leads to a file leads to it when it is folded. -/
theorem isFile_normalize (h : p.isAbsolute = true) (hfile : disk.isFile p = true) :
    disk.isFile p.normalize = true := by
  rw [isFile_eq_isSome_read, Option.isSome_iff_exists] at hfile ⊢
  obtain ⟨c, hc⟩ := hfile
  obtain ⟨l, hgoal, hs⟩ := read_eq_ok_iff.1 (toOption_eq_some_iff.1 hc)
  obtain ⟨hfault, hwalk⟩ := goal_eq_ok_iff.1 hgoal
  have hne : l ≠ [] := by
    rintro rfl
    simp [sight] at hs
  have hstart : disk.start p = [] := by simp [start, h]
  have hstepsTo := (stepsTo_of_file hwalk hs).2
  rw [hstart, hstepsTo, List.nil_append, walk] at hwalk
  have hnames := isName_of_goal h hgoal
  -- The folded path is spelled in the path, so it can be used if that can.
  have hspelled : (ofLocation l).bytes.Sublist p.bytes := by
    rw [ofLocation, separator_cons_joinWith hne]
    have hwalked := flatMap_sublist_of_walk hwalk
    exact hwalked.trans (by simpa using flatMap_steps_sublist h)
  obtain ⟨h0, -, hlen⟩ := fault?_eq_none_iff.1 hfault
  have husable : Usable l := by
    refine ⟨fault?_eq_none_iff.2 ⟨fun hmem => h0 (hspelled.subset hmem), by simp [ofLocation], ?_⟩,
      fun n hn => (hnames n hn).2⟩
    exact hspelled.length_le.trans hlen
  refine ⟨c, toOption_eq_some_iff.2 ?_⟩
  rw [normalize_of_goal h hgoal]
  exact (read_ofLocation_eq_ok_iff fun n hn => (hnames n hn).1).2 ⟨husable, hs⟩

end Disk

end ImportIndex
