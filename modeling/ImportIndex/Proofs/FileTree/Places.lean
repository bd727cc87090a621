import ImportIndex.Proofs.FileTree.Writing
import Mathlib.Data.List.Infix

/-!
# Writing to places

A write to a place makes directories on the way to it and puts a file there, and nothing else
(`grows_write_ofLocation`). It succeeds if the place can be used, the disk refuses nothing, no file
is in the way and no directory is there (`exists_write_ofLocation`).
-/

namespace ImportIndex.Disk

variable {disk : Disk} {c : Content} {l k m : Location} {n : Bytes}

theorem aim_ofLocation {dir : Location} {slash : Bool} (hl : ∀ n ∈ l, IsName n)
    (h : disk.aim (Path.ofLocation l) = .ok (.entry dir n slash)) : dir ++ [n] = l := by
  obtain ⟨-, -, -, -, -, init, hsteps, hwalk⟩ := aim_eq_entry h
  rw [Path.steps_ofLocation hl] at hsteps
  subst hsteps
  rw [start_ofLocation, List.nil_append] at hwalk
  rw [(eq_append_of_walk (fun n hn => hl n (List.mem_append_left _ hn)) hwalk).1]
  rfl

/-- The places on the way to a place. -/
theorem lands_ofLocation (hl : ∀ n ∈ l, IsName n) :
    Lands (fun p => ∃ k, k <+: l ∧ p = Path.ofLocation k) (· <+: l) where
  here := by
    rintro p disk dir n slash ⟨k, hk, rfl⟩ haim
    rwa [aim_ofLocation (fun n hn => hl n (hk.subset hn)) haim]
  above := by
    rintro p parent ⟨k, hk, rfl⟩ hparent
    rcases List.eq_nil_or_concat k with rfl | ⟨m, n, rfl⟩
    · rw [show Path.parent? (Path.ofLocation []) = none by decide] at hparent
      contradiction
    · rw [List.concat_eq_append] at *
      rw [Path.parent?_ofLocation fun n hn => hl n (hk.subset hn)] at hparent
      exact ⟨m, (List.prefix_append m [n]).trans hk, (Option.some.inj hparent).symm⟩

theorem parentDir_ofLocation (hl : ∀ m ∈ l ++ [n], IsName m) :
    parentDir (Path.ofLocation (l ++ [n])) = Path.ofLocation l := by
  rw [parentDir, Path.parent?_ofLocation hl]
  simp [Path.ofLocation]

/-- A write to a place makes directories on the way to it and puts a file there. -/
theorem grows_write_ofLocation (hl : ∀ m ∈ l ++ [n], IsName m) :
    Grows (· <+: l) (fun k d => k = l ++ [n] ∧ d = c) disk
      (writeIfChanged (Path.ofLocation (l ++ [n])) c disk).2 :=
  grows_writeIfChanged (lands_ofLocation fun m hm => hl m (List.mem_append_left _ hm))
    ⟨l, List.prefix_refl l, parentDir_ofLocation hl⟩
    fun _ _ _ haim => ⟨aim_ofLocation hl haim, rfl⟩

/-! ### Writes that succeed -/

theorem fault?_eq_none_iff {p : Path} :
    p.fault? = none ↔ 0 ∉ p.bytes ∧ p.bytes ≠ [] ∧ p.bytes.length ≤ maxPath := by
  rw [Path.fault?, Path.invalid?, Path.isTooLong]
  by_cases h0 : 0 ∈ p.bytes
  · simp [h0]
  · by_cases hne : p.bytes = [] <;> simp [h0, hne]

theorem usable_of_le (h : Usable l) (hk : k <+: l) : Usable k := by
  refine ⟨?_, fun n hn => h.2 n (hk.subset hn)⟩
  obtain ⟨t, rfl⟩ := hk
  have hbytes : ∃ rest, (Path.ofLocation (k ++ t)).bytes = (Path.ofLocation k).bytes ++ rest := by
    by_cases hk : k = []
    · subst hk
      exact ⟨joinWith Path.separator t, rfl⟩
    · by_cases ht : t = []
      · subst ht
        exact ⟨[], by simp⟩
      · exact ⟨Path.separator :: joinWith Path.separator t, by
          simp [Path.ofLocation, joinWith_append hk ht]⟩
  obtain ⟨rest, hrest⟩ := hbytes
  obtain ⟨h0, -, hlen⟩ := fault?_eq_none_iff.1 h.1
  rw [hrest] at h0 hlen
  rw [List.length_append] at hlen
  exact fault?_eq_none_iff.2 ⟨fun h => h0 (List.mem_append_left _ h), by simp [Path.ofLocation],
    by omega⟩

/-- Whether no file is seen on the way to a location, and no directory there. -/
def Free (disk : Disk) (l : Location) : Prop :=
  (∀ k, k <+: l → k ≠ l → ∀ c, disk.sight k ≠ .file c) ∧ disk.sight l ≠ .directory

instance (disk : Disk) (l : Location) : Decidable (disk.Free l) :=
  decidable_of_iff ((∀ k ∈ l.inits, k ≠ l → disk.sight k = .nothing ∨ disk.sight k = .directory) ∧
    disk.sight l ≠ .directory) <| by
  refine and_congr_left' (forall_congr' fun k => ?_)
  rw [List.mem_inits]
  refine imp_congr_right fun _ => imp_congr_right fun _ => ?_
  cases disk.sight k <;> simp

theorem sight_eq_directory (hs : disk.sight l ≠ .nothing) (hfile : ∀ c, disk.sight l ≠ .file c) :
    disk.sight l = .directory := by
  cases h : disk.sight l with
  | nothing => exact absurd h hs
  | directory => rfl
  | file c => exact absurd h (hfile c)

theorem ne_concat_of_le (h : k <+: l) : k ≠ l ++ [n] := by
  rintro rfl
  have := h.length_le
  rw [List.length_append, List.length_singleton] at this
  omega

section

variable (hl : ∀ m ∈ l ++ [n], IsName m) (hu : Usable (l ++ [n]))
  (hfile : ∀ k, k <+: l → ∀ c, disk.sight k ≠ .file c)

include hl hu hfile

theorem walk_place : disk.walk l = if disk.sight l = .nothing then .error .notFound else .ok l :=
  walk_names (fun m hm => hl m (List.mem_append_left _ hm))
    (fun m hm => hu.2 m (List.mem_append_left _ hm)) fun k hk _ => hfile k hk

/-- Where a place points depends on whether the directory that it is in is there. -/
theorem aim_place : disk.aim (Path.ofLocation (l ++ [n])) =
    if disk.sight l = .nothing then .error .notFound else .ok (.entry l n false) := by
  have hn := hl n (by simp)
  have hfollow := @map_location_follow disk (l ++ [Path.herePiece])
  rw [walk, List.foldlM_append, ← walk, walk_place hl hu hfile] at hfollow
  rw [aim, hu.1, Path.steps_ofLocation hl, List.getLast?_concat, start_ofLocation,
    List.dropLast_concat, List.nil_append]
  by_cases hs : disk.sight l = .nothing
  · rw [if_pos hs] at hfollow ⊢
    cases hf : disk.follow (l ++ [Path.herePiece]) with
    | error fault =>
      rw [hf] at hfollow
      cases hfollow
      rfl
    | ok trail =>
      rw [hf] at hfollow
      cases hfollow
  · have hdir := sight_eq_directory hs (hfile l (List.prefix_refl l))
    have hstep : walkStep disk.sight l Path.herePiece = .ok l := by
      rw [walkStep, hdir]
      simp
    rw [if_neg hs] at hfollow ⊢
    simp only [bind, Except.bind, List.foldlM_cons, List.foldlM_nil, hstep] at hfollow
    cases hf : disk.follow (l ++ [Path.herePiece]) with
    | error fault =>
      rw [hf] at hfollow
      cases hfollow
    | ok trail =>
      rw [hf] at hfollow
      have hloc : trail.location = l := Except.ok.inj hfollow
      simp [hn.2.2.1, hn.2.2.2, hloc, Path.endsInSeparator_ofLocation hn]

end

theorem goal_ofLocation_nil : disk.goal (Path.ofLocation []) = .ok [] := by
  have hsteps : stepsTo (Path.ofLocation []) = [Path.herePiece] := by decide
  have hfault : (Path.ofLocation []).fault? = none := by decide
  refine goal_eq_ok_iff.2 ⟨hfault, ?_⟩
  rw [start_ofLocation, hsteps]
  simp [walk, walkStep, sight]

theorem aim_ofLocation_nil : disk.aim (Path.ofLocation []) = .ok .top := by
  have hsteps : (Path.ofLocation []).steps = [] := by decide
  have hfault : (Path.ofLocation []).fault? = none := by decide
  rw [aim, hfault, hsteps]
  rfl

theorem length_le_joinWith {α : Type} (sep : α) (ls : List (List α)) :
    ls.length ≤ (joinWith sep ls).length + 1 := by
  induction ls with
  | nil => simp
  | cons piece ls ih =>
    cases ls with
    | nil => simp
    | cons q ls =>
      rw [joinWith, List.length_append, List.length_cons (a := sep), List.length_cons (a := piece)]
      · omega
      · simp

theorem child_eq (hlen : n.length ≤ maxName) :
    disk.child l n = .ok (disk.top.get? (l ++ [n])) := by
  rw [child, if_neg (Nat.not_lt.2 hlen)]

theorem isDir_ofLocation (hl : ∀ m ∈ l, IsName m) (hu : Usable l)
    (hfile : ∀ k, k <+: l → ∀ c, disk.sight k ≠ .file c) (hs : disk.sight l = .directory) :
    disk.isDir (Path.ofLocation l) = true := by
  refine isDir_iff.2 ⟨l, ?_, hs⟩
  by_cases hne : l = []
  · rw [hne]
    exact goal_ofLocation_nil
  · refine goal_eq_ok_iff.2 ⟨hu.1, ?_⟩
    rw [start_ofLocation, stepsTo_ofLocation hl hne, List.nil_append,
      walk_names hl hu.2 fun k hk _ => hfile k hk, hs]
    simp

/-- In a directory that is there, a directory is made unless it is there too. -/
theorem makeDir_ofLocation (hl : ∀ m ∈ l ++ [n], IsName m) (hu : Usable (l ++ [n]))
    (hfile : ∀ k, k <+: l ++ [n] → ∀ c, disk.sight k ≠ .file c) (hdir : disk.sight l = .directory) :
    (∃ made, makeDir (Path.ofLocation (l ++ [n])) disk = (.ok (), made) ∧
        made.sight (l ++ [n]) = .directory) ∨
      makeDir (Path.ofLocation (l ++ [n])) disk = (.error .alreadyExists, disk) ∧
        disk.sight (l ++ [n]) = .directory := by
  have haim := aim_place hl hu fun k hk => hfile k (hk.trans (List.prefix_append l [n]))
  rw [hdir, if_neg (by simp)] at haim
  rw [makeDir_eq, haim]
  simp only [child_eq (hu.2 n (by simp))]
  cases hget : disk.top.get? (l ++ [n]) with
  | none =>
    have hs : disk.sight (l ++ [n]) = .nothing := by simp [sight, Dir.sight, hget]
    refine .inl ⟨_, rfl, ?_⟩
    rw [sight, Dir.sight_modify_insert (by simp) hdir (by rw [← sight, hs]; simp), if_pos rfl,
      Entry.sight]
  | some e =>
    have hs : disk.sight (l ++ [n]) = e.sight := by simp [sight, Dir.sight, hget]
    refine .inr ⟨rfl, ?_⟩
    cases e with
    | dir inner => exact hs
    | file c => exact absurd hs (hfile _ (List.prefix_refl _) c)

/-- Directories are made at a place that can be used with no file in the way. -/
theorem exists_makeDirs_ofLocation (hl : ∀ m ∈ l, IsName m) (hu : Usable l)
    (hfile : ∀ k, k <+: l → ∀ c, disk.sight k ≠ .file c) {fuel : Nat} (hfuel : l.length < fuel) :
    ∃ made, makeDirsWithin fuel (Path.ofLocation l) disk = (.ok (), made) ∧
      made.sight l = .directory := by
  induction fuel generalizing l with
  | zero => omega
  | succ fuel ih =>
    rw [makeDirsWithin_succ, if_neg (by simp [Path.ofLocation])]
    rcases List.eq_nil_or_concat l with rfl | ⟨l, n, rfl⟩
    · have hdir : disk.isDir (Path.ofLocation []) = true :=
        isDir_iff.2 ⟨[], goal_ofLocation_nil, Dir.sight_nil⟩
      rw [makeDir_eq, aim_ofLocation_nil]
      exact ⟨disk, by simp [hdir], Dir.sight_nil⟩
    · rw [List.concat_eq_append] at *
      have hl' : ∀ m ∈ l, IsName m := fun m hm => hl m (List.mem_append_left _ hm)
      have hfile' : ∀ k, k <+: l → ∀ c, disk.sight k ≠ .file c :=
        fun k hk => hfile k (hk.trans (List.prefix_append l [n]))
      by_cases hs : disk.sight l = .nothing
      · -- The parent is missing, so it is made first.
        have haim := aim_place hl hu hfile'
        rw [hs, if_pos rfl] at haim
        rw [List.length_append, List.length_singleton] at hfuel
        obtain ⟨made, hmade, hdir⟩ :=
          ih hl' (usable_of_le hu (List.prefix_append l [n])) hfile' (by omega)
        have hgrows : Grows (· <+: l) (fun _ _ => False) disk
            (makeDirsWithin fuel (Path.ofLocation l) disk).2 :=
          grows_makeDirsWithin (lands_ofLocation hl') ⟨l, List.prefix_refl l, rfl⟩
        rw [hmade] at hgrows
        have hmadefile : ∀ k, k <+: l ++ [n] → ∀ c, made.sight k ≠ .file c :=
          fun k hk _ => hgrows.sight_ne_file (fun _ => id) (hfile k hk)
        rw [makeDir_eq, haim, Path.parent?_ofLocation hl]
        simp only [if_true, hmade]
        rcases makeDir_ofLocation hl hu hmadefile hdir with ⟨d, hd, hds⟩ | ⟨hd, hds⟩
        · exact ⟨d, by simp [hd], hds⟩
        · exact ⟨made, by simp [hd, isDir_ofLocation hl hu hmadefile hds], hds⟩
      · have hdir := sight_eq_directory hs (hfile' l (List.prefix_refl l))
        rcases makeDir_ofLocation hl hu hfile hdir with ⟨d, hd, hds⟩ | ⟨hd, hds⟩
        · exact ⟨d, by simp [hd], hds⟩
        · exact ⟨disk, by simp [hd, isDir_ofLocation hl hu hfile hds], hds⟩

section

variable (hl : ∀ m ∈ l ++ [n], IsName m) (hu : Usable (l ++ [n])) (hfree : disk.Free (l ++ [n]))
  (hrefuses : ∀ step, disk.refuses (Path.ofLocation (l ++ [n])) step = none)

include hl hu hfree hrefuses

theorem writeAnew_ofLocation : (writeAnew (Path.ofLocation (l ++ [n])) c disk).1 = .ok true := by
  have hl' : ∀ m ∈ l, IsName m := fun m hm => hl m (List.mem_append_left _ hm)
  have hfile : ∀ k, k <+: l → ∀ c, disk.sight k ≠ .file c := fun k hk =>
    hfree.1 k (hk.trans (List.prefix_append l [n])) (ne_concat_of_le hk)
  have hfuel : l.length < (Path.ofLocation l).bytes.length + 1 :=
    Nat.lt_succ_of_le (length_le_joinWith Path.separator l)
  obtain ⟨made, hmade, hdir⟩ :=
    exists_makeDirs_ofLocation hl' (usable_of_le hu (List.prefix_append l [n])) hfile hfuel
  have hgrows : Grows (· <+: l) (fun _ _ => False) disk
      (makeDirsWithin ((Path.ofLocation l).bytes.length + 1) (Path.ofLocation l) disk).2 :=
    grows_makeDirsWithin (lands_ofLocation hl') ⟨l, List.prefix_refl l, rfl⟩
  rw [hmade] at hgrows
  -- The directories that were made end at the parent, so the place itself is still free.
  have hold : made.sight (l ++ [n]) ≠ .directory := by
    intro h
    rcases hgrows.sight (l ++ [n]) with h' | ⟨-, -, h'⟩ | ⟨c', -, -, h'⟩
    · exact hfree.2 (h' ▸ h)
    · exact ne_concat_of_le h' rfl
    · exact h'
  have haim := aim_place hl hu fun k hk _ => hgrows.sight_ne_file (fun _ => id) (hfile k hk)
  rw [hdir, if_neg (by simp)] at haim
  have hrefuses' : ∀ step, made.refuses (Path.ofLocation (l ++ [n])) step = none := by
    rw [hgrows.refuses]
    exact hrefuses
  rw [writeAnew]
  simp only [run_bind, run_permit, hrefuses, parentDir_ofLocation hl, makeDirs_eq, hmade,
    hrefuses', replace_eq, haim, child_eq (hu.2 n (by simp))]
  rcases hget : made.top.get? (l ++ [n]) with _ | e | inner
  · rfl
  · rfl
  · exact absurd (by simp [sight, Dir.sight, hget, Entry.sight]) hold

/-- A write to a place that can be used and is free succeeds if nothing is refused. -/
theorem exists_write_ofLocation :
    ∃ written, (writeIfChanged (Path.ofLocation (l ++ [n])) c disk).1 = .ok written := by
  have hanew := writeAnew_ofLocation (c := c) hl hu hfree hrefuses
  have hwalk : disk.walk (l ++ [n]) = _ := walk_names hl hu.2 hfree.1
  rw [writeIfChanged_eq, hrefuses]
  simp only
  by_cases hs : disk.sight (l ++ [n]) = .nothing
  · have hgoal : disk.goal (Path.ofLocation (l ++ [n])) = .error .notFound := by
      rw [goal, hu.1]
      simp only
      rw [start_ofLocation, stepsTo_ofLocation hl (by simp), List.nil_append, hwalk, if_pos hs]
    rw [read_eq_error hgoal]
    exact ⟨true, by simpa using hanew⟩
  · obtain ⟨old, hold⟩ : ∃ old, disk.sight (l ++ [n]) = .file old := by
      cases h : disk.sight (l ++ [n]) with
      | nothing => exact absurd h hs
      | directory => exact absurd h hfree.2
      | file old => exact ⟨old, rfl⟩
    rw [(read_ofLocation_eq_ok_iff hl).2 ⟨hu, hold⟩]
    simp only
    split
    · exact ⟨false, rfl⟩
    · exact ⟨true, hanew⟩

end

end ImportIndex.Disk
