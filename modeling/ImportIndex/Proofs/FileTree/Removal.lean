import ImportIndex.Proofs.FileTree.Filled
import ImportIndex.Proofs.FileTree.Proper
import ImportIndex.Proofs.FileTree.Room

/-!
# Files that are taken away

A file that is taken away is seen no more, and all else is seen as before (`removeFile_ofLocation`,
`Dir.sight_modify_erase`). A disk without some files, and with other contents in others, tells the same
as before through every path that leads to none of them (`Disk.Pruned`).
-/

namespace ImportIndex

namespace Dir

variable {d : Dir} {l loc : Location} {n : Bytes} {c : Content}

/-- What is seen below a directory after a file was taken out of it. -/
theorem sight_modify_erase (hs : d.sight (loc ++ [n]) = .file c) :
    (d.modify (·.erase n) loc).sight l = if l = loc ++ [n] then .nothing else d.sight l := by
  induction loc generalizing d l with
  | nil =>
    rw [modify, List.nil_append]
    rw [List.nil_append] at hs
    cases l with
    | nil => simp
    | cons a l =>
      by_cases ha : n = a
      · subst ha
        rw [sight_cons, find?_erase_self]
        by_cases hl : l = []
        · simp [hl]
        · -- Below a file there is nothing.
          have hnothing : d.sight (n :: l) = .nothing := Decidable.byContradiction fun h => by
            rw [sight_of_append (l := [n]) h hl] at hs
            cases hs
          rw [hnothing, ite_self]
      · rw [sight_cons, find?_erase_of_ne ha, sight_cons,
          if_neg (by simpa using fun h => absurd h.symm ha)]
  | cons a loc ih =>
    rw [List.cons_append, sight_cons] at hs
    cases hf : d.find? a with
    | none => simp [hf] at hs
    | some f =>
      cases f with
      | file content => simp [hf] at hs
      | dir inner =>
        rw [hf] at hs
        rw [modify, hf]
        cases l with
        | nil => simp
        | cons b l =>
          by_cases hb : a = b
          · subst hb
            rw [sight_cons, find?_insert_self, sight_cons, hf]
            simp [ih hs]
          · rw [sight_cons, find?_insert_of_ne hb, sight_cons,
              if_neg (by simpa using fun h => absurd h.symm hb)]

end Dir

namespace Disk

variable {disk disk' disk'' : Disk} {l m : Location} {n : Bytes} {c d : Content} {p : Path}
  {gone gone' changed changed' : Location → Prop}

/-! ### Taking a file away -/

theorem removeFile_eq : removeFile p disk =
    match disk.aim p with
    | .error fault => (.error fault, disk)
    | .ok (.entry dir name slash) =>
      match disk.child dir name with
      | .error fault => (.error fault, disk)
      | .ok none => (.error .notFound, disk)
      | .ok (some (.dir _)) => (.error .isADirectory, disk)
      | .ok (some (.file _)) =>
        if slash then (.error .notADirectory, disk)
        else (.ok (), { disk with top := disk.top.modify (·.erase name) dir })
    | .ok _ => (.error .isADirectory, disk) := by
  rw [removeFile, run_bind, run_get]
  simp only [run_bind, run_lift]
  rcases disk.aim p with fault | top | piece | ⟨dir, name, slash⟩
  · rfl
  · rfl
  · rfl
  · simp only [run_bind, run_get, run_lift]
    rcases disk.child dir name with fault | _ | e | inner
    · rfl
    · rfl
    · cases slash <;> rfl
    · rfl

/-- A file at a place that can be used is taken away. -/
theorem removeFile_ofLocation (hl : ∀ m ∈ l ++ [n], IsName m) (hu : Usable (l ++ [n]))
    (hs : disk.sight (l ++ [n]) = .file c) : removeFile (Path.ofLocation (l ++ [n])) disk =
      (.ok (), { disk with top := disk.top.modify (·.erase n) l }) := by
  have hdir : disk.sight l = .directory := Dir.sight_of_append (m := [n])
    (by change disk.sight (l ++ [n]) ≠ _; simp [hs]) (by simp)
  have haim := aim_place hl hu (not_file_of_directory hdir)
  rw [hdir, if_neg (by simp)] at haim
  obtain ⟨e, he, hsight⟩ : ∃ e, disk.top.get? (l ++ [n]) = some e ∧ e.sight = .file c := by
    rw [sight, Dir.sight] at hs
    cases he : disk.top.get? (l ++ [n]) with
    | none => simp [he] at hs
    | some e => exact ⟨e, rfl, by simpa [he] using hs⟩
  obtain ⟨content, rfl⟩ : ∃ content, e = .file content := by
    cases e with
    | file content => exact ⟨content, rfl⟩
    | dir inner => cases hsight
  rw [removeFile_eq, haim]
  simp [child_eq (hu.2 n (by simp)), he]

theorem isFile_iff :
    disk.isFile p = true ↔ ∃ l, disk.goal p = .ok l ∧ ∃ c, disk.sight l = .file c := by
  rw [isFile_eq_isSome_read, Option.isSome_iff_exists]
  simp only [toOption_eq_some_iff, read_eq_ok_iff]
  exact exists_comm.trans (exists_congr fun l => exists_and_left)

/-- How a disk changes when some files are taken away, and some others may be rewritten. -/
structure Pruned (gone changed : Location → Prop) (disk disk' : Disk) : Prop where
  /-- The current directory stays. -/
  here : disk'.here = disk.here
  /-- The disk refuses the same. -/
  refuses : disk'.refuses = disk.refuses
  /-- What is seen stays, unless it is a file that is taken away or rewritten. -/
  sight : ∀ l, (disk'.sight l = disk.sight l ∧ ¬ gone l) ∨
    ((∃ c, disk.sight l = .file c) ∧ disk'.sight l = .nothing ∧ gone l) ∨
    ((∃ c, disk.sight l = .file c) ∧ (∃ c, disk'.sight l = .file c) ∧ ¬ gone l ∧ changed l)

/-- A walk goes nowhere from a file. -/
theorem eq_of_foldlM_of_file {steps : List Bytes} (hs : disk.sight l = .file c)
    (h : steps.foldlM (walkStep disk.sight) l = .ok m) : l = m := by
  cases steps with
  | nil => exact Except.ok.inj h
  | cons piece steps =>
    rw [List.foldlM_cons, walkStep, hs] at h
    cases h

namespace Pruned

theorem refl : Pruned (fun _ => False) changed disk disk :=
  ⟨rfl, rfl, fun _ => .inl ⟨rfl, id⟩⟩

/-- A file is taken away. -/
theorem erase (hs : disk.sight (l ++ [n]) = .file c) :
    Pruned (· = l ++ [n]) changed disk
      { disk with top := disk.top.modify (fun d => d.erase n) l } := by
  refine ⟨rfl, rfl, fun k => ?_⟩
  have hk : Disk.sight { disk with top := disk.top.modify (·.erase n) l } k =
      if k = l ++ [n] then .nothing else disk.sight k := Dir.sight_modify_erase hs
  rw [hk]
  split
  · next hk => exact .inr (.inl ⟨⟨c, hk ▸ hs⟩, rfl, hk⟩)
  · next hk => exact .inl ⟨rfl, hk⟩

/-- A file is written again. -/
theorem write (hl : ∀ n ∈ l, IsName n) (hs : disk.sight l = .file c) :
    Pruned (fun _ => False) (· = l) disk (writeIfChanged (Path.ofLocation l) d disk).2 := by
  have hne : l ≠ [] := by
    rintro rfl
    simp [Disk.sight] at hs
  have hgrows := @grows_write disk d l hl hne
  refine ⟨hgrows.here, hgrows.refuses, fun k => ?_⟩
  rcases hgrows.sight k with hk | ⟨hk, -, ⟨m, rfl⟩, hkl⟩ | ⟨d', -, hk, rfl, -⟩
  · exact .inl ⟨hk, id⟩
  · -- What the file is in is there already.
    have hdir : disk.sight k = .directory :=
      Dir.sight_of_append (m := m) (by rw [← Disk.sight, hs]; simp) fun hm => hkl (by simp [hm])
    cases hdir.symm.trans hk
  · exact .inr (.inr ⟨⟨c, hs⟩, ⟨d', hk⟩, id, rfl⟩)

/-- Files that were not rewritten. -/
theorem unchanged (h : Pruned gone changed disk disk')
    (hs : ∀ l c, changed l → disk.sight l = .file c → disk'.sight l = .file c) :
    Pruned gone (fun _ => False) disk disk' := by
  refine ⟨h.here, h.refuses, fun l => ?_⟩
  rcases h.sight l with hl | hl | ⟨⟨c, hc⟩, -, hg, hl⟩
  · exact .inl hl
  · exact .inr (.inl hl)
  · exact .inl ⟨(hs l c hl hc).trans hc.symm, hg⟩

/-- The files that are gone, told in other words. -/
theorem congr (h : Pruned gone changed disk disk') (hg : ∀ l, gone l ↔ gone' l)
    (hc : ∀ l, changed l → changed' l) : Pruned gone' changed' disk disk' := by
  refine ⟨h.here, h.refuses, fun l => ?_⟩
  rw [← hg l]
  exact (h.sight l).imp_right (Or.imp_right fun ⟨hs, hs', hn, hl⟩ => ⟨hs, hs', hn, hc l hl⟩)

theorem trans (h : Pruned gone changed disk disk') (h' : Pruned gone' changed disk' disk'') :
    Pruned (fun l => gone l ∨ gone' l) changed disk disk'' := by
  refine ⟨h'.here.trans h.here, h'.refuses.trans h.refuses, fun l => ?_⟩
  rcases h.sight l with ⟨hs, hg⟩ | ⟨hs, hnothing, hg⟩ | ⟨hs, ⟨c, hfile⟩, hg, hc⟩
  · rcases h'.sight l with ⟨hs', hg'⟩ | ⟨hs', hnothing', hg'⟩ | ⟨hs', hfile', hg', hc'⟩
    · exact .inl ⟨hs'.trans hs, not_or.2 ⟨hg, hg'⟩⟩
    · exact .inr (.inl ⟨hs ▸ hs', hnothing', .inr hg'⟩)
    · exact .inr (.inr ⟨hs ▸ hs', hfile', not_or.2 ⟨hg, hg'⟩, hc'⟩)
  · rcases h'.sight l with ⟨hs', -⟩ | ⟨⟨c, hs'⟩, -⟩ | ⟨⟨c, hs'⟩, -⟩
    · exact .inr (.inl ⟨hs, hs'.trans hnothing, .inl hg⟩)
    · cases hnothing.symm.trans hs'
    · cases hnothing.symm.trans hs'
  · rcases h'.sight l with ⟨hs', hg'⟩ | ⟨-, hnothing', hg'⟩ | ⟨-, hfile', hg', -⟩
    · exact .inr (.inr ⟨hs, ⟨c, hs'.trans hfile⟩, not_or.2 ⟨hg, hg'⟩, hc⟩)
    · exact .inr (.inl ⟨hs, hnothing', .inr hg'⟩)
    · exact .inr (.inr ⟨hs, hfile', not_or.2 ⟨hg, hg'⟩, hc⟩)

theorem sight_eq (h : Pruned gone changed disk disk') (hg : ¬ gone l) (hc : ¬ changed l) :
    disk'.sight l = disk.sight l := by
  rcases h.sight l with ⟨hs, -⟩ | ⟨-, -, hl⟩ | ⟨-, -, -, hl⟩
  · exact hs
  · exact absurd hl hg
  · exact absurd hl hc

theorem sight_gone (h : Pruned gone changed disk disk') (hg : gone l) :
    (∃ c, disk.sight l = .file c) ∧ disk'.sight l = .nothing := by
  rcases h.sight l with ⟨-, hl⟩ | ⟨hs, hs', -⟩ | ⟨-, -, hl, -⟩
  · exact absurd hg hl
  · exact ⟨hs, hs'⟩
  · exact absurd hg hl

theorem sight_directory_iff (h : Pruned gone changed disk disk') :
    disk'.sight l = .directory ↔ disk.sight l = .directory := by
  rcases h.sight l with ⟨hs, -⟩ | ⟨⟨c, hs⟩, hs', -⟩ | ⟨⟨c, hs⟩, ⟨c', hs'⟩, -⟩
  · rw [hs]
  · simp [hs, hs']
  · simp [hs, hs']

/-- A file that is not taken away stays one, and no other one appears. -/
theorem exists_file_iff (h : Pruned gone changed disk disk') :
    (∃ c, disk'.sight l = .file c) ↔ (∃ c, disk.sight l = .file c) ∧ ¬ gone l := by
  rcases h.sight l with ⟨hs, hg⟩ | ⟨⟨c, hs⟩, hs', hg⟩ | ⟨⟨c, hs⟩, ⟨c', hs'⟩, hg, -⟩
  · simp [hs, hg]
  · simp [hs', hg]
  · simp [hs, hs', hg]

theorem sight_nothing_iff (h : Pruned gone changed disk disk') :
    disk'.sight l = .nothing ↔ disk.sight l = .nothing ∨ gone l := by
  rcases h.sight l with ⟨hs, hg⟩ | ⟨⟨c, hs⟩, hs', hg⟩ | ⟨⟨c, hs⟩, ⟨c', hs'⟩, hg, -⟩
  · simp [hs, hg]
  · simp [hs', hg]
  · simp [hs, hs', hg]

theorem not_gone_of_directory (h : Pruned gone changed disk disk') (hs : disk.sight l = .directory) :
    ¬ gone l := by
  intro hg
  obtain ⟨⟨c, hc⟩, -⟩ := h.sight_gone hg
  cases hs.symm.trans hc

/-- A walk from what is not gone ends as before, unless what it ends at is gone. -/
theorem foldlM_walkStep (h : Pruned gone changed disk disk') {steps : List Bytes} {start : Location}
    (hstart : ¬ gone start) : steps.foldlM (walkStep disk'.sight) start = .ok l ↔
      steps.foldlM (walkStep disk.sight) start = .ok l ∧ ¬ gone l := by
  induction steps generalizing start with
  | nil =>
    refine ⟨fun hl => ⟨hl, ?_⟩, And.left⟩
    exact Except.ok.inj hl ▸ hstart
  | cons piece steps ih =>
    rw [List.foldlM_cons, List.foldlM_cons]
    by_cases hdir : disk.sight start = .directory
    · rw [walkStep, walkStep, h.sight_directory_iff.2 hdir, hdir]
      simp only
      split
      · exact ih hstart
      · split
        · exact ih (h.not_gone_of_directory (sight_dropLast hdir))
        · split
          · simp [bind, Except.bind]
          · by_cases hnothing : disk.sight (start ++ [piece]) = .nothing
            · rw [if_pos (h.sight_nothing_iff.2 (.inl hnothing)), if_pos hnothing]
              simp [bind, Except.bind]
            · by_cases hg : gone (start ++ [piece])
              · -- A walk may end at the file that is gone now, and cannot go on from there.
                obtain ⟨⟨c, hc⟩, hgone⟩ := h.sight_gone hg
                rw [if_pos hgone, if_neg hnothing]
                refine ⟨fun h => by simp [bind, Except.bind] at h, fun hl => ?_⟩
                exact absurd (eq_of_foldlM_of_file hc hl.1 ▸ hg) hl.2
              · rw [if_neg fun hs => (h.sight_nothing_iff.1 hs).elim hnothing hg, if_neg hnothing]
                exact ih hg
    · have hstep : ∀ see : Location → Sight, see start ≠ .directory → ∀ l,
          (walkStep see start piece >>= fun next => steps.foldlM (walkStep see) next) ≠ .ok l := by
        intro see hsee l hl
        cases hs : walkStep see start piece with
        | error fault => simp [hs, bind, Except.bind] at hl
        | ok next => exact hsee (walkStep_eq_ok hs).1
      exact ⟨fun hl => absurd hl (hstep _ (mt h.sight_directory_iff.1 hdir) l),
        fun hl => absurd hl.1 (hstep _ hdir l)⟩

/-- A path leads to where it led before, unless a file was there and is gone. -/
theorem goal_eq_ok_iff (h : Pruned gone changed disk disk') :
    disk'.goal p = .ok l ↔ disk.goal p = .ok l ∧ ¬ gone l := by
  rw [Disk.goal_eq_ok_iff, Disk.goal_eq_ok_iff, start_eq h.here, and_assoc]
  exact and_congr_right fun _ => h.foldlM_walkStep (h.not_gone_of_directory Dir.sight_nil)

/-- A path leads to a file if it did before, and the file is not gone. -/
theorem isFile_iff (h : Pruned gone changed disk disk') : disk'.isFile p = true ↔
    disk.isFile p = true ∧ ∀ l, disk.goal p = .ok l → ¬ gone l := by
  rw [Disk.isFile_iff, Disk.isFile_iff]
  constructor
  · rintro ⟨l, hgoal, hfile⟩
    obtain ⟨hgoal, hg⟩ := h.goal_eq_ok_iff.1 hgoal
    refine ⟨⟨l, hgoal, (h.exists_file_iff.1 hfile).1⟩, fun m hm => ?_⟩
    rwa [Except.ok.inj (hm.symm.trans hgoal)]
  · rintro ⟨⟨l, hgoal, hfile⟩, hg⟩
    exact ⟨l, h.goal_eq_ok_iff.2 ⟨hgoal, hg l hgoal⟩, h.exists_file_iff.2 ⟨hfile, hg l hgoal⟩⟩

/-- What can be read at a path is as before if it leads to no file that is gone or rewritten. -/
theorem toOption_read (h : Pruned gone changed disk disk')
    (hp : ∀ l, disk.goal p = .ok l → ¬ gone l ∧ ¬ changed l) :
    (disk'.read p).toOption = (disk.read p).toOption := by
  refine Option.ext fun c => ?_
  rw [toOption_eq_some_iff, toOption_eq_some_iff, read_eq_ok_iff, read_eq_ok_iff]
  refine exists_congr fun l => ?_
  rw [h.goal_eq_ok_iff, and_assoc]
  refine and_congr_right fun hl => ?_
  rw [h.sight_eq (hp l hl).1 (hp l hl).2, and_iff_right (hp l hl).1]

end Pruned

/-- A file at a place is taken away and nothing else changes, or nothing happens. -/
theorem removeFile_cases (hl : ∀ n ∈ l, IsName n) (disk : Disk) :
    (∃ fault, removeFile (Path.ofLocation l) disk = (.error fault, disk)) ∨
      ∃ disk', removeFile (Path.ofLocation l) disk = (.ok (), disk') ∧
        Pruned (· = l) (fun _ => False) disk disk' := by
  rw [removeFile_eq]
  cases haim : disk.aim (Path.ofLocation l) with
  | error fault => exact .inl ⟨fault, rfl⟩
  | ok aim =>
    cases aim with
    | top => exact .inl ⟨_, rfl⟩
    | directory piece => exact .inl ⟨_, rfl⟩
    | entry dir n slash =>
      obtain rfl := aim_ofLocation hl haim
      simp only
      rcases hchild : disk.child dir n with fault | _ | c | inner
      · exact .inl ⟨fault, rfl⟩
      · exact .inl ⟨_, rfl⟩
      · cases slash with
        | true => exact .inl ⟨_, rfl⟩
        | false =>
          have hs : disk.sight (dir ++ [n]) = Entry.sight (.file c) := by
            rw [child] at hchild
            split at hchild
            · cases hchild
            · rw [sight, Dir.sight, Except.ok.inj hchild]
              rfl
          exact .inr ⟨_, rfl, .erase hs⟩
      · exact .inl ⟨_, rfl⟩

end Disk

end ImportIndex
