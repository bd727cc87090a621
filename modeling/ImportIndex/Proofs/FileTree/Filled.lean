import ImportIndex.Proofs.FileTree.Writing

/-!
# Who put a file where it is

A path that leads somewhere leads there for good when files are written, as a disk only grows. So one can
tell at the end which paths were written: each file that has another content than at first is where one
of them leads (`Disk.Filled`), and what was written through a path is still there, unless another one
leads to the same file (`Disk.Holds`).

A write that fails may have made directories, and has changed no file (`sight_of_writeIfChanged_error`).
The directories may let a path through that was stuck before, so that a file appears at it which was
there all along. That takes a path that leads up again (`Grows.foresees`).
-/

namespace ImportIndex.Disk

variable {disk disk' disk'' : Disk} {p t u : Path} {c d : Content} {l : Location}
  {dirs : Location → Prop} {files : Location → Content → Prop} {wrote wrote' : Path → Prop}
  {r : Except IoFault Bool}

/-- What comes of a write: it fails and changes no file, or the path leads to the content in the end,
    which was put there or could be read there before. -/
theorem writeIfChanged_ends (h : writeIfChanged p c disk = (r, disk')) :
    (∃ fault, r = .error fault ∧ Grows (fun _ => True) (fun _ _ => False) disk disk') ∨
      ∃ written l, r = .ok written ∧ disk'.goal p = .ok l ∧ disk'.sight l = .file c ∧
        Grows (fun _ => True) (fun k _ => written = true ∧ k = l) disk disk' ∧
        (written = true → disk.read p ≠ .ok c) := by
  rcases writeIfChanged_cases lands_true trivial h with
    ⟨rfl, hread, rfl⟩ | hfault | ⟨made, rfl, hmade, hreplace⟩
  · obtain ⟨l, hgoal, hs⟩ := read_eq_ok_iff.1 hread
    exact .inr ⟨false, l, rfl, hgoal, hs, .refl, by simp⟩
  · exact .inl hfault
  · obtain ⟨dir, n, -, hgrows, hgoal, hs⟩ := goal_of_replace hreplace
    refine .inr ⟨true, dir ++ [n], rfl, hgoal, hs, ?_, fun _ hread => ?_⟩
    · exact (hmade.mono (fun _ h => h) fun _ _ h => h.elim).trans
        (hgrows.mono (fun _ h => h) fun _ _ h => ⟨rfl, h.1⟩)
    · -- A content that can be read at the path is not written again.
      rw [writeIfChanged_eq, hread] at h
      cases hcompare : disk.refuses p .compare <;> simp only [hcompare, if_true] at h <;>
        cases (Prod.mk.inj h).1

theorem Grows.sight_file_iff (h : Grows dirs files disk disk') (hf : ∀ c, ¬ files l c) :
    disk'.sight l = .file c ↔ disk.sight l = .file c := by
  rcases h.sight l with hs | ⟨hs, hs', -⟩ | ⟨d, -, -, hput⟩
  · rw [hs]
  · rw [hs, hs']
    simp
  · exact absurd hput (hf d)

/-- A write that fails changes no file. -/
theorem sight_of_writeIfChanged_error {fault : IoFault}
    (h : writeIfChanged p c disk = (.error fault, disk')) (l : Location) (d : Content) :
    disk'.sight l = .file d ↔ disk.sight l = .file d := by
  rcases writeIfChanged_ends h with ⟨_, -, hgrows⟩ | ⟨_, _, hr, -⟩
  · exact hgrows.sight_file_iff fun _ => id
  · cases hr

/-- A write that fails leaves everything that can be read. -/
theorem read_of_writeIfChanged_error {fault : IoFault}
    (h : writeIfChanged p c disk = (.error fault, disk')) {q : Path} (hread : disk.read q = .ok d) :
    disk'.read q = .ok d := by
  obtain ⟨l, hgoal, hs⟩ := read_eq_ok_iff.1 hread
  rcases writeIfChanged_ends h with ⟨_, -, hgrows⟩ | ⟨_, _, hr, -⟩
  · exact read_eq_ok_iff.2 ⟨l, hgrows.goal hgoal, (hgrows.sight_file_iff fun _ => id).2 hs⟩
  · cases hr

/-- A write that was done was refused nothing. -/
theorem refuses_of_writeIfChanged (h : writeIfChanged p c disk = (.ok true, disk')) (step : WriteStep) :
    disk.refuses p step = none := by
  have hpermit : ∀ {α : Type} {step : WriteStep} {f : Unit → DiskM α} {disk disk' : Disk} {a : α},
      (permit p step >>= f) disk = (.ok a, disk') →
        disk.refuses p step = none ∧ f () disk = (.ok a, disk') := by
    intro α step f disk disk' a h
    rw [run_bind, run_permit] at h
    cases hr : disk.refuses p step with
    | none => exact ⟨rfl, by rwa [hr] at h⟩
    | some fault =>
      rw [hr] at h
      cases (Prod.mk.inj h).1
  have hanew : ∀ {disk disk' : Disk}, writeAnew p c disk = (.ok true, disk') →
      ∀ step, step ≠ .compare → disk.refuses p step = none := by
    intro disk disk' h step hstep
    obtain ⟨hparents, h⟩ := hpermit h
    rw [run_bind] at h
    have hmade : Grows (fun _ => True) (fun _ _ => True) disk (makeDirs (parentDir p) disk).2 :=
      makeDirs_eq ▸ grows_makeDirsWithin lands_true trivial
    rcases hd : makeDirs (parentDir p) disk with ⟨fault | ⟨⟩, made⟩
    · rw [hd] at h
      cases (Prod.mk.inj h).1
    · rw [hd] at h hmade
      obtain ⟨hstage, h⟩ := hpermit h
      obtain ⟨hfill, h⟩ := hpermit h
      obtain ⟨hreplace, -⟩ := hpermit h
      rw [hmade.refuses] at hstage hfill hreplace
      cases step with
      | compare => exact absurd rfl hstep
      | makeParents => exact hparents
      | stage => exact hstage
      | fill => exact hfill
      | replace => exact hreplace
  rw [writeIfChanged_eq] at h
  cases hcompare : disk.refuses p .compare with
  | some fault =>
    rw [hcompare] at h
    cases (Prod.mk.inj h).1
  | none =>
    by_cases hstep : step = .compare
    · rw [hstep, hcompare]
    · rw [hcompare] at h
      simp only at h
      split at h
      · split at h
        · cases (Prod.mk.inj h).1
        · exact hanew h step hstep
      · split at h
        · exact hanew h step hstep
        · cases (Prod.mk.inj h).1

/-! ### What was written -/

/-- Whether a disk has grown so that whatever file is not as before, a path that was written leads
    there. -/
def Filled (wrote : Path → Prop) (disk disk' : Disk) : Prop :=
  Grows (fun _ => True) (fun l _ => ∃ t, wrote t ∧ disk'.goal t = .ok l) disk disk'

/-- Whether another path that was written leads to the same place. -/
def Clashes (wrote : Path → Prop) (disk : Disk) (t : Path) : Prop :=
  ∃ u l, wrote u ∧ ¬ u.Same t ∧ disk.goal t = .ok l ∧ disk.goal u = .ok l

/-- Whether a content can be read at a path, unless another one that was written leads there too. -/
def Holds (wrote : Path → Prop) (disk : Disk) (t : Path) (c : Content) : Prop :=
  disk.read t = .ok c ∨ Clashes wrote disk t

theorem Filled.refl : Filled wrote disk disk := Grows.refl

theorem Filled.mono (h : Filled wrote disk disk') (hw : ∀ u, wrote u → wrote' u) :
    Filled wrote' disk disk' :=
  Grows.mono h (fun _ => id) fun _ _ ⟨u, hu, hgoal⟩ => ⟨u, hw u hu, hgoal⟩

/-- Paths that lead to the same place do so for good. -/
theorem Clashes.grows (h : Clashes wrote disk t) (hw : ∀ u, wrote u → wrote' u)
    (hgrows : Grows dirs files disk disk') : Clashes wrote' disk' t := by
  obtain ⟨u, l, hu, hne, hgt, hgu⟩ := h
  exact ⟨u, l, hw u hu, hne, hgrows.goal hgt, hgrows.goal hgu⟩

theorem Holds.mono (h : Holds wrote disk t c) (hw : ∀ u, wrote u → wrote' u) :
    Holds wrote' disk t c := by
  have hrefl : Grows (fun _ => True) (fun _ _ => True) disk disk := .refl
  exact h.imp_right fun h => h.grows hw hrefl

theorem Filled.trans (h : Filled wrote disk disk') (h' : Filled wrote disk' disk'') :
    Filled wrote disk disk'' :=
  Grows.trans (Grows.mono h (fun _ => id) fun _ _ ⟨u, hu, hgoal⟩ => ⟨u, hu, Grows.goal h' hgoal⟩) h'

/-- A write fills a disk if what it puts counts as written. -/
theorem filled_writeIfChanged (hw : writeIfChanged t c disk = (r, disk'))
    (ht : r = .ok true → wrote t) : Filled wrote disk disk' := by
  rcases writeIfChanged_ends hw with ⟨_, -, hgrows⟩ | ⟨written, l, rfl, hgoal, -, hgrows, -⟩
  · exact hgrows.mono (fun _ => id) fun _ _ => False.elim
  · refine hgrows.mono (fun _ => id) fun k _ hk => ?_
    obtain ⟨rfl, rfl⟩ := hk
    exact ⟨t, ht rfl, hgoal⟩

/-- What a path holds stays when another one is written. -/
theorem Holds.write (h : Holds wrote disk t c) (hw : writeIfChanged u d disk = (r, disk'))
    (hu : r = .ok true → wrote u ∧ ¬ u.Same t) : Holds wrote disk' t c := by
  have hgrows : Grows (fun _ => True) (fun k _ => r = .ok true ∧ disk'.goal u = .ok k) disk disk' := by
    rcases writeIfChanged_ends hw with ⟨_, -, hgrows⟩ | ⟨written, m, rfl, hgu, -, hgrows, -⟩
    · exact hgrows.mono (fun _ => id) fun _ _ => False.elim
    · exact hgrows.mono (fun _ => id) fun _ _ hk => ⟨hk.1 ▸ rfl, hk.2 ▸ hgu⟩
  rcases h with hread | hclash
  · obtain ⟨l, hgoal, hs⟩ := read_eq_ok_iff.1 hread
    rcases hgrows.sight l with hl | ⟨hl, -⟩ | ⟨-, -, -, hr, hgu⟩
    · exact .inl (read_eq_ok_iff.2 ⟨l, hgrows.goal hgoal, hl.trans hs⟩)
    · cases hl.symm.trans hs
    · exact .inr ⟨u, l, (hu hr).1, (hu hr).2, hgrows.goal hgoal, hgu⟩
  · exact .inr (hclash.grows (fun _ => id) hgrows)

/-- What a path holds can be read if no other one that was written leads there. -/
theorem Holds.read (h : Holds wrote disk t c)
    (hapart : ∀ u l, wrote u → disk.goal t = .ok l → disk.goal u = .ok l → u.Same t) :
    disk.read t = .ok c := by
  obtain hread | ⟨u, l, hu, hne, hgt, hgu⟩ := h
  · exact hread
  · exact absurd (hapart u l hu hgt hgu) hne

/-- A file is as before if no path that was written leads there. -/
theorem Filled.sight_file_iff (h : Filled wrote disk disk')
    (hnot : ∀ u, wrote u → disk'.goal u ≠ .ok l) :
    disk'.sight l = .file c ↔ disk.sight l = .file c :=
  Grows.sight_file_iff h fun _ ⟨u, hu, hgu⟩ => hnot u hu hgu

/-- What cannot be read at a path now could not be read at first, unless a path that was written leads
    there. -/
theorem Filled.read_ne (h : Filled wrote disk disk') (hread : disk'.read t ≠ .ok c)
    (hne : ∀ u, wrote u → ¬ u.Same t) : disk.read t ≠ .ok c ∨ Clashes wrote disk' t := by
  by_cases hclash : Clashes wrote disk' t
  · exact .inr hclash
  · refine .inl fun hfirst => hread ?_
    obtain ⟨l, hgoal, hs⟩ := read_eq_ok_iff.1 hfirst
    have hgoal' := Grows.goal h hgoal
    refine read_eq_ok_iff.2 ⟨l, hgoal', (h.sight_file_iff fun u hu hgu => ?_).2 hs⟩
    exact hclash ⟨u, l, hu, hne u hu, hgoal', hgu⟩

/-! ### Paths that are let through -/

/-- Whether a path that leads to a file on a later disk led to it before, if the file was there. -/
def Foresees (disk disk' : Disk) (p : Path) : Prop :=
  ∀ l c, disk'.goal p = .ok l → disk.sight l = .file c → disk.goal p = .ok l

/-- A walk that does not lead up can be made wherever something is seen at its end. -/
theorem walk_of_sight {see see' : Location → Sight} {steps : List Bytes} {start : Location}
    (hup : Path.upPiece ∉ steps) (h : steps.foldlM (walkStep see') start = .ok l)
    (habove : ∀ k, k <+: l → k ≠ l → see k = .directory) (hend : see l ≠ .nothing)
    (hleaf : see' l ≠ .directory) :
    start <+: l ∧ steps.foldlM (walkStep see) start = .ok l := by
  induction steps generalizing start with
  | nil => exact ⟨Except.ok.inj h ▸ List.prefix_refl _, h⟩
  | cons piece steps ih =>
    rw [List.mem_cons, not_or] at hup
    rw [List.foldlM_cons] at h ⊢
    cases hs : walkStep see' start piece with
    | error fault =>
      rw [hs] at h
      contradiction
    | ok next =>
      rw [hs] at h
      obtain ⟨hnext, hrest⟩ := ih hup.2 h
      obtain ⟨hdir, ⟨rfl, rfl⟩ | ⟨-, hp, -⟩ | ⟨hhere, -, hlen, -, rfl⟩⟩ := walkStep_eq_ok hs
      · have hne : next ≠ l := fun hl => hleaf (hl ▸ hdir)
        have hstep : walkStep see next Path.herePiece = .ok next := by
          simp [walkStep, habove next hnext hne]
        exact ⟨hnext, hstep ▸ hrest⟩
      · exact absurd hp.symm hup.1
      · have hstart := (List.prefix_append start [piece]).trans hnext
        have hne : start ≠ l := by
          rintro rfl
          exact absurd hnext.length_le (by simp)
        have hs' : see (start ++ [piece]) ≠ .nothing := by
          by_cases hl : start ++ [piece] = l
          · exact hl ▸ hend
          · simp [habove _ hnext hl]
        have hstep : walkStep see start piece = .ok (start ++ [piece]) := by
          simp [walkStep, habove start hstart hne, hhere, Ne.symm hup.1, Nat.not_lt.2 hlen, hs']
        exact ⟨hstart, hstep ▸ hrest⟩

theorem start_eq (h : disk'.here = disk.here) : disk'.start p = disk.start p := by
  rw [start, start, h]

/-- A path that does not lead up is not let through to a file that was there. -/
theorem Grows.foresees (h : Grows dirs files disk disk')
    (hup : Path.upPiece ∉ disk.start p ++ p.steps) : Foresees disk disk' p := by
  intro l c hgoal hs
  obtain ⟨hfault, hwalk⟩ := goal_eq_ok_iff.1 hgoal
  have hsteps : Path.upPiece ∉ disk.start p ++ stepsTo p := by
    rw [stepsTo, ← List.append_assoc]
    refine List.not_mem_append hup ?_
    split <;> decide
  have hleaf : disk'.sight l ≠ .directory := by
    rcases h.sight l with hl | ⟨hl, -⟩ | ⟨d, -, hl, -⟩
    · simp [hl, hs]
    · cases hl.symm.trans hs
    · simp [hl]
  rw [start_eq h.here, Disk.walk] at hwalk
  refine goal_eq_ok_iff.2 ⟨hfault, (walk_of_sight hsteps hwalk (fun k hk hne => ?_) ?_ hleaf).2⟩
  · obtain ⟨m, rfl⟩ := hk
    refine Dir.sight_of_append (m := m) ?_ fun hm => hne (by simp [hm])
    rw [← Disk.sight, hs]
    simp
  · simp [hs]

/-- What can be read at a path is as before if the file is, and was reached before. -/
theorem Grows.toOption_read (h : Grows dirs files disk disk') (hp : Foresees disk disk' p)
    (hfile : ∀ l c, disk'.goal p = .ok l → (disk'.sight l = .file c ↔ disk.sight l = .file c)) :
    (disk'.read p).toOption = (disk.read p).toOption := by
  refine Option.ext fun c => ?_
  rw [toOption_eq_some_iff, toOption_eq_some_iff, read_eq_ok_iff, read_eq_ok_iff]
  constructor
  · rintro ⟨l, hgoal, hs⟩
    have hs := (hfile l c hgoal).1 hs
    exact ⟨l, hp l c hgoal hs, hs⟩
  · rintro ⟨l, hgoal, hs⟩
    exact ⟨l, h.goal hgoal, (hfile l c (h.goal hgoal)).2 hs⟩

end ImportIndex.Disk
