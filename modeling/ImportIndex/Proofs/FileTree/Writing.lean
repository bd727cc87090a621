import ImportIndex.Proofs.FileTree.Sight

/-!
# What writing changes

Making directories and replacing files is seen at the locations it is done at, and nowhere else
(`Dir.sight_modify_insert`). So whatever a replacing write does, it turns nothing into directories
and puts its content where it is told, and the rest stays (`Disk.Grows`, `grows_writeIfChanged`).

* `read_of_writeIfChanged`: after a write that succeeds, the content is read back;
* `Grows.read_ofLocation`: a place where no file is put is read as before.
-/

namespace ImportIndex

/-- What is seen below a directory after a file or an empty directory was put into it. -/
theorem Dir.sight_modify_insert {d : Dir} {loc l : Location} {n : Bytes} {e : Entry}
    (hleaf : ∀ inner, e = .dir inner → inner = .empty) (hd : d.sight loc = .directory)
    (hold : d.sight (loc ++ [n]) ≠ .directory) :
    (d.modify (·.insert n e) loc).sight l = if l = loc ++ [n] then e.sight else d.sight l := by
  induction loc generalizing d l with
  | nil =>
    rw [modify, List.nil_append]
    cases l with
    | nil => simp
    | cons a l =>
      by_cases ha : n = a
      · subst ha
        rw [sight_cons, find?_insert_self]
        by_cases hl : l = []
        · subst hl
          cases e <;> simp [Entry.sight]
        · -- Below the new entry there is nothing, and there was nothing before.
          have hnothing : d.sight (n :: l) = .nothing :=
            Decidable.byContradiction fun hs => hold (sight_of_append (l := [n]) hs hl)
          have hempty : (Dir.empty).sight l = .nothing := by
            cases l with
            | nil => contradiction
            | cons b l => simp [sight_cons, find?]
          rw [hnothing, if_neg (by simpa using hl)]
          cases e with
          | file c => simp [hl]
          | dir inner => simp [hleaf inner rfl, hempty]
      · rw [sight_cons, find?_insert_of_ne ha, sight_cons,
          if_neg (by simpa using fun h => absurd h.symm ha)]
  | cons a loc ih =>
    rw [sight_cons] at hd
    rw [List.cons_append, sight_cons] at hold
    cases hf : d.find? a with
    | none => simp [hf] at hd
    | some f =>
      cases f with
      | file c =>
        rw [hf] at hd
        by_cases hloc : loc = [] <;> simp [hloc] at hd
      | dir inner =>
        rw [hf] at hd hold
        rw [modify, hf]
        cases l with
        | nil => simp
        | cons b l =>
          by_cases hb : a = b
          · subst hb
            rw [sight_cons, find?_insert_self, sight_cons, hf]
            simp [ih hd hold]
          · rw [sight_cons, find?_insert_of_ne hb, sight_cons,
              if_neg (by simpa using fun h => absurd h.symm hb)]

/-- How a disk may change when directories are made and files are put: directories in the place of
    nothing, and files in the place of nothing or of other files. -/
structure Disk.Grows (dirs : Location → Prop) (files : Location → Content → Prop)
    (disk disk' : Disk) : Prop where
  /-- The current directory stays. -/
  here : disk'.here = disk.here
  /-- The disk refuses the same. -/
  refuses : disk'.refuses = disk.refuses
  /-- What is seen stays, or it is a new directory or a new file. -/
  sight : ∀ l, disk'.sight l = disk.sight l ∨
    disk.sight l = .nothing ∧ disk'.sight l = .directory ∧ dirs l ∨
    ∃ content, disk.sight l ≠ .directory ∧ disk'.sight l = .file content ∧ files l content

namespace Disk

variable {disk disk' disk'' : Disk} {p : Path} {c : Content} {dirs dirs' : Location → Prop}
  {files files' : Location → Content → Prop} {l : Location} {n : Bytes}

namespace Grows

theorem refl : Grows dirs files disk disk := ⟨rfl, rfl, fun _ => .inl rfl⟩

theorem trans (h : Grows dirs files disk disk') (h' : Grows dirs files disk' disk'') :
    Grows dirs files disk disk'' := by
  refine ⟨h'.here.trans h.here, h'.refuses.trans h.refuses, fun l => ?_⟩
  rcases h.sight l with hl | ⟨hl, hl', hd⟩ | ⟨c, hl, hl', hf⟩
  · simpa [hl] using h'.sight l
  · rcases h'.sight l with hl'' | ⟨hl'', -⟩ | ⟨c, hl'', -⟩
    · exact .inr (.inl ⟨hl, hl''.trans hl', hd⟩)
    · simp [hl'] at hl''
    · exact absurd hl' hl''
  · rcases h'.sight l with hl'' | ⟨hl'', -⟩ | ⟨c', -, hl'', hf'⟩
    · exact .inr (.inr ⟨c, hl, hl''.trans hl', hf⟩)
    · simp [hl'] at hl''
    · exact .inr (.inr ⟨c', hl, hl'', hf'⟩)

theorem mono (h : Grows dirs files disk disk') (hd : ∀ l, dirs l → dirs' l)
    (hf : ∀ l c, files l c → files' l c) : Grows dirs' files' disk disk' := by
  refine ⟨h.here, h.refuses, fun l => ?_⟩
  rcases h.sight l with hl | ⟨hl, hl', hd'⟩ | ⟨c, hl, hl', hf'⟩
  · exact .inl hl
  · exact .inr (.inl ⟨hl, hl', hd l hd'⟩)
  · exact .inr (.inr ⟨c, hl, hl', hf l c hf'⟩)

theorem sight_directory (h : Grows dirs files disk disk') (hl : disk.sight l = .directory) :
    disk'.sight l = .directory := by
  rcases h.sight l with hs | ⟨hs, -⟩ | ⟨c, hs, -⟩
  · rw [hs, hl]
  · simp [hl] at hs
  · exact absurd hl hs

theorem sight_ne_nothing (h : Grows dirs files disk disk') (hl : disk.sight l ≠ .nothing) :
    disk'.sight l ≠ .nothing := by
  rcases h.sight l with hs | ⟨hs, -⟩ | ⟨c, -, hs, -⟩
  · rwa [hs]
  · exact absurd hs hl
  · simp [hs]

/-- Where no file is put, none appears. -/
theorem sight_ne_file (h : Grows dirs files disk disk') (hf : ∀ c, ¬ files l c)
    (hl : ∀ c, disk.sight l ≠ .file c) : disk'.sight l ≠ .file c := by
  intro hc
  rcases h.sight l with hs | ⟨-, hs, -⟩ | ⟨c', -, -, hput⟩
  · exact hl c (hs ▸ hc)
  · simp [hs] at hc
  · exact hf c' hput

theorem walk (h : Grows dirs files disk disk') {steps : List Bytes} (hw : disk.walk steps = .ok l) :
    disk'.walk steps = .ok l :=
  walk_mono (fun _ => h.sight_directory) (fun _ => h.sight_ne_nothing) hw

theorem goal (h : Grows dirs files disk disk') (hg : disk.goal p = .ok l) : disk'.goal p = .ok l := by
  obtain ⟨hfault, hw⟩ := goal_eq_ok_iff.1 hg
  refine goal_eq_ok_iff.2 ⟨hfault, ?_⟩
  rw [start, h.here]
  exact h.walk hw

/-- What was a file stays one. -/
theorem isFile (h : Grows dirs files disk disk') (hf : disk.isFile p = true) : disk'.isFile p = true := by
  rw [isFile_eq_isSome_read, Option.isSome_iff_exists] at hf ⊢
  obtain ⟨c, hc⟩ := hf
  obtain ⟨l, hgoal, hs⟩ := read_eq_ok_iff.1 (toOption_eq_some_iff.1 hc)
  have hstays : ∃ c, disk'.sight l = .file c := by
    rcases h.sight l with hl | ⟨hl, -⟩ | ⟨c', -, hl, -⟩
    · exact ⟨c, hl.trans hs⟩
    · cases hl.symm.trans hs
    · exact ⟨c', hl⟩
  obtain ⟨c', hs'⟩ := hstays
  exact ⟨c', toOption_eq_some_iff.2 (read_eq_ok_iff.2 ⟨l, h.goal hgoal, hs'⟩)⟩

/-- A place where no file is put is read as before. -/
theorem read_ofLocation (h : Grows dirs files disk disk') (hl : ∀ n ∈ l, IsName n)
    (hf : ∀ c, ¬ files l c) :
    (disk'.read (Path.ofLocation l)).toOption = (disk.read (Path.ofLocation l)).toOption := by
  refine Option.ext fun c => ?_
  rw [toOption_eq_some_iff, toOption_eq_some_iff, read_ofLocation_eq_ok_iff hl,
    read_ofLocation_eq_ok_iff hl]
  refine and_congr_right fun _ => ?_
  rcases h.sight l with hs | ⟨hs, hs', -⟩ | ⟨c', -, -, hc'⟩
  · rw [hs]
  · simp [hs, hs']
  · exact absurd hc' (hf c')

end Grows

/-! ### Single steps -/

section

variable {α β : Type}

theorem run_bind (x : DiskM α) (f : α → DiskM β) : (x >>= f) disk =
    match x disk with
    | (.ok a, disk) => f a disk
    | (.error fault, disk) => (.error fault, disk) := by
  change (ExceptT.bindCont f (x disk).1) (x disk).2 = _
  rcases x disk with ⟨_ | a, disk⟩ <;> rfl

@[simp] theorem run_get : (get : DiskM Disk) disk = (.ok disk, disk) := rfl

@[simp] theorem run_lift (x : Except IoFault α) : (liftM x : DiskM α) disk = (x, disk) := rfl

@[simp] theorem run_throw (fault : IoFault) : (throw fault : DiskM α) disk = (.error fault, disk) :=
  rfl

@[simp] theorem run_pure (a : α) : (pure a : DiskM α) disk = (.ok a, disk) := rfl

@[simp] theorem run_modify (f : Dir → Dir) : (modify f l : DiskM Unit) disk =
    (.ok (), { disk with top := disk.top.modify f l }) := rfl

end

/-- What a path points at, if it is an entry of a directory. -/
theorem aim_eq_entry {dir : Location} {slash : Bool} (h : disk.aim p = .ok (.entry dir n slash)) :
    p.fault? = none ∧ slash = p.endsInSeparator ∧ n ≠ Path.herePiece ∧ n ≠ Path.upPiece ∧
      disk.sight dir = .directory ∧
      ∃ init, p.steps = init ++ [n] ∧ disk.walk (disk.start p ++ init) = .ok dir := by
  rw [aim] at h
  split at h
  · contradiction
  · cases h
  · next hfault hlast =>
    obtain ⟨init, hinit⟩ := List.getLast?_eq_some_iff.1 hlast
    rw [hinit, List.dropLast_concat] at h
    split at h
    · contradiction
    · next trail htrail =>
      split at h
      · cases h
      · next hpiece =>
        obtain ⟨rfl, rfl, rfl⟩ : trail.location = dir ∧ _ = n ∧ _ = slash := by simpa using h
        have hwalk := @map_location_follow disk (disk.start p ++ init ++ [Path.herePiece])
        rw [htrail, walk, List.foldlM_append] at hwalk
        cases hw : (disk.start p ++ init).foldlM (walkStep disk.sight) [] with
        | error fault =>
          rw [hw] at hwalk
          contradiction
        | ok loc =>
          rw [hw] at hwalk
          replace hwalk : walkStep disk.sight loc Path.herePiece = .ok trail.location := by
            rw [← bind_pure (walkStep disk.sight loc Path.herePiece)]
            exact hwalk.symm
          obtain ⟨hdir, ⟨-, hloc⟩ | ⟨hp, -⟩ | ⟨hp, -⟩⟩ := walkStep_eq_ok hwalk
          · exact ⟨hfault, rfl, fun hp => hpiece (.inl hp), fun hp => hpiece (.inr hp),
              hloc ▸ hdir, init, hinit, hloc ▸ hw⟩
          · exact absurd rfl hp
          · exact absurd rfl hp

theorem child_eq_none (h : disk.child l n = .ok none) :
    n.length ≤ maxName ∧ disk.sight (l ++ [n]) = .nothing := by
  rw [child] at h
  split at h
  · contradiction
  · next hlen => exact ⟨Nat.le_of_not_lt hlen, by simp [sight, Dir.sight, Except.ok.inj h]⟩

/-- Puts an entry into the directory at a location. -/
theorem grows_insert {e : Entry} (hleaf : ∀ inner, e = .dir inner → inner = .empty)
    (hd : disk.sight l = .directory) (hold : disk.sight (l ++ [n]) ≠ .directory)
    (hdirs : ∀ inner, e = .dir inner → disk.sight (l ++ [n]) = .nothing ∧ dirs (l ++ [n]))
    (hfiles : ∀ c, e = .file c → files (l ++ [n]) c) :
    Grows dirs files disk { disk with top := disk.top.modify (·.insert n e) l } := by
  refine ⟨rfl, rfl, fun k => ?_⟩
  have hs : sight { disk with top := disk.top.modify (·.insert n e) l } k =
      if k = l ++ [n] then e.sight else disk.sight k := Dir.sight_modify_insert hleaf hd hold
  rw [hs]
  split
  · next hk =>
    subst hk
    cases e with
    | dir inner =>
      obtain ⟨hn, hd⟩ := hdirs inner rfl
      exact .inr (.inl ⟨hn, rfl, hd⟩)
    | file c => exact .inr (.inr ⟨c, hold, rfl, hfiles c rfl⟩)
  · exact .inl rfl

/-- Whether what is made at paths of some kind, which lead on to their parents, is at such
    locations. -/
structure Lands (paths : Path → Prop) (dirs : Location → Prop) : Prop where
  /-- What is made at a path. -/
  here : ∀ p disk dir n slash, paths p → aim disk p = .ok (.entry dir n slash) → dirs (dir ++ [n])
  /-- The parent of a path is of the kind. -/
  above : ∀ p parent, paths p → p.parent? = some parent → paths parent

theorem makeDir_eq : makeDir p disk =
    match disk.aim p with
    | .error fault => (.error fault, disk)
    | .ok (.entry dir name _) =>
      match disk.child dir name with
      | .error fault => (.error fault, disk)
      | .ok (some _) => (.error .alreadyExists, disk)
      | .ok none => (.ok (), { disk with top := disk.top.modify (·.insert name (.dir .empty)) dir })
    | .ok _ => (.error .alreadyExists, disk) := by
  rw [makeDir, run_bind, run_get]
  simp only [run_bind, run_lift]
  rcases disk.aim p with fault | top | piece | ⟨dir, name, slash⟩
  · rfl
  · rfl
  · rfl
  · simp only [run_bind, run_get, run_lift]
    rcases disk.child dir name with fault | _ | e <;> rfl

theorem grows_makeDir {paths : Path → Prop} (h : Lands paths dirs) (hp : paths p) :
    Grows dirs files disk (makeDir p disk).2 := by
  rw [makeDir_eq]
  split
  · exact .refl
  · next dir n slash haim =>
    obtain ⟨-, -, -, -, hdir, -⟩ := aim_eq_entry haim
    split
    · exact .refl
    · exact .refl
    · next hchild =>
      have hnone := (child_eq_none hchild).2
      exact grows_insert (by simp) hdir (by simp [hnone])
        (fun _ _ => ⟨hnone, h.here _ _ _ _ _ hp haim⟩) (by simp)
  · exact .refl

theorem makeDirsWithin_succ (m : Nat) : makeDirsWithin (m + 1) p disk =
    if p.bytes.isEmpty then (.ok (), disk)
    else match makeDir p disk with
      | (.ok (), disk) => (.ok (), disk)
      | (.error fault, _) =>
        if fault = .notFound then
          match p.parent? with
          | none => (.error .notFound, disk)
          | some parent =>
            match makeDirsWithin m parent disk with
            | (.error fault, disk) => (.error fault, disk)
            | (.ok (), disk) =>
              match makeDir p disk with
              | (.ok (), disk) => (.ok (), disk)
              | (.error fault, _) =>
                if disk.isDir p then (.ok (), disk) else (.error fault, disk)
        else if disk.isDir p then (.ok (), disk) else (.error fault, disk) := by
  rw [makeDirsWithin]
  split
  · rfl
  · rw [run_bind, run_get]
    simp only
    rcases makeDir p disk with ⟨fault | ⟨⟩, made⟩
    · by_cases hf : fault = .notFound
      · subst hf
        simp only [if_true]
        cases p.parent? with
        | none => rfl
        | some parent =>
          simp only [run_bind]
          rcases makeDirsWithin m parent disk with ⟨fault | ⟨⟩, disk⟩
          · rfl
          · simp only [run_get]
            rcases makeDir p disk with ⟨fault | ⟨⟩, made⟩
            · simp only [run_bind, run_get]
              cases disk.isDir p <;> rfl
            · rfl
      · simp only [if_neg hf]
        cases fault <;> first
          | exact absurd rfl hf
          | simp only [run_bind, run_get]
            cases disk.isDir p <;> rfl
    · rfl

theorem grows_makeDirsWithin {paths : Path → Prop} (h : Lands paths dirs) {m : Nat} (hp : paths p) :
    Grows dirs files disk (makeDirsWithin m p disk).2 := by
  induction m generalizing p disk with
  | zero => exact .refl
  | succ m ih =>
    have hmake : Grows dirs files disk (makeDir p disk).2 := grows_makeDir h hp
    rw [makeDirsWithin_succ]
    split
    · exact .refl
    · split
      · next heq => simpa [heq] using hmake
      · split
        · split
          · exact .refl
          · next hparent =>
            have hdirs : Grows dirs files disk _ := ih (h.above _ _ hp hparent)
            split
            · next heq => simpa [heq] using hdirs
            · next made heq =>
              rw [heq] at hdirs
              refine hdirs.trans ?_
              have hagain : Grows dirs files made (makeDir p made).2 := grows_makeDir h hp
              split
              · next heq' => simpa [heq'] using hagain
              · split <;> exact .refl
        · split <;> exact .refl

/-! ### Replacing writes -/

theorem replace_eq : replace p c disk =
    match disk.aim p with
    | .error fault => (.error fault, disk)
    | .ok (.entry dir name slash) =>
      match disk.child dir name with
      | .error fault => (.error fault, disk)
      | .ok (some (.dir _)) => (.error (if slash then .notADirectory else .isADirectory), disk)
      | .ok _ =>
        if slash then (.error .notADirectory, disk)
        else (.ok (), { disk with top := disk.top.modify (·.insert name (.file c)) dir })
    | .ok _ => (.error .busy, disk) := by
  rw [replace, run_bind, run_get]
  simp only [run_bind, run_lift]
  rcases disk.aim p with fault | top | piece | ⟨dir, name, slash⟩
  · rfl
  · rfl
  · rfl
  · simp only [run_bind, run_get, run_lift]
    rcases disk.child dir name with fault | _ | e | e
    · rfl
    · cases slash <;> rfl
    · cases slash <;> rfl
    · rfl

/-- What there is before the last step of a write that succeeds, and what the step does. -/
theorem replace_eq_ok (h : replace p c disk = (.ok (), disk')) :
    ∃ dir n, disk.aim p = .ok (.entry dir n false) ∧ n.length ≤ maxName ∧
      disk.sight (dir ++ [n]) ≠ .directory ∧
      disk' = { disk with top := disk.top.modify (·.insert n (.file c)) dir } := by
  rw [replace_eq] at h
  split at h
  · cases h
  · next dir n slash haim =>
    have hchild : ∀ e, disk.child dir n = .ok e →
        n.length ≤ maxName ∧ disk.sight (dir ++ [n]) = (e.map Entry.sight).getD .nothing := by
      intro e he
      rw [child] at he
      split at he
      · contradiction
      · next hlen => exact ⟨Nat.le_of_not_lt hlen, by simp [sight, Dir.sight, Except.ok.inj he]⟩
    split at h
    · cases h
    · cases h
    · next e hne he =>
      cases slash with
      | true => cases h
      | false =>
        obtain ⟨hlen, hs⟩ := hchild e he
        refine ⟨dir, n, haim, hlen, ?_, (Prod.mk.inj h).2.symm⟩
        rw [hs]
        rcases e with _ | e | inner
        · simp
        · simp [Entry.sight]
        · exact absurd rfl (hne inner)
  · cases h

theorem replace_eq_error {fault : IoFault} (h : replace p c disk = (.error fault, disk')) :
    disk' = disk := by
  rw [replace_eq] at h
  split at h
  · exact (Prod.mk.inj h).2.symm
  · split at h
    · exact (Prod.mk.inj h).2.symm
    · exact (Prod.mk.inj h).2.symm
    · split at h
      · exact (Prod.mk.inj h).2.symm
      · cases h
  · exact (Prod.mk.inj h).2.symm

theorem run_permit (step : WriteStep) : permit p step disk =
    (match disk.refuses p step with
      | some fault => .error fault
      | none => .ok (), disk) := by
  rw [permit, run_bind, run_get]
  simp only
  cases disk.refuses p step <;> rfl

theorem makeDirs_eq : makeDirs p disk = makeDirsWithin (p.bytes.length + 1) p disk := rfl

/-- What a write does once it is known that its content is not there. -/
def writeAnew (p : Path) (c : Content) : DiskM Bool := do
  permit p .makeParents
  makeDirs (parentDir p)
  permit p .stage
  permit p .fill
  permit p .replace
  replace p c
  return true

theorem writeIfChanged_eq : writeIfChanged p c disk =
    match disk.refuses p .compare with
    | some fault => (.error fault, disk)
    | none =>
      match disk.read p with
      | .ok old => if old = c then (.ok false, disk) else writeAnew p c disk
      | .error fault => if fault = .notFound then writeAnew p c disk else (.error fault, disk) := by
  rw [writeIfChanged, run_bind, run_permit]
  cases disk.refuses p .compare with
  | some fault => rfl
  | none =>
    simp only [run_bind, run_get]
    cases disk.read p with
    | ok old =>
      by_cases hold : old = c
      · simp only [if_pos hold]
        rfl
      · simp only [if_neg hold]
        rfl
    | error fault =>
      by_cases hf : fault = .notFound
      · subst hf
        simp only [if_true]
        rfl
      · simp only [if_neg hf]
        cases fault <;> first | exact absurd rfl hf | rfl

/-- What a write did that was needed: something before its last step failed, or all was done. -/
theorem writeAnew_cases {paths : Path → Prop} (hlands : Lands paths dirs)
    (hp : paths (parentDir p)) {r : Except IoFault Bool} (h : writeAnew p c disk = (r, disk')) :
    (∃ fault, r = .error fault ∧ Grows dirs (fun _ _ => False) disk disk') ∨
      ∃ made, r = .ok true ∧ Grows dirs (fun _ _ => False) disk made ∧
        replace p c made = (.ok (), disk') := by
  rw [writeAnew, run_bind, run_permit] at h
  cases hparents : disk.refuses p .makeParents with
  | some fault =>
    simp only [hparents] at h
    obtain ⟨rfl, rfl⟩ := Prod.mk.inj h
    exact .inl ⟨fault, rfl, .refl⟩
  | none =>
    simp only [hparents, run_bind] at h
    have hmade : Grows dirs (fun _ _ => False) disk (makeDirs (parentDir p) disk).2 :=
      makeDirs_eq ▸ grows_makeDirsWithin hlands hp
    rcases hd : makeDirs (parentDir p) disk with ⟨fault | ⟨⟩, made⟩
    · rw [hd] at h hmade
      obtain ⟨rfl, rfl⟩ := Prod.mk.inj h
      exact .inl ⟨fault, rfl, hmade⟩
    · rw [hd] at h hmade
      simp only [run_permit] at h
      rcases hstage : made.refuses p .stage with _ | fault
      · rcases hfill : made.refuses p .fill with _ | fault
        · rcases hreplace : made.refuses p .replace with _ | fault
          · simp only [hstage, hfill, hreplace] at h
            rcases hr : replace p c made with ⟨fault | ⟨⟩, replaced⟩
            · rw [hr] at h
              obtain ⟨rfl, rfl⟩ := Prod.mk.inj h
              exact .inl ⟨fault, rfl, replace_eq_error hr ▸ hmade⟩
            · rw [hr] at h
              obtain ⟨rfl, rfl⟩ := Prod.mk.inj h
              exact .inr ⟨made, rfl, hmade, hr⟩
          · simp only [hstage, hfill, hreplace] at h
            obtain ⟨rfl, rfl⟩ := Prod.mk.inj h
            exact .inl ⟨fault, rfl, hmade⟩
        · simp only [hstage, hfill] at h
          obtain ⟨rfl, rfl⟩ := Prod.mk.inj h
          exact .inl ⟨fault, rfl, hmade⟩
      · simp only [hstage] at h
        obtain ⟨rfl, rfl⟩ := Prod.mk.inj h
        exact .inl ⟨fault, rfl, hmade⟩

/-- What a write did: nothing as its content was there already, or something before its last step
    failed, or all was done. -/
theorem writeIfChanged_cases {paths : Path → Prop} (hlands : Lands paths dirs)
    (hp : paths (parentDir p)) {r : Except IoFault Bool} (h : writeIfChanged p c disk = (r, disk')) :
    (r = .ok false ∧ disk.read p = .ok c ∧ disk' = disk) ∨
      (∃ fault, r = .error fault ∧ Grows dirs (fun _ _ => False) disk disk') ∨
      ∃ made, r = .ok true ∧ Grows dirs (fun _ _ => False) disk made ∧
        replace p c made = (.ok (), disk') := by
  rw [writeIfChanged_eq] at h
  split at h
  · next fault _ =>
    obtain ⟨rfl, rfl⟩ := Prod.mk.inj h
    exact .inr (.inl ⟨fault, rfl, .refl⟩)
  · split at h
    · next old hread =>
      split at h
      · next hold =>
        obtain ⟨rfl, rfl⟩ := Prod.mk.inj h
        exact .inl ⟨rfl, hold ▸ hread, rfl⟩
      · exact .inr (writeAnew_cases hlands hp h)
    · next fault _ =>
      split at h
      · exact .inr (writeAnew_cases hlands hp h)
      · obtain ⟨rfl, rfl⟩ := Prod.mk.inj h
        exact .inr (.inl ⟨fault, rfl, .refl⟩)

/-- Every path is of some kind. -/
theorem lands_true : Lands (fun _ => True) fun _ => True := ⟨fun _ _ _ _ _ _ _ => trivial,
  fun _ _ _ _ => trivial⟩

/-- The last step of a write puts its content where the path points at, and the path leads there. -/
theorem goal_of_replace (h : replace p c disk = (.ok (), disk')) :
    ∃ dir n, disk.aim p = .ok (.entry dir n false) ∧
      Grows dirs (fun l d => l = dir ++ [n] ∧ d = c) disk disk' ∧
      disk'.goal p = .ok (dir ++ [n]) ∧ disk'.sight (dir ++ [n]) = .file c := by
  obtain ⟨dir, n, haim, hlen, hold, rfl⟩ := replace_eq_ok h
  obtain ⟨hfault, hslash, hhere, hup, hdir, init, hsteps, hwalk⟩ := aim_eq_entry haim
  have hgrows : Grows dirs (fun l d => l = dir ++ [n] ∧ d = c) disk
      { disk with top := disk.top.modify (·.insert n (.file c)) dir } :=
    grows_insert (by simp) hdir hold (by simp) (by simp)
  have hs : Disk.sight { disk with top := disk.top.modify (·.insert n (.file c)) dir }
      (dir ++ [n]) = .file c := by
    rw [sight, Dir.sight_modify_insert (by simp) hdir hold, if_pos rfl, Entry.sight]
  refine ⟨dir, n, haim, hgrows, goal_eq_ok_iff.2 ⟨hfault, ?_⟩, hs⟩
  have hwalk' := hgrows.walk hwalk
  rw [walk] at hwalk' ⊢
  rw [stepsTo, ← hslash, hsteps]
  simp only [Bool.false_eq_true, if_false, List.append_nil]
  change List.foldlM _ [] (disk.start p ++ (init ++ [n])) = _
  rw [← List.append_assoc, List.foldlM_append, hwalk']
  simp only [bind, Except.bind, List.foldlM_cons, List.foldlM_nil]
  rw [walkStep, hgrows.sight_directory hdir]
  simp [hhere, hup, Nat.not_lt.2 hlen, hs, pure, Except.pure]

/-- The last step of a write puts its content where the path leads to then. -/
theorem grows_replace (h : replace p c disk = (.ok (), disk')) (hfiles : ∀ dir n,
    disk.aim p = .ok (.entry dir n false) → files (dir ++ [n]) c) :
    Grows dirs files disk disk' ∧ disk'.read p = .ok c := by
  obtain ⟨dir, n, haim, hgrows, hgoal, hs⟩ := goal_of_replace h
  refine ⟨hgrows.mono (fun _ h => h) fun l d hl => ?_, read_eq_ok_iff.2 ⟨_, hgoal, hs⟩⟩
  obtain ⟨rfl, rfl⟩ := hl
  exact hfiles dir n haim

/-- After a write that succeeds, the content is read back. -/
theorem read_of_writeIfChanged {written : Bool}
    (h : writeIfChanged p c disk = (.ok written, disk')) : disk'.read p = .ok c := by
  rcases writeIfChanged_cases lands_true trivial h with
    ⟨-, hread, rfl⟩ | ⟨fault, hr, -⟩ | ⟨made, -, -, hreplace⟩
  · exact hread
  · contradiction
  · have hgrows : Grows (fun _ => True) (fun _ _ => True) made disk' ∧ disk'.read p = .ok c :=
      grows_replace hreplace fun _ _ _ => trivial
    exact hgrows.2

/-- Whatever comes of a write, directories are made and a file is put where it is told. -/
theorem grows_writeIfChanged {paths : Path → Prop} (hlands : Lands paths dirs)
    (hp : paths (parentDir p)) (hfiles : ∀ made dir n,
      aim made p = .ok (.entry dir n false) → files (dir ++ [n]) c) :
    Grows dirs files disk (writeIfChanged p c disk).2 := by
  generalize h : writeIfChanged p c disk = result
  obtain ⟨r, disk'⟩ := result
  rcases writeIfChanged_cases hlands hp h with
    ⟨-, -, rfl⟩ | ⟨fault, -, hgrows⟩ | ⟨made, -, hgrows, hreplace⟩
  · exact .refl
  · exact hgrows.mono (fun _ h => h) fun _ _ h => h.elim
  · exact (hgrows.mono (fun _ h => h) fun _ _ h => h.elim).trans
      (grows_replace hreplace (hfiles made)).1

/-- What was written is not written again. -/
theorem writeIfChanged_again {written : Bool} (h : writeIfChanged p c disk = (.ok written, disk')) :
    writeIfChanged p c disk' = (.ok false, disk') := by
  have hgrows : Grows (fun _ => True) (fun _ _ => True) disk (writeIfChanged p c disk).2 :=
    grows_writeIfChanged lands_true trivial fun _ _ _ _ => trivial
  rw [h] at hgrows
  rw [writeIfChanged_eq, hgrows.refuses, read_of_writeIfChanged h]
  rw [writeIfChanged_eq] at h
  cases hrefuses : disk.refuses p .compare with
  | none => simp only [if_true]
  | some fault =>
    rw [hrefuses] at h
    cases (Prod.mk.inj h).1

/-- The disks that writing targets leads to. -/
inductive Rewritten (targets : Path → Prop) (disk : Disk) : Disk → Prop
  | start : Rewritten targets disk disk
  | write {disk' target} (h : Rewritten targets disk disk') (ht : targets target)
      (content : Content) : Rewritten targets disk (writeIfChanged target content disk').2

/-- What was a file stays one. -/
theorem Rewritten.isFile {targets : Path → Prop} (h : disk.Rewritten targets disk')
    (hf : disk.isFile p = true) : disk'.isFile p = true := by
  induction h with
  | start => exact hf
  | @write before target _ _ c ih =>
    have hgrows : Grows (fun _ => True) (fun _ _ => True) before (writeIfChanged target c before).2 :=
      grows_writeIfChanged lands_true trivial fun _ _ _ _ => trivial
    exact hgrows.isFile ih

theorem Rewritten.mono {targets targets' : Path → Prop} (h : disk.Rewritten targets disk')
    (ht : ∀ t, targets t → targets' t) : disk.Rewritten targets' disk' := by
  induction h with
  | start => exact .start
  | write _ hw c ih => exact ih.write (ht _ hw) c

theorem Rewritten.trans {targets : Path → Prop} (h : disk.Rewritten targets disk')
    (h' : disk'.Rewritten targets disk'') : disk.Rewritten targets disk'' := by
  induction h' with
  | start => exact h
  | write _ hw c ih => exact ih.write hw c

end Disk

end ImportIndex
