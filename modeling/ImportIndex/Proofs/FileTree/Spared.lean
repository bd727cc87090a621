import ImportIndex.Proofs.FileTree.Removal

/-!
# Writing after files were taken away

A place is *spared* if neither it nor anything that it is in was taken away. A write to such a place does
the same, whether the other files are there or not (`Pruned.writeIfChanged`).
-/

namespace ImportIndex.Disk

variable {disk disk' : Disk} {l m : Location} {n : Bytes} {c : Content} {p : Path}
  {gone changed : Location → Prop}

/-! ### What is read -/

/-- What a path is read as depends on where it leads to and on what is seen there. -/
theorem read_congr (hgoal : disk'.goal p = disk.goal p)
    (hs : ∀ l, disk.goal p = .ok l → disk'.sight l = disk.sight l) : disk'.read p = disk.read p := by
  have hentry : (disk'.entry p).map Entry.sight = (disk.entry p).map Entry.sight := by
    rw [map_sight_entry, map_sight_entry, hgoal]
    cases hl : disk.goal p with
    | error fault => rfl
    | ok l => exact congrArg Except.ok (hs l hl)
  rw [read, read]
  rcases h' : disk'.entry p with fault' | c' | inner' <;>
    rcases h : disk.entry p with fault | c | inner <;>
    simp_all [Except.map, Entry.sight]

/-- What a path points at depends on where the directory is that it is in. -/
theorem aim_congr (hstart : disk'.start p = disk.start p)
    (hwalk : disk'.walk (disk.start p ++ p.steps.dropLast ++ [Path.herePiece]) =
      disk.walk (disk.start p ++ p.steps.dropLast ++ [Path.herePiece])) : disk'.aim p = disk.aim p := by
  rw [← map_location_follow, ← map_location_follow] at hwalk
  rw [aim, aim, hstart]
  cases p.fault? with
  | some fault => rfl
  | none =>
    cases p.steps.getLast? with
    | none => rfl
    | some last =>
      simp only
      rcases h' : disk'.follow (disk.start p ++ p.steps.dropLast ++ [Path.herePiece]) with fault' | trail' <;>
        rcases h : disk.follow (disk.start p ++ p.steps.dropLast ++ [Path.herePiece]) with fault | trail <;>
        simp_all [Except.map]

namespace Pruned

variable (h : Pruned gone changed disk disk')

include h

/-- A walk along names is the same if nothing on the way was taken away. -/
theorem foldlM_walkStep_eq {start : Location} (hl : ∀ n ∈ l, IsName n)
    (hspared : ∀ k, k <+: l → ¬ gone (start ++ k)) :
    l.foldlM (walkStep disk'.sight) start = l.foldlM (walkStep disk.sight) start := by
  induction l generalizing start with
  | nil => rfl
  | cons n l ih =>
    have hn := hl n List.mem_cons_self
    have hchild : disk'.sight (start ++ [n]) = .nothing ↔ disk.sight (start ++ [n]) = .nothing :=
      h.sight_nothing_iff.trans (or_iff_left (hspared [n] ⟨l, rfl⟩))
    have hhere : ¬ gone start := by simpa using hspared [] List.nil_prefix
    have hstep : walkStep disk'.sight start n = walkStep disk.sight start n := by
      rcases h.sight start with ⟨hs, -⟩ | ⟨-, -, hgone⟩ | ⟨⟨c, hs⟩, ⟨c', hs'⟩, -⟩
      · simp only [walkStep, hs, hchild]
      · exact absurd hgone hhere
      · simp only [walkStep, hs, hs']
    rw [List.foldlM_cons, List.foldlM_cons, hstep]
    cases hs : walkStep disk.sight start n with
    | error fault => rfl
    | ok next =>
      obtain rfl : next = start ++ [n] := by
        rcases (walkStep_eq_ok hs).2 with ⟨hp, -⟩ | ⟨-, hp, -⟩ | ⟨-, -, -, -, rfl⟩
        · exact absurd hp hn.2.2.1
        · exact absurd hp hn.2.2.2
        · rfl
      refine ih (fun m hm => hl m (List.mem_cons_of_mem _ hm)) fun k hk => ?_
      rw [List.append_assoc]
      exact hspared (n :: k) (List.cons_prefix_cons.2 ⟨rfl, hk⟩)

variable (hl : ∀ n ∈ l, IsName n) (hspared : ∀ k, k <+: l → ¬ gone k)

include hl hspared

theorem walk_eq : disk'.walk l = disk.walk l := by
  exact h.foldlM_walkStep_eq hl hspared

theorem goal_eq : disk'.goal (Path.ofLocation l) = disk.goal (Path.ofLocation l) := by
  by_cases hne : l = []
  · rw [hne, goal_ofLocation_nil, goal_ofLocation_nil]
  · rw [goal, goal, start_ofLocation, start_ofLocation, stepsTo_ofLocation hl hne, List.nil_append,
      h.walk_eq hl hspared]

/-- A place that was spared is read as before, unless it was rewritten. -/
theorem read_eq (hchanged : ¬ changed l) :
    disk'.read (Path.ofLocation l) = disk.read (Path.ofLocation l) := by
  refine read_congr (h.goal_eq hl hspared) fun m hm => ?_
  obtain rfl := goal_ofLocation hl hm
  exact h.sight_eq (hspared _ List.prefix_rfl) hchanged

theorem isDir_eq : disk'.isDir (Path.ofLocation l) = disk.isDir (Path.ofLocation l) := by
  refine Bool.eq_iff_iff.2 ?_
  rw [isDir_iff, isDir_iff, h.goal_eq hl hspared]
  exact exists_congr fun m => and_congr_right fun _ => h.sight_directory_iff

/-- A place that was spared points where it pointed. -/
theorem aim_eq : disk'.aim (Path.ofLocation l) = disk.aim (Path.ofLocation l) := by
  refine aim_congr (by rw [start_ofLocation, start_ofLocation]) ?_
  have hinit : l.dropLast <+: l := List.dropLast_prefix l
  have hwalk := h.walk_eq (fun n hn => hl n (hinit.subset hn)) fun k hk => hspared k (hk.trans hinit)
  rw [Path.steps_ofLocation hl, start_ofLocation, List.nil_append, walk, walk, List.foldlM_append,
    List.foldlM_append, ← walk, ← walk, hwalk]
  cases hm : disk.walk l.dropLast with
  | error fault => rfl
  | ok m =>
    obtain ⟨rfl, -⟩ := eq_append_of_walk (fun n hn => hl n (hinit.subset hn)) hm
    have hstep : walkStep disk'.sight ([] ++ l.dropLast) Path.herePiece =
        walkStep disk.sight ([] ++ l.dropLast) Path.herePiece := by
      rw [List.nil_append]
      rcases h.sight l.dropLast with ⟨hs, -⟩ | ⟨-, -, hgone⟩ | ⟨⟨c, hs⟩, ⟨c', hs'⟩, -⟩
      · simp only [walkStep, hs, if_true]
      · exact absurd hgone (hspared _ hinit)
      · simp only [walkStep, hs, hs']
    change (walkStep disk'.sight ([] ++ l.dropLast) Path.herePiece >>= _) =
      (walkStep disk.sight ([] ++ l.dropLast) Path.herePiece >>= _)
    rw [hstep]
    rfl

omit hl hspared in
/-- What was not taken away is an entry of the same kind. -/
theorem get?_cases (hg : ¬ gone l) :
    disk'.top.get? l = none ∧ disk.top.get? l = none ∨
      (∃ inner inner', disk'.top.get? l = some (.dir inner') ∧ disk.top.get? l = some (.dir inner)) ∨
      ∃ c c', disk'.top.get? l = some (.file c') ∧ disk.top.get? l = some (.file c) := by
  have hdir := h.sight_directory_iff (l := l)
  have hnone := (h.sight_nothing_iff (l := l)).trans (or_iff_left hg)
  rw [Disk.sight, Disk.sight, Dir.sight, Dir.sight] at hdir hnone
  revert hdir hnone
  rcases disk'.top.get? l with _ | c' | inner' <;> rcases disk.top.get? l with _ | c | inner <;>
    simp [Entry.sight]

omit hl hspared in
/-- The same entry is put where nothing was taken away. -/
theorem insert {e : Entry} (hleaf : ∀ inner, e = .dir inner → inner = .empty)
    (hd : disk.sight l = .directory) (hold : disk.sight (l ++ [n]) ≠ .directory)
    (hg : ¬ gone (l ++ [n])) :
    Pruned gone changed { disk with top := disk.top.modify (fun d => d.insert n e) l }
      { disk' with top := disk'.top.modify (fun d => d.insert n e) l } := by
  refine ⟨h.here, h.refuses, fun k => ?_⟩
  have hs : Disk.sight { disk with top := disk.top.modify (·.insert n e) l } k =
      if k = l ++ [n] then e.sight else disk.sight k := Dir.sight_modify_insert hleaf hd hold
  have hs' : Disk.sight { disk' with top := disk'.top.modify (·.insert n e) l } k =
      if k = l ++ [n] then e.sight else disk'.sight k :=
    Dir.sight_modify_insert hleaf (h.sight_directory_iff.2 hd) (mt h.sight_directory_iff.1 hold)
  rw [hs, hs']
  split
  · next hk => exact .inl ⟨rfl, hk ▸ hg⟩
  · exact h.sight k

end Pruned

/-! ### Writing -/

/-- Whether a change ends in the same way on both disks, and the same files are gone after it. -/
def Spares {α : Type} (gone changed : Location → Prop) (x : DiskM α) (disk disk' : Disk) : Prop :=
  (x disk').1 = (x disk).1 ∧ Pruned gone changed (x disk).2 (x disk').2

theorem Spares.bind {α β : Type} {x : DiskM α} {f : α → DiskM β} (h : Spares gone changed x disk disk')
    (hf : ∀ a made made', Pruned gone changed made made' → Spares gone changed (f a) made made') :
    Spares gone changed (x >>= f) disk disk' := by
  obtain ⟨hr, hmade⟩ := h
  rw [Spares, run_bind, run_bind]
  generalize x disk' = result' at hr hmade ⊢
  generalize x disk = result at hr hmade ⊢
  obtain ⟨r', made'⟩ := result'
  obtain ⟨r, made⟩ := result
  obtain rfl : r' = r := hr
  cases r' with
  | ok a => exact hf a made made' hmade
  | error fault => exact ⟨rfl, hmade⟩

/-- Makes a directory in a directory that is there, unless there is one already. -/
def settleDir (p : Path) : DiskM Unit := fun disk =>
  match makeDir p disk with
  | (.ok (), disk) => (.ok (), disk)
  | (.error fault, _) => if disk.isDir p then (.ok (), disk) else (.error fault, disk)

theorem makeDirsWithin_eq (m : Nat) : makeDirsWithin (m + 1) p disk =
    if p.bytes.isEmpty then (.ok (), disk)
    else if (makeDir p disk).1 = .error .notFound then
      match p.parent? with
      | none => (.error .notFound, disk)
      | some parent => (makeDirsWithin m parent >>= fun _ => settleDir p) disk
    else settleDir p disk := by
  rw [makeDirsWithin_succ, settleDir]
  rcases hmake : makeDir p disk with ⟨fault | ⟨⟩, made⟩
  · by_cases hfault : fault = .notFound
    · subst hfault
      simp only [if_true]
      cases p.parent? with
      | none => rfl
      | some parent =>
        simp only [run_bind]
        rcases makeDirsWithin m parent disk with ⟨fault | ⟨⟩, above⟩ <;> rfl
    · simp [hfault]
  · simp

namespace Pruned

variable (h : Pruned gone changed disk disk')

include h

theorem spares_of_eq {α : Type} {x : DiskM α} {r : Except IoFault α} (hx : x disk = (r, disk))
    (hx' : x disk' = (r, disk')) : Spares gone changed x disk disk' := by
  rw [Spares, hx, hx']
  exact ⟨rfl, h⟩

variable (hl : ∀ n ∈ l, IsName n) (hspared : ∀ k, k <+: l → ¬ gone k)

include hl hspared

theorem makeDir : Spares gone changed (makeDir (Path.ofLocation l)) disk disk' := by
  have haim := h.aim_eq hl hspared
  cases ha : disk.aim (Path.ofLocation l) with
  | error fault => exact h.spares_of_eq (by rw [makeDir_eq, ha]) (by rw [makeDir_eq, haim, ha])
  | ok aim =>
    cases aim with
    | top => exact h.spares_of_eq (by rw [makeDir_eq, ha]) (by rw [makeDir_eq, haim, ha])
    | directory piece => exact h.spares_of_eq (by rw [makeDir_eq, ha]) (by rw [makeDir_eq, haim, ha])
    | entry dir n slash =>
      obtain rfl := aim_ofLocation hl ha
      have hg := hspared _ List.prefix_rfl
      by_cases hlen : n.length ≤ maxName
      · rw [Spares, makeDir_eq, makeDir_eq, haim, ha]
        simp only [child_eq hlen]
        obtain ⟨-, -, -, -, hdir, -⟩ := aim_eq_entry ha
        rcases h.get?_cases hg with ⟨hn', hn⟩ | ⟨i, i', hn', hn⟩ | ⟨c, c', hn', hn⟩
        · rw [hn, hn']
          have hnone : disk.sight (dir ++ [n]) = .nothing := by simp [Disk.sight, Dir.sight, hn]
          exact ⟨rfl, h.insert (by simp) hdir (by simp [hnone]) hg⟩
        · rw [hn, hn']
          exact ⟨rfl, h⟩
        · rw [hn, hn']
          exact ⟨rfl, h⟩
      · rw [Spares, makeDir_eq, makeDir_eq, haim, ha]
        simp only [child, if_pos (Nat.lt_of_not_le hlen), true_and]
        exact h

theorem settleDir : Spares gone changed (settleDir (Path.ofLocation l)) disk disk' := by
  have hdir := h.isDir_eq hl hspared
  obtain ⟨hr, hmade⟩ := h.makeDir hl hspared
  rw [Spares, Disk.settleDir, Disk.settleDir, hdir]
  generalize Disk.makeDir (Path.ofLocation l) disk' = result' at hr hmade ⊢
  generalize Disk.makeDir (Path.ofLocation l) disk = result at hr hmade ⊢
  obtain ⟨r', made'⟩ := result'
  obtain ⟨r, made⟩ := result
  obtain rfl : r' = r := hr
  cases r' with
  | ok => exact ⟨rfl, hmade⟩
  | error fault =>
    simp only
    split <;> exact ⟨rfl, h⟩

theorem makeDirsWithin {m : Nat} :
    Spares gone changed (makeDirsWithin m (Path.ofLocation l)) disk disk' := by
  induction m generalizing l disk disk' with
  | zero => exact ⟨rfl, h⟩
  | succ m ih =>
    rw [Spares, makeDirsWithin_eq, makeDirsWithin_eq, (h.makeDir hl hspared).1]
    split
    · exact ⟨rfl, h⟩
    · split
      · rcases List.eq_nil_or_concat l with rfl | ⟨k, n, rfl⟩
        · have hparent : (Path.ofLocation []).parent? = none := by decide
          rw [hparent]
          exact ⟨rfl, h⟩
        · rw [List.concat_eq_append] at hl hspared ⊢
          have hk : k <+: k ++ [n] := List.prefix_append k [n]
          rw [Path.parent?_ofLocation hl]
          exact (ih h (fun m hm => hl m (hk.subset hm)) fun j hj => hspared j (hj.trans hk)).bind
            fun _ _ _ habove => habove.settleDir hl hspared
      · exact h.settleDir hl hspared

theorem replace : Spares gone changed (replace (Path.ofLocation l) c) disk disk' := by
  have haim := h.aim_eq hl hspared
  cases ha : disk.aim (Path.ofLocation l) with
  | error fault => exact h.spares_of_eq (by rw [replace_eq, ha]) (by rw [replace_eq, haim, ha])
  | ok aim =>
    cases aim with
    | top => exact h.spares_of_eq (by rw [replace_eq, ha]) (by rw [replace_eq, haim, ha])
    | directory piece => exact h.spares_of_eq (by rw [replace_eq, ha]) (by rw [replace_eq, haim, ha])
    | entry dir n slash =>
      obtain rfl := aim_ofLocation hl ha
      have hg := hspared _ List.prefix_rfl
      obtain ⟨-, -, -, -, hdir, -⟩ := aim_eq_entry ha
      rw [Spares, replace_eq, replace_eq, haim, ha]
      by_cases hlen : n.length ≤ maxName
      · simp only [child_eq hlen]
        have hput : disk.sight (dir ++ [n]) ≠ .directory → Pruned gone changed
            { disk with top := disk.top.modify (·.insert n (.file c)) dir }
            { disk' with top := disk'.top.modify (·.insert n (.file c)) dir } := fun hold =>
          h.insert (by simp) hdir hold hg
        rcases h.get?_cases hg with ⟨hn', hn⟩ | ⟨i, i', hn', hn⟩ | ⟨b, b', hn', hn⟩
        · rw [hn, hn']
          cases slash with
          | true => exact ⟨rfl, h⟩
          | false => exact ⟨rfl, hput (by simp [Disk.sight, Dir.sight, hn])⟩
        · rw [hn, hn']
          exact ⟨rfl, h⟩
        · rw [hn, hn']
          cases slash with
          | true => exact ⟨rfl, h⟩
          | false => exact ⟨rfl, hput (by simp [Disk.sight, Dir.sight, hn, Entry.sight])⟩
      · simp only [child, if_pos (Nat.lt_of_not_le hlen), true_and]
        exact h

omit hl hspared in
theorem permit (p : Path) (step : WriteStep) : Spares gone changed (permit p step) disk disk' :=
  h.spares_of_eq (run_permit step) (by rw [run_permit, h.refuses])

omit hl hspared in
theorem writeAnew (hl : ∀ m ∈ l ++ [n], IsName m) (hspared : ∀ k, k <+: l ++ [n] → ¬ gone k) :
    Spares gone changed (writeAnew (Path.ofLocation (l ++ [n])) c) disk disk' := by
  have hinit : l <+: l ++ [n] := List.prefix_append l [n]
  refine (h.permit _ _).bind fun _ _ _ h => ?_
  rw [parentDir_ofLocation hl]
  refine (h.makeDirsWithin (fun m hm => hl m (hinit.subset hm)) fun k hk => hspared k (hk.trans hinit)).bind
    fun _ _ _ h => ?_
  refine (h.permit _ _).bind fun _ _ _ h => (h.permit _ _).bind fun _ _ _ h =>
    (h.permit _ _).bind fun _ _ _ h => (h.replace hl hspared).bind fun _ _ _ h => ?_
  exact h.spares_of_eq rfl rfl

/-- A write to a place that was spared does the same on both disks. -/
theorem writeIfChanged (hne : l ≠ []) (hchanged : ¬ changed l) :
    Spares gone changed (writeIfChanged (Path.ofLocation l) c) disk disk' := by
  obtain ⟨l, n, rfl⟩ := List.eq_nil_or_concat l |>.resolve_left hne
  rw [List.concat_eq_append] at *
  have hread := h.read_eq hl hspared hchanged
  have hanew : Spares gone changed (Disk.writeAnew (Path.ofLocation (l ++ [n])) c) disk disk' :=
    h.writeAnew hl hspared
  rw [Spares, writeIfChanged_eq, writeIfChanged_eq, h.refuses, hread]
  cases disk.refuses (Path.ofLocation (l ++ [n])) .compare with
  | some fault => exact ⟨rfl, h⟩
  | none =>
    cases disk.read (Path.ofLocation (l ++ [n])) with
    | ok old =>
      simp only
      split
      · exact ⟨rfl, h⟩
      · exact hanew
    | error fault =>
      simp only
      split
      · exact hanew
      · exact ⟨rfl, h⟩

end Pruned

end ImportIndex.Disk
