import ImportIndex.FileTree.Walk
import ImportIndex.Proofs.Path.Names

/-!
# What is seen of a disk

All that a path can tell about a disk is what is *seen* at locations (`Disk.sight`): nothing, a
directory, or a file with its content. A path is followed from location to location
(`Disk.walk`), by what is seen at each:

* `read_eq_ok_iff`: a path leads to a file exactly if the walk along it ends where one is seen;
* `walk_mono`: a walk goes on to the same end as long as directories stay and nothing goes away;
* `read_ofLocation_eq_ok_iff`: a place leads to a file exactly if one is seen at its names.
-/

namespace ImportIndex

/-- What is seen at a location. -/
inductive Sight where
  /-- Nothing. -/
  | nothing
  /-- A directory. -/
  | directory
  /-- A file. -/
  | file (content : Content)
deriving DecidableEq, Repr

/-- An entry as it is seen. -/
def Entry.sight : Entry → Sight
  | .file content => .file content
  | .dir _ => .directory

namespace Dir

variable {d : Dir} {l m : Location} {n : Bytes}

/-- What is seen at a location below a directory. -/
def sight (d : Dir) (l : Location) : Sight := ((d.get? l).map Entry.sight).getD .nothing

@[simp] theorem sight_nil : d.sight [] = .directory := by
  simp [sight, get?, Entry.sight]

theorem sight_cons : d.sight (n :: l) =
    match d.find? n with
    | some (.dir inner) => inner.sight l
    | some (.file content) => if l = [] then .file content else .nothing
    | none => .nothing := by
  rw [sight, get?]
  cases d.find? n with
  | none => rfl
  | some e =>
    cases e with
    | dir inner => rfl
    | file content => by_cases h : l = [] <;> simp [h, Entry.sight]

theorem get?_concat : d.get? (l ++ [n]) =
    match d.get? l with
    | some (.dir inner) => inner.find? n
    | _ => none := by
  induction l generalizing d with
  | nil =>
    simp only [List.nil_append, get?]
    cases d.find? n with
    | none => rfl
    | some e => cases e <;> simp
  | cons a l ih =>
    rw [List.cons_append, get?, get?]
    cases d.find? a with
    | none => rfl
    | some e =>
      cases e with
      | dir inner => exact ih
      | file content => by_cases h : l = [] <;> simp [h]

/-- What is above something is a directory. -/
theorem sight_of_append (h : d.sight (l ++ m) ≠ .nothing) (hm : m ≠ []) :
    d.sight l = .directory := by
  induction l generalizing d with
  | nil => exact sight_nil
  | cons n l ih =>
    rw [List.cons_append, sight_cons] at h
    rw [sight_cons]
    cases hf : d.find? n with
    | none => simp [hf] at h
    | some e =>
      cases e with
      | dir inner => exact ih (by simpa [hf] using h)
      | file content => simp [hf, hm] at h

/-- A walk that enters every directory lists every file that is seen. -/
theorem mem_walk_of_sight {c : Content} (start : Location) (h : d.sight l = .file c) :
    start ++ l ∈ d.walk (fun _ => true) start := by
  induction d generalizing start l with
  | empty => cases l <;> simp [sight_cons, find?] at h
  | file m content rest ih =>
    rcases l with _ | ⟨n, l⟩
    · simp at h
    rw [sight_cons, find?] at h
    by_cases hm : m = n
    · rw [if_pos hm] at h
      by_cases hl : l = []
      · simp [walk, hm, hl]
      · simp [hl] at h
    · rw [if_neg hm, ← sight_cons] at h
      exact List.mem_cons_of_mem _ (ih start h)
  | dir m inner rest ihinner ih =>
    rcases l with _ | ⟨n, l⟩
    · simp at h
    rw [sight_cons, find?] at h
    rw [walk, if_pos rfl]
    by_cases hm : m = n
    · rw [if_pos hm] at h
      have hinner := ihinner (start ++ [m]) h
      rw [List.append_assoc, List.singleton_append] at hinner
      exact List.mem_append_left _ (hm ▸ hinner)
    · rw [if_neg hm, ← sight_cons] at h
      exact List.mem_append_right _ (ih start h)

end Dir

/-- What is seen at a location of a disk. -/
def Disk.sight (disk : Disk) (l : Location) : Sight := disk.top.sight l

/-! ### Walks -/

/-- Goes one step further from a location, by what is seen. -/
def walkStep (see : Location → Sight) (l : Location) (piece : Bytes) : Except IoFault Location :=
  match see l with
  | .nothing => .error .notFound
  | .file _ => .error .notADirectory
  | .directory =>
    if piece = Path.herePiece then .ok l
    else if piece = Path.upPiece then .ok l.dropLast
    else if piece.length > maxName then .error .nameTooLong
    else if see (l ++ [piece]) = .nothing then .error .notFound
    else .ok (l ++ [piece])

namespace Trail

variable {top : Dir} {trail : Trail} {piece : Bytes}

/-- Whether a way down goes from entry to entry. -/
inductive Descends (top : Dir) : Trail → Prop
  | nil : Descends top []
  | cons {trail d n e} (h : Descends top trail) (hd : trail.entry top = .dir d)
      (he : d.find? n = some e) : Descends top ((n, e) :: trail)

theorem location_cons {n : Bytes} {e : Entry} :
    location ((n, e) :: trail) = location trail ++ [n] := by
  simp [location]

/-- A way down leads to what is at its location. -/
theorem Descends.get? (h : Descends top trail) : top.get? trail.location = some (trail.entry top) := by
  induction h with
  | nil => rfl
  | cons h hd he ih =>
    rw [location_cons, Dir.get?_concat, ih, hd]
    exact he

theorem Descends.sight (h : Descends top trail) :
    top.sight trail.location = (trail.entry top).sight := by
  simp [Dir.sight, h.get?]

theorem Descends.tail (h : Descends top trail) : Descends top trail.tail := by
  cases h with
  | nil => exact .nil
  | cons h => exact h

theorem location_tail : location trail.tail = (location trail).dropLast := by
  cases trail with
  | nil => rfl
  | cons e trail => simp [location]

/-- A step of a way down goes by what is seen. -/
theorem Descends.step (h : Descends top trail) :
    (trail.step top piece).map location = walkStep top.sight trail.location piece ∧
      ∀ t, trail.step top piece = .ok t → Descends top t := by
  rw [Trail.step, walkStep, h.sight]
  cases he : trail.entry top with
  | file content => exact ⟨rfl, by simp⟩
  | dir d =>
    have hchild : top.sight (trail.location ++ [piece]) =
        ((d.find? piece).map Entry.sight).getD .nothing := by
      rw [Dir.sight, Dir.get?_concat, h.get?, he]
    simp only [Entry.sight, hchild]
    split
    · exact ⟨rfl, fun t ht => Except.ok.inj ht ▸ h⟩
    · split
      · refine ⟨congrArg Except.ok location_tail, fun t ht => Except.ok.inj ht ▸ h.tail⟩
      · split
        · exact ⟨rfl, by simp⟩
        · cases hf : d.find? piece with
          | none => exact ⟨by simp [Except.map], by simp⟩
          | some e =>
            have hs : e.sight ≠ .nothing := by cases e <;> simp [Entry.sight]
            refine ⟨by simp [Except.map, location_cons, hs], fun t ht => ?_⟩
            exact Except.ok.inj ht ▸ .cons h he hf

theorem Descends.foldlM (h : Descends top trail) (steps : List Bytes) :
    (steps.foldlM (Trail.step top) trail).map location =
        steps.foldlM (walkStep top.sight) trail.location ∧
      ∀ t, steps.foldlM (Trail.step top) trail = .ok t → Descends top t := by
  induction steps generalizing trail with
  | nil => exact ⟨rfl, fun t ht => Except.ok.inj ht ▸ h⟩
  | cons piece steps ih =>
    obtain ⟨hmap, hdesc⟩ := @Descends.step _ _ piece h
    rw [List.foldlM_cons, List.foldlM_cons, ← hmap]
    cases hs : trail.step top piece with
    | error fault => exact ⟨rfl, by simp [bind, Except.bind]⟩
    | ok t => exact ih (hdesc t hs)

end Trail

namespace Disk

variable {disk : Disk} {p : Path} {c : Content}

/-- Follows steps from the root directory, by what is seen. -/
def walk (disk : Disk) (steps : List Bytes) : Except IoFault Location :=
  steps.foldlM (walkStep disk.sight) []

/-- The location that a path leads to, if it leads anywhere. -/
def goal (disk : Disk) (p : Path) : Except IoFault Location :=
  match p.fault? with
  | some fault => .error fault
  | none => disk.walk (disk.start p ++ stepsTo p)

theorem map_location_follow (steps : List Bytes) :
    (disk.follow steps).map Trail.location = disk.walk steps :=
  (Trail.Descends.nil.foldlM steps).1

theorem descends_of_follow {steps : List Bytes} {trail : Trail}
    (h : disk.follow steps = .ok trail) : trail.Descends disk.top :=
  (Trail.Descends.nil.foldlM steps).2 trail h

theorem goal_eq_ok_iff {l : Location} : disk.goal p = .ok l ↔
    p.fault? = none ∧ disk.walk (disk.start p ++ stepsTo p) = .ok l := by
  rw [goal]
  cases p.fault? <;> simp

/-- What a path leads to is what is seen where the walk along it ends. -/
theorem map_sight_entry : (disk.entry p).map Entry.sight = (disk.goal p).map disk.sight := by
  rw [entry, trail, goal]
  cases p.fault? with
  | some fault => rfl
  | none =>
    simp only
    rw [← map_location_follow]
    cases h : disk.follow (disk.start p ++ stepsTo p) with
    | error fault => rfl
    | ok trail => exact congrArg Except.ok (descends_of_follow h).sight.symm

theorem map_eq_ok_iff {ε α β : Type} {x : Except ε α} {f : α → β} {b : β} :
    x.map f = .ok b ↔ ∃ a, x = .ok a ∧ f a = b := by
  cases x <;> simp [Except.map]

/-- A path leads to a file exactly if the walk along it ends where one is seen. -/
theorem read_eq_ok_iff :
    disk.read p = .ok c ↔ ∃ l, disk.goal p = .ok l ∧ disk.sight l = .file c := by
  rw [← map_eq_ok_iff, ← map_sight_entry, read]
  rcases disk.entry p with fault | e | inner <;> simp [Except.map, Entry.sight]

theorem isDir_iff : disk.isDir p = true ↔ ∃ l, disk.goal p = .ok l ∧ disk.sight l = .directory := by
  rw [← map_eq_ok_iff, ← map_sight_entry, isDir]
  rcases disk.entry p with fault | e | inner <;> simp [Except.map, Entry.sight]

/-- A path that leads nowhere cannot be read for that reason. -/
theorem read_eq_error {fault : IoFault} (h : disk.goal p = .error fault) :
    disk.read p = .error fault := by
  have hmap := @map_sight_entry disk p
  rw [h] at hmap
  rw [read]
  rcases hentry : disk.entry p with f | e <;> rw [hentry] at hmap <;> cases hmap
  rfl

/-- A file is where a path leads to one that can be read. -/
theorem isFile_eq_isSome_read : disk.isFile p = (disk.read p).toOption.isSome := by
  rw [isFile, read]
  cases disk.entry p with
  | error fault => rfl
  | ok e => cases e <;> rfl

theorem toOption_eq_some_iff {ε α : Type} {x : Except ε α} {a : α} :
    x.toOption = some a ↔ x = .ok a := by
  cases x <;> simp [Except.toOption]

/-- The text in a file depends on its content only. -/
theorem readText_congr {disk' : Disk} (h : (disk'.read p).toOption = (disk.read p).toOption) :
    (disk'.readText p).toOption = (disk.readText p).toOption := by
  rw [readText, readText]
  cases hread : disk.read p with
  | ok c =>
    rw [hread] at h
    rw [toOption_eq_some_iff.1 h]
  | error fault =>
    cases hread' : disk'.read p with
    | ok c => simp [hread, hread', Except.toOption] at h
    | error fault' => rfl

theorem walkStep_eq_ok {see : Location → Sight} {l l' : Location} {piece : Bytes}
    (h : walkStep see l piece = .ok l') :
    see l = .directory ∧ (piece = Path.herePiece ∧ l' = l ∨
      piece ≠ Path.herePiece ∧ piece = Path.upPiece ∧ l' = l.dropLast ∨
      piece ≠ Path.herePiece ∧ piece ≠ Path.upPiece ∧ piece.length ≤ maxName ∧
        see (l ++ [piece]) ≠ .nothing ∧ l' = l ++ [piece]) := by
  rw [walkStep] at h
  split at h
  · contradiction
  · contradiction
  · next hd =>
    refine ⟨hd, ?_⟩
    split at h
    · next hp => exact .inl ⟨hp, (Except.ok.inj h).symm⟩
    · next hp =>
      split at h
      · next hu => exact .inr (.inl ⟨hp, hu, (Except.ok.inj h).symm⟩)
      · next hu =>
        split at h
        · contradiction
        · next hlen =>
          split at h
          · contradiction
          · next hs =>
            exact .inr (.inr ⟨hp, hu, Nat.le_of_not_lt hlen, hs, (Except.ok.inj h).symm⟩)

/-- A walk goes on to the same end as long as directories stay and nothing goes away. -/
theorem walk_mono {see see' : Location → Sight} (hd : ∀ l, see l = .directory → see' l = .directory)
    (hn : ∀ l, see l ≠ .nothing → see' l ≠ .nothing) {steps : List Bytes} {start l : Location}
    (h : steps.foldlM (walkStep see) start = .ok l) :
    steps.foldlM (walkStep see') start = .ok l := by
  induction steps generalizing start with
  | nil => exact h
  | cons piece steps ih =>
    rw [List.foldlM_cons] at h ⊢
    cases hs : walkStep see start piece with
    | error fault =>
      rw [hs] at h
      contradiction
    | ok next =>
      have hs' : walkStep see' start piece = .ok next := by
        rw [walkStep, hd _ (walkStep_eq_ok hs).1]
        rcases (walkStep_eq_ok hs).2 with ⟨rfl, rfl⟩ | ⟨hp, rfl, rfl⟩ | ⟨hp, hu, hlen, hc, rfl⟩
        · simp
        · simp [hp]
        · simp [hp, hu, Nat.not_lt.2 hlen, hn _ hc]
      rw [hs] at h
      rw [hs']
      exact ih h

/-! ### Places -/

section

variable {see : Location → Sight} {l m : Location}

/-- A walk along names goes from each to the next. -/
theorem eq_append_of_walk (hl : ∀ n ∈ l, IsName n) {loc : Location}
    (h : l.foldlM (walkStep see) m = .ok loc) : loc = m ++ l ∧ ∀ n ∈ l, n.length ≤ maxName := by
  induction l generalizing m with
  | nil => exact ⟨by simpa [pure, Except.pure] using h.symm, by simp⟩
  | cons n l ih =>
    rw [List.foldlM_cons] at h
    cases hs : walkStep see m n with
    | error fault =>
      rw [hs] at h
      contradiction
    | ok next =>
      rw [hs] at h
      have hn := hl n List.mem_cons_self
      rcases (walkStep_eq_ok hs).2 with ⟨hp, -⟩ | ⟨-, hu, -⟩ | ⟨-, -, hlen, -, rfl⟩
      · exact absurd hp hn.2.2.1
      · exact absurd hu hn.2.2.2
      · obtain ⟨rfl, hlens⟩ := ih (fun n hn => hl n (List.mem_cons_of_mem _ hn)) h
        exact ⟨by simp, List.forall_mem_cons.2 ⟨hlen, hlens⟩⟩

/-- A walk along names arrives if something is seen there and no file is in the way. -/
theorem walk_names (hl : ∀ n ∈ l, IsName n) (hlen : ∀ n ∈ l, n.length ≤ maxName)
    (hfile : ∀ k, k <+: l → k ≠ l → ∀ c, disk.sight k ≠ .file c) :
    disk.walk l = if disk.sight l = .nothing then .error .notFound else .ok l := by
  induction hk : l.length generalizing l with
  | zero =>
    obtain rfl := List.length_eq_zero_iff.1 hk
    simp [walk, sight, pure, Except.pure]
  | succ i ih =>
    obtain ⟨m, n, rfl⟩ := List.eq_nil_or_concat l |>.resolve_left (by rintro rfl; contradiction)
    rw [List.concat_eq_append] at *
    have hn := hl n (by simp)
    have hm := ih (l := m) (fun a ha => hl a (by simp [ha])) (fun a ha => hlen a (by simp [ha]))
      (fun k hk hne => hfile k (hk.trans (List.prefix_append m [n])) fun h => by
        have := hk.length_le
        rw [h, List.length_append, List.length_singleton] at this
        omega) (by simpa using hk)
    rw [walk] at hm
    rw [walk, List.foldlM_append, hm]
    by_cases hs : disk.sight m = .nothing
    · have hchild : disk.sight (m ++ [n]) = .nothing := Decidable.byContradiction fun h => by
        have := Dir.sight_of_append h (by simp)
        rw [sight] at hs
        simp [hs] at this
      rw [if_pos hs, if_pos hchild]
      rfl
    · have hdir : disk.sight m = .directory := by
        cases h : disk.sight m with
        | nothing => exact absurd h hs
        | directory => rfl
        | file c => exact absurd h (hfile m (List.prefix_append m [n]) (by simp) c)
      rw [if_neg hs]
      have := hlen n (by simp)
      simp only [bind, Except.bind, List.foldlM_cons, List.foldlM_nil]
      rw [walkStep, hdir]
      by_cases hs' : disk.sight (m ++ [n]) = .nothing <;>
        simp [hn.2.2.1, hn.2.2.2, Nat.not_lt.2 this, hs', pure, Except.pure]

theorem stepsTo_ofLocation (hl : ∀ n ∈ l, IsName n) (hne : l ≠ []) :
    stepsTo (Path.ofLocation l) = l := by
  obtain ⟨m, n, rfl⟩ := List.eq_nil_or_concat l |>.resolve_left hne
  rw [stepsTo, Path.steps_ofLocation hl, List.concat_eq_append,
    Path.endsInSeparator_ofLocation (hl n (by simp))]
  simp

theorem start_ofLocation : disk.start (Path.ofLocation l) = [] := by
  simp [start]

/-- A place can be used if neither it nor one of its names is too long. -/
def Usable (l : Location) : Prop :=
  (Path.ofLocation l).fault? = none ∧ ∀ n ∈ l, n.length ≤ maxName

instance (l : Location) : Decidable (Usable l) :=
  inferInstanceAs (Decidable ((Path.ofLocation l).fault? = none ∧ ∀ n ∈ l, n.length ≤ maxName))

/-- A place leads to a file exactly if it can be used and one is seen at its names. -/
theorem read_ofLocation_eq_ok_iff (hl : ∀ n ∈ l, IsName n) :
    disk.read (Path.ofLocation l) = .ok c ↔ Usable l ∧ disk.sight l = .file c := by
  rw [read_eq_ok_iff]
  by_cases hne : l = []
  · subst hne
    constructor
    · rintro ⟨loc, hgoal, hs⟩
      obtain ⟨-, hwalk⟩ := goal_eq_ok_iff.1 hgoal
      have : disk.walk (disk.start (Path.ofLocation []) ++ stepsTo (Path.ofLocation [])) =
          .ok [] := by
        have : stepsTo (Path.ofLocation []) = [Path.herePiece] := by decide
        rw [start_ofLocation, this]
        simp [walk, walkStep, sight]
      rw [this] at hwalk
      rw [← Except.ok.inj hwalk] at hs
      simp [sight] at hs
    · rintro ⟨-, hs⟩
      simp [sight] at hs
  · constructor
    · rintro ⟨loc, hgoal, hs⟩
      obtain ⟨hfault, hwalk⟩ := goal_eq_ok_iff.1 hgoal
      rw [start_ofLocation, stepsTo_ofLocation hl hne] at hwalk
      obtain ⟨rfl, hlen⟩ := eq_append_of_walk hl hwalk
      exact ⟨⟨hfault, hlen⟩, by simpa using hs⟩
    · rintro ⟨⟨hfault, hlen⟩, hs⟩
      refine ⟨l, goal_eq_ok_iff.2 ⟨hfault, ?_⟩, hs⟩
      rw [start_ofLocation, stepsTo_ofLocation hl hne, List.nil_append,
        walk_names hl hlen fun k hk hkl c hc => ?_, hs]
      · simp
      · obtain ⟨t, rfl⟩ := hk
        have := Dir.sight_of_append (l := k) (m := t) (d := disk.top)
          (by rw [← Disk.sight, hs]; simp) (by rintro rfl; simp at hkl)
        rw [sight, this] at hc
        contradiction

end

end Disk

end ImportIndex
