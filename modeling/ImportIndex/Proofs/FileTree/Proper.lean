import ImportIndex.Proofs.FileTree.Places
import ImportIndex.Source.Discovery

/-!
# Directories whose entries have different names

In a directory tree where entries side by side have different names (`Dir.Proper`), as in every file
system, a walk lists exactly the files that are seen, each of them once (`mem_filesAt`,
`exists_of_mem_filesAt`, `nodup_filesAt`). Writing files leaves names different
(`proper_writeIfChanged`).
-/

namespace ImportIndex

open Path

namespace Dir

variable {d : Dir} {l m loc start : Location} {n : Bytes} {e : Entry} {c : Content}
  {enter : Location → Bool} {f : Dir → Dir} {inner : Dir}

/-- Whether every entry has a name, and no other one beside it has the same. -/
def Proper : Dir → Prop
  | empty => True
  | file name _ rest => IsName name ∧ rest.find? name = none ∧ rest.Proper
  | dir name inner rest => IsName name ∧ rest.find? name = none ∧ inner.Proper ∧ rest.Proper

instance instDecidableProper : (d : Dir) → Decidable d.Proper
  | empty => inferInstanceAs (Decidable True)
  | file name _ rest =>
    have := instDecidableProper rest
    inferInstanceAs (Decidable (IsName name ∧ rest.find? name = none ∧ rest.Proper))
  | dir name inner rest =>
    have := instDecidableProper inner
    have := instDecidableProper rest
    inferInstanceAs
      (Decidable (IsName name ∧ rest.find? name = none ∧ inner.Proper ∧ rest.Proper))

namespace Proper

theorem of_find? (h : d.Proper) (he : d.find? n = some e) :
    IsName n ∧ ∀ inner, e = .dir inner → inner.Proper := by
  induction d with
  | empty => cases he
  | file name content rest ih =>
    rw [find?] at he
    split at he
    · next hn =>
      cases he
      exact ⟨hn ▸ h.1, by simp⟩
    · exact ih h.2.2 he
  | dir name inner rest _ ih =>
    rw [find?] at he
    split at he
    · next hn =>
      cases he
      exact ⟨hn ▸ h.1, fun _ he => Entry.dir.inj he ▸ h.2.2.1⟩
    · exact ih h.2.2.2 he

theorem cons (h : d.Proper) (hn : IsName n) (hnone : d.find? n = none)
    (he : ∀ inner, e = .dir inner → inner.Proper) : (cons n e d).Proper := by
  cases e with
  | file content => exact ⟨hn, hnone, h⟩
  | dir inner => exact ⟨hn, hnone, he inner rfl, h⟩

theorem insert (h : d.Proper) (hn : IsName n) (he : ∀ inner, e = .dir inner → inner.Proper) :
    (d.insert n e).Proper := by
  induction d with
  | empty => exact cons trivial hn rfl he
  | file name content rest ih =>
    rw [Dir.insert]
    split
    · next hname => exact cons h.2.2 hn (hname ▸ h.2.1) he
    · next hname => exact ⟨h.1, (find?_insert_of_ne (Ne.symm hname)).trans h.2.1, ih h.2.2⟩
  | dir name inner rest _ ih =>
    rw [Dir.insert]
    split
    · next hname => exact cons h.2.2.2 hn (hname ▸ h.2.1) he
    · next hname =>
      exact ⟨h.1, (find?_insert_of_ne (Ne.symm hname)).trans h.2.1, h.2.2.1, ih h.2.2.2⟩

theorem find?_erase_eq_none {d : Dir} (name : Bytes) (h : d.find? n = none) :
    (d.erase name).find? n = none := by
  by_cases hname : name = n
  · rw [hname, find?_erase_self]
  · rw [find?_erase_of_ne hname, h]

theorem erase (h : d.Proper) : (d.erase n).Proper := by
  induction d with
  | empty => trivial
  | file name content rest ih =>
    rw [Dir.erase]
    split
    · exact ih h.2.2
    · exact ⟨h.1, find?_erase_eq_none n h.2.1, ih h.2.2⟩
  | dir name inner rest _ ih =>
    rw [Dir.erase]
    split
    · exact ih h.2.2.2
    · exact ⟨h.1, find?_erase_eq_none n h.2.1, h.2.2.1, ih h.2.2.2⟩

theorem modify (h : d.Proper) (hf : ∀ d, d.Proper → (f d).Proper) : (d.modify f loc).Proper := by
  induction loc generalizing d with
  | nil => exact hf d h
  | cons n loc ih =>
    rw [Dir.modify]
    split
    · next inner hfind =>
      obtain ⟨hn, hinner⟩ := h.of_find? hfind
      exact h.insert hn fun _ he => Entry.dir.inj he ▸ ih (hinner inner rfl)
    · exact h

/-- What is seen behind an entry has another name, so it is seen past the entry. -/
theorem sight_behind {rest : Dir} (hnone : rest.find? n = none)
    (hfind : ∀ k, k ≠ n → d.find? k = rest.find? k) (hne : m ≠ []) (hs : rest.sight m = .file c) :
    d.sight m = .file c := by
  obtain ⟨k, m, rfl⟩ := List.exists_cons_of_ne_nil hne
  have hk : k ≠ n := by
    rintro rfl
    simp [sight_cons, hnone] at hs
  rw [sight_cons, hfind k hk, ← sight_cons, hs]

/-- What a walk lists is seen as a file, at a location made of names. -/
theorem exists_of_mem_walk (h : d.Proper) (hl : l ∈ d.walk enter start) :
    ∃ m c, l = start ++ m ∧ m ≠ [] ∧ (∀ n ∈ m, IsName n) ∧ d.sight m = .file c := by
  induction d generalizing start with
  | empty => cases hl
  | file name content rest ih =>
    rcases List.mem_cons.1 hl with rfl | hl
    · exact ⟨[name], content, rfl, by simp, by simpa using h.1, by simp [sight_cons, find?]⟩
    · obtain ⟨m, c, hm, hne, hnames, hs⟩ := ih h.2.2 hl
      exact ⟨m, c, hm, hne, hnames, sight_behind h.2.1 (fun k hk => if_neg (Ne.symm hk)) hne hs⟩
  | dir name inner rest ihinner ih =>
    rcases List.mem_append.1 hl with hl | hl
    · split at hl
      · obtain ⟨m, c, rfl, -, hnames, hs⟩ := ihinner h.2.2.1 hl
        refine ⟨name :: m, c, by simp, by simp, List.forall_mem_cons.2 ⟨h.1, hnames⟩, ?_⟩
        simp [sight_cons, find?, hs]
      · cases hl
    · obtain ⟨m, c, hm, hne, hnames, hs⟩ := ih h.2.2.2 hl
      exact ⟨m, c, hm, hne, hnames, sight_behind h.2.1 (fun k hk => if_neg (Ne.symm hk)) hne hs⟩

/-- A name that no entry has is not the first one of what is listed. -/
theorem not_mem_walk (h : d.Proper) (hnone : d.find? n = none) (hl : start ++ n :: m = l) :
    l ∉ d.walk enter start := by
  intro hmem
  obtain ⟨m', c, hm', -, -, hs⟩ := h.exists_of_mem_walk hmem
  obtain rfl := List.append_cancel_left (hl.trans hm')
  simp [sight_cons, hnone] at hs

/-- A walk lists every file once. -/
theorem nodup_walk (h : d.Proper) : (d.walk enter start).Nodup := by
  induction d generalizing start with
  | empty => exact List.nodup_nil
  | file name content rest ih =>
    exact List.nodup_cons.2 ⟨h.2.2.not_mem_walk h.2.1 rfl, ih h.2.2⟩
  | dir name inner rest ihinner ih =>
    refine List.nodup_append.2 ⟨?_, ih h.2.2.2, ?_⟩
    · split
      · exact ihinner h.2.2.1
      · exact List.nodup_nil
    · rintro l hl _ hl' rfl
      split at hl
      · obtain ⟨m, -, rfl, -⟩ := h.2.2.1.exists_of_mem_walk hl
        exact h.2.2.2.not_mem_walk h.2.1 (List.append_assoc start [name] m).symm hl'
      · cases hl

end Proper

/-- What is seen below a directory that is below another one. -/
theorem sight_append_of_get? (h : d.get? l = some (.dir inner)) :
    d.sight (l ++ m) = inner.sight m := by
  induction l generalizing d with
  | nil =>
    obtain rfl : d = inner := by simpa [get?] using h
    rfl
  | cons n l ih =>
    rw [get?] at h
    rw [List.cons_append, sight_cons]
    cases hf : d.find? n with
    | none => simp [hf] at h
    | some e =>
      cases e with
      | dir inner => exact ih (by simpa [hf] using h)
      | file c => simp [hf] at h

theorem Proper.of_get? (h : d.Proper) (hget : d.get? l = some (.dir inner)) : inner.Proper := by
  induction l generalizing d with
  | nil =>
    obtain rfl : d = inner := by simpa [get?] using hget
    exact h
  | cons n l ih =>
    rw [get?] at hget
    cases hf : d.find? n with
    | none => simp [hf] at hget
    | some e =>
      cases e with
      | dir inner => exact ih ((h.of_find? hf).2 inner rfl) (by simpa [hf] using hget)
      | file c => simp [hf] at hget

/-- What is seen has a name, as has all that it is in. -/
theorem Proper.isName (h : d.Proper) (hs : d.sight l ≠ .nothing) : ∀ n ∈ l, IsName n := by
  induction l generalizing d with
  | nil => simp
  | cons n l ih =>
    rw [sight_cons] at hs
    cases hf : d.find? n with
    | none => simp [hf] at hs
    | some e =>
      refine List.forall_mem_cons.2 ⟨(h.of_find? hf).1, ?_⟩
      cases e with
      | dir inner => exact ih ((h.of_find? hf).2 inner rfl) (by simpa [hf] using hs)
      | file c =>
        by_cases hl : l = []
        · simp [hl]
        · simp [hf, hl] at hs

end Dir

namespace Disk

variable {disk : Disk} {p : Path} {l m o : Location} {n : Bytes} {e : Entry} {c : Content}

/-! ### The files below a place -/

/-- The parent of a directory is one. -/
theorem sight_dropLast (h : disk.sight l = .directory) : disk.sight l.dropLast = .directory := by
  rcases List.eq_nil_or_concat l with rfl | ⟨l, n, rfl⟩
  · exact h
  · rw [List.concat_eq_append] at h ⊢
    rw [List.dropLast_concat]
    exact Dir.sight_of_append (m := [n]) (by rw [← sight, h]; simp) (by simp)

/-- No file is on the way to a directory. -/
theorem not_file_of_directory (h : disk.sight l = .directory) (k : Location) (hk : k <+: l)
    (c : Content) : disk.sight k ≠ .file c := by
  intro hc
  obtain ⟨m, rfl⟩ := hk
  by_cases hm : m = []
  · rw [hm, List.append_nil, hc] at h
    cases h
  · have habove : disk.sight k = .directory :=
      Dir.sight_of_append (m := m) (by rw [← sight, h]; simp) hm
    cases hc.symm.trans habove

theorem ofLocation_inj (hl : ∀ n ∈ l, IsName n) (hm : ∀ n ∈ m, IsName n)
    (h : ofLocation l = ofLocation m) : l = m := by
  rw [← steps_ofLocation hl, h, steps_ofLocation hm]

/-- What a path leads to is at the location that it leads to. -/
theorem get?_of_entry (h : disk.entry p = .ok e) :
    ∃ l, disk.goal p = .ok l ∧ disk.top.get? l = some e := by
  rw [entry, trail] at h
  cases hfault : p.fault? with
  | some fault =>
    rw [hfault] at h
    cases h
  | none =>
    simp only [hfault] at h
    obtain ⟨t, ht, rfl⟩ := map_eq_ok_iff.1 h
    refine ⟨t.location, goal_eq_ok_iff.2 ⟨hfault, ?_⟩, (descends_of_follow ht).get?⟩
    rw [← map_location_follow, ht]
    rfl

/-- A place leads nowhere but to its names. -/
theorem goal_ofLocation (hl : ∀ n ∈ l, IsName n) (h : disk.goal (ofLocation l) = .ok m) : m = l := by
  by_cases hne : l = []
  · subst hne
    rw [goal_ofLocation_nil] at h
    exact (Except.ok.inj h).symm
  · obtain ⟨-, hwalk⟩ := goal_eq_ok_iff.1 h
    rw [start_ofLocation, stepsTo_ofLocation hl hne] at hwalk
    exact (eq_append_of_walk hl hwalk).1

/-- The files below a place. -/
def filesAt (disk : Disk) (p : Path) : List Path := (disk.filesBelow (fun _ => true) p).map p.join

theorem filesAt_cases (ho : ∀ n ∈ o, IsName n) (hd : disk.top.Proper) :
    disk.filesAt (ofLocation o) = [] ∧ disk.isDir (ofLocation o) = false ∨
      ∃ d, disk.top.get? o = some (.dir d) ∧ d.Proper ∧ disk.filesAt (ofLocation o) =
        (d.walk (fun _ => true) []).map fun m => ofLocation (o ++ m) := by
  rw [filesAt, filesBelow, isDir]
  cases hentry : disk.entry (ofLocation o) with
  | error fault => exact .inl ⟨rfl, rfl⟩
  | ok e =>
    cases e with
    | file c => exact .inl ⟨rfl, rfl⟩
    | dir d =>
      obtain ⟨l, hgoal, hget⟩ := get?_of_entry hentry
      obtain rfl := goal_ofLocation ho hgoal
      have hproper := hd.of_get? hget
      refine .inr ⟨d, hget, hproper, ?_⟩
      rw [List.map_map]
      refine List.map_congr_left fun m hm => ?_
      obtain ⟨m, -, rfl, hne, hm, -⟩ := hproper.exists_of_mem_walk hm
      exact join_ofLocation ho hm hne

/-- What is listed below a place is seen there. -/
theorem exists_of_mem_filesAt (ho : ∀ n ∈ o, IsName n) (hd : disk.top.Proper)
    (h : p ∈ disk.filesAt (ofLocation o)) : ∃ m c, m ≠ [] ∧ (∀ n ∈ o ++ m, IsName n) ∧
      p = ofLocation (o ++ m) ∧ disk.sight (o ++ m) = .file c := by
  rcases filesAt_cases ho hd with ⟨hnil, -⟩ | ⟨d, hget, hproper, hlist⟩
  · simp [hnil] at h
  · rw [hlist] at h
    obtain ⟨m, hm, rfl⟩ := List.mem_map.1 h
    obtain ⟨m, c, rfl, hne, hm, hs⟩ := hproper.exists_of_mem_walk hm
    refine ⟨m, c, hne, fun n hn => (List.mem_append.1 hn).elim (ho n) (hm n), rfl, ?_⟩
    rw [sight, Dir.sight_append_of_get? hget, hs]

/-- A file below a place is listed if it can be used. -/
theorem mem_filesAt (ho : ∀ n ∈ o, IsName n) (hd : disk.top.Proper) (hne : m ≠ [])
    (hu : Usable (o ++ m)) (hs : disk.sight (o ++ m) = .file c) :
    ofLocation (o ++ m) ∈ disk.filesAt (ofLocation o) := by
  have hdir : disk.sight o = .directory :=
    Dir.sight_of_append (m := m) (by rw [← sight, hs]; simp) hne
  rcases filesAt_cases ho hd with ⟨-, hisdir⟩ | ⟨d, hget, hproper, hlist⟩
  · rw [isDir_ofLocation ho (usable_of_le hu (List.prefix_append o m)) (not_file_of_directory hdir)
      hdir] at hisdir
    cases hisdir
  · rw [hlist]
    refine List.mem_map_of_mem ?_
    rw [sight, Dir.sight_append_of_get? hget] at hs
    simpa using Dir.mem_walk_of_sight [] hs

theorem nodup_filesAt (ho : ∀ n ∈ o, IsName n) (hd : disk.top.Proper) :
    (disk.filesAt (ofLocation o)).Nodup := by
  rcases filesAt_cases ho hd with ⟨hnil, -⟩ | ⟨d, hget, hproper, hlist⟩
  · simp [hnil]
  · rw [hlist, List.Nodup, List.pairwise_map]
    refine hproper.nodup_walk.imp_of_mem fun {m m'} hm hm' hne heq => hne ?_
    have hname : ∀ {m}, m ∈ d.walk (fun _ => true) [] → ∀ n ∈ o ++ m, IsName n := by
      intro m hm n hn
      obtain ⟨m, -, rfl, -, hm, -⟩ := hproper.exists_of_mem_walk hm
      exact (List.mem_append.1 hn).elim (ho n) (hm n)
    exact List.append_cancel_left (ofLocation_inj (hname hm) (hname hm') heq)

/-! ### Writes -/

/-- What a path points at has a name. -/
theorem isName_of_aim {slash : Bool} (h : disk.aim p = .ok (.entry l n slash)) : IsName n := by
  obtain ⟨-, -, hhere, hup, -, init, hsteps, -⟩ := aim_eq_entry h
  have hmem : n ∈ p.steps := by simp [hsteps]
  obtain ⟨hpiece, hne⟩ := List.mem_filter.1 hmem
  exact ⟨by simpa using hne, fun hs => by simpa using not_of_mem_splitWhere hpiece hs, hhere, hup⟩

section

variable (h : disk.top.Proper)

include h

theorem proper_insert {e : Entry} {slash : Bool} (haim : disk.aim p = .ok (.entry l n slash))
    (he : ∀ inner, e = .dir inner → inner.Proper) : (disk.top.modify (·.insert n e) l).Proper :=
  Dir.Proper.modify h fun _ hd => hd.insert (isName_of_aim haim) he

theorem proper_makeDir : (makeDir p disk).2.top.Proper := by
  rw [makeDir_eq]
  split
  · exact h
  · next haim =>
    split
    · exact h
    · exact h
    · exact proper_insert h haim fun inner he => Entry.dir.inj he ▸ trivial
  · exact h

theorem proper_makeDirsWithin {fuel : Nat} : (makeDirsWithin fuel p disk).2.top.Proper := by
  induction fuel generalizing p disk with
  | zero => exact h
  | succ fuel ih =>
    rw [makeDirsWithin_succ]
    split
    · exact h
    · split
      · next heq => simpa [heq] using proper_makeDir (p := p) h
      · split
        · split
          · exact h
          · next parent hparent =>
            have hdirs := ih (p := parent) h
            split
            · next heq => simpa [heq] using hdirs
            · next made heq =>
              rw [heq] at hdirs
              split
              · next heq' => simpa [heq'] using proper_makeDir (p := p) hdirs
              · split <;> exact hdirs
        · split <;> exact h

theorem proper_replace : (replace p c disk).2.top.Proper := by
  rw [replace_eq]
  split
  · exact h
  · next haim =>
    split
    · exact h
    · exact h
    · split
      · exact h
      · exact proper_insert h haim (by simp)
  · exact h

theorem proper_writeAnew : (writeAnew p c disk).2.top.Proper := by
  have hmade : (makeDirs (parentDir p) disk).2.top.Proper := proper_makeDirsWithin h
  rw [writeAnew, run_bind, run_permit]
  cases disk.refuses p .makeParents with
  | some fault => exact h
  | none =>
    simp only [run_bind]
    rcases hd : makeDirs (parentDir p) disk with ⟨fault | ⟨⟩, made⟩
    · rwa [hd] at hmade
    · rw [hd] at hmade
      simp only [run_permit]
      rcases hstage : made.refuses p .stage with _ | fault
      · rcases hfill : made.refuses p .fill with _ | fault
        · rcases hreplace : made.refuses p .replace with _ | fault
          · have hput : (replace p c made).2.top.Proper := proper_replace hmade
            simp only [hfill, hreplace]
            rcases hr : replace p c made with ⟨fault | ⟨⟩, replaced⟩ <;> rwa [hr] at hput
          · simpa only [hfill, hreplace] using hmade
        · simpa only [hfill] using hmade
      · exact hmade

/-- A write leaves names different. -/
theorem proper_writeIfChanged : (writeIfChanged p c disk).2.top.Proper := by
  rw [writeIfChanged_eq]
  split
  · exact h
  · split
    · split
      · exact h
      · exact proper_writeAnew h
    · split
      · exact proper_writeAnew h
      · exact h

end

end Disk

end ImportIndex
