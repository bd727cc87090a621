import ImportIndex.Proofs.FileTree.Places

/-!
# Room for files at places

A disk has room for files at some places if each place can be used and is free, and none leads to
another one (`Disk.Room`). Then they can be written in any order and as often as one likes, each
without changing the others (`Room.exists_write`, `read_write_ofLocation`).
-/

namespace ImportIndex.Disk

variable {disk disk' : Disk} {places : Location → Prop} {c d : Content} {l m : Location}

/-- The path at one of some places. -/
def At (places : Location → Prop) (p : Path) : Prop := ∃ l, places l ∧ p = Path.ofLocation l

/-- Whether a disk has room for files at some places. -/
structure Room (disk : Disk) (places : Location → Prop) : Prop where
  /-- A place is a list of names. -/
  names : ∀ {l}, places l → ∀ n ∈ l, IsName n
  /-- The root directory is no place for a file. -/
  nonempty : ∀ {l}, places l → l ≠ []
  /-- Every place can be used. -/
  usable : ∀ {l}, places l → Usable l
  /-- Every place is free. -/
  free : ∀ {l}, places l → disk.Free l
  /-- No place leads to another one. -/
  apart : ∀ {l m}, places l → places m → l <+: m → l = m
  /-- The disk refuses nothing. -/
  refuses : ∀ {l} step, places l → disk.refuses (Path.ofLocation l) step = none

/-- Writing a file at a place makes directories on the way to it and puts a file there. -/
theorem grows_write (hl : ∀ n ∈ l, IsName n) (hne : l ≠ []) :
    Grows (fun k => k <+: l ∧ k ≠ l) (fun k d => k = l ∧ d = c) disk
      (writeIfChanged (Path.ofLocation l) c disk).2 := by
  obtain ⟨l, n, rfl⟩ := List.eq_nil_or_concat l |>.resolve_left hne
  rw [List.concat_eq_append] at *
  exact (grows_write_ofLocation hl).mono
    (fun k hk => ⟨hk.trans (List.prefix_append l [n]), ne_concat_of_le hk⟩) fun _ _ h => h

/-- Writing a file at a place leaves the files at other places. -/
theorem read_write_ofLocation (hl : ∀ n ∈ l, IsName n) (hne : l ≠ []) (hm : ∀ n ∈ m, IsName n)
    (hlm : l ≠ m) : ((writeIfChanged (Path.ofLocation l) c disk).2.read (Path.ofLocation m)).toOption =
      (disk.read (Path.ofLocation m)).toOption :=
  (grows_write hl hne).read_ofLocation hm fun _ h => hlm h.1.symm

/-- After a file was written at a place, or was not, there is what was there, or its content. -/
theorem read_write_same (hl : ∀ n ∈ l, IsName n) (hne : l ≠ []) :
    ((writeIfChanged (Path.ofLocation l) c disk).2.read (Path.ofLocation l)).toOption =
        (disk.read (Path.ofLocation l)).toOption ∨
      (writeIfChanged (Path.ofLocation l) c disk).2.read (Path.ofLocation l) = .ok c := by
  have hread : ∀ (disk : Disk) d, (disk.read (Path.ofLocation l)).toOption = some d ↔
      Usable l ∧ disk.sight l = .file d :=
    fun disk d => toOption_eq_some_iff.trans (read_ofLocation_eq_ok_iff hl)
  rcases (@grows_write disk c l hl hne).sight l with hs | ⟨-, -, -, hself⟩ |
    ⟨d, -, hs, -, rfl⟩
  · exact .inl (Option.ext fun d => by rw [hread, hread, hs])
  · exact absurd rfl hself
  · by_cases hu : Usable l
    · exact .inr ((read_ofLocation_eq_ok_iff hl).2 ⟨hu, hs⟩)
    · exact .inl (Option.ext fun d => by simp [hread, hu])

/-- A file that is there can be written if nothing is refused. -/
theorem exists_write_of_read (hl : ∀ n ∈ l, IsName n) (hread : disk.read (Path.ofLocation l) = .ok c)
    (hrefuses : ∀ step, disk.refuses (Path.ofLocation l) step = none) :
    ∃ written, (writeIfChanged (Path.ofLocation l) d disk).1 = .ok written := by
  obtain ⟨hu, hs⟩ := (read_ofLocation_eq_ok_iff hl).1 hread
  have hfree : disk.Free l := by
    refine ⟨fun k hk hne c' hc' => ?_, by simp [hs]⟩
    obtain ⟨m, rfl⟩ := hk
    have hdir : disk.sight k = .directory :=
      Dir.sight_of_append (m := m) (by change disk.sight (k ++ m) ≠ _; simp [hs])
        fun hm => hne (by simp [hm])
    simp [hdir] at hc'
  obtain ⟨m, n, rfl⟩ := List.eq_nil_or_concat l |>.resolve_left fun h => by
    rw [h, sight, Dir.sight_nil] at hs
    cases hs
  rw [List.concat_eq_append] at *
  exact exists_write_ofLocation hl hu hfree hrefuses

/-- Writing files at places makes directories on the way to them and puts files there. -/
theorem Rewritten.grows (hn : ∀ l, places l → ∀ n ∈ l, IsName n) (hne : ∀ l, places l → l ≠ [])
    (h : disk.Rewritten (At places) disk') :
    Grows (fun k => ∃ l, places l ∧ k <+: l ∧ k ≠ l) (fun k _ => places k) disk disk' := by
  induction h with
  | start => exact .refl
  | write _ ht c ih =>
    obtain ⟨l, hl, rfl⟩ := ht
    exact ih.trans ((grows_write (hn l hl) (hne l hl)).mono (fun k hk => ⟨l, hl, hk⟩)
      fun k _ hk => hk.1 ▸ hl)

/-- A place where no file is put is read as before. -/
theorem Rewritten.read_ofLocation (hn : ∀ l, places l → ∀ n ∈ l, IsName n)
    (hne : ∀ l, places l → l ≠ []) (h : disk.Rewritten (At places) disk')
    (hm : ∀ n ∈ m, IsName n) (hnot : ¬ places m) :
    (disk'.read (Path.ofLocation m)).toOption = (disk.read (Path.ofLocation m)).toOption :=
  (h.grows hn hne).read_ofLocation hm fun _ => hnot

namespace Room

/-- There is room for the same files after some of them were written. -/
theorem rewritten (hr : disk.Room places) (h : disk.Rewritten (At places) disk') :
    disk'.Room places where
  names := hr.names
  nonempty := hr.nonempty
  usable := hr.usable
  free {l} hl := by
    have hgrows := h.grows (fun _ => hr.names) fun _ => hr.nonempty
    refine ⟨fun k hk hne c hc => ?_, fun hdir => ?_⟩
    · rcases hgrows.sight k with hs | ⟨-, hs, -⟩ | ⟨c', -, -, hput⟩
      · exact (hr.free hl).1 k hk hne c (hs ▸ hc)
      · simp [hs] at hc
      · exact hne (hr.apart hput hl hk)
    · rcases hgrows.sight l with hs | ⟨-, -, m, hm, hprefix, hne⟩ | ⟨c', -, hs, -⟩
      · exact (hr.free hl).2 (hs ▸ hdir)
      · exact hne (hr.apart hl hm hprefix)
      · simp [hs] at hdir
  apart := hr.apart
  refuses step hl := by
    rw [(h.grows (fun _ => hr.names) fun _ => hr.nonempty).refuses]
    exact hr.refuses step hl

/-- A file can be written where there is room for it. -/
theorem exists_write (hr : disk.Room places) (hl : places l) :
    ∃ written, (writeIfChanged (Path.ofLocation l) c disk).1 = .ok written := by
  obtain ⟨m, n, rfl⟩ := List.eq_nil_or_concat l |>.resolve_left (hr.nonempty hl)
  rw [List.concat_eq_append] at *
  exact exists_write_ofLocation (hr.names hl) (hr.usable hl) (hr.free hl) fun step =>
    hr.refuses step hl

end Room

end ImportIndex.Disk
