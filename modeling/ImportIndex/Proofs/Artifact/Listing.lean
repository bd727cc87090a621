import ImportIndex.Artifact.Listing
import ImportIndex.Proofs.Path.Names

/-!
# Reading artifacts back

A line that can be listed is not empty and holds no line break, so a text that was rendered is
parsed to the paths that it was rendered from (`parse_render`).
-/

namespace ImportIndex

namespace Lines

/-- The lines of a text that starts with a whole line. -/
theorem split_cons {line text : List Char} (h : '\n' ∉ line) :
    split (line ++ '\n' :: text) = dropReturn line :: split text := by
  have hne : splitAt '\n' text ≠ [] := splitWhere_ne_nil _ text
  rw [split, splitAt_append_cons, splitAt_of_not_mem h, split, List.singleton_append,
    List.dropLast_cons_of_ne_nil hne, List.getLast?_cons, List.getLast?_eq_some_getLast hne,
    Option.getD_some, List.map_cons]
  cases (splitAt '\n' text).getLast hne <;> rfl

theorem dropReturn_of_not_mem {line : List Char} (h : '\r' ∉ line) : dropReturn line = line := by
  rw [dropReturn, if_neg fun hlast => h (List.mem_of_getLast? hlast)]

theorem ofText_cons {line text : String} (hn : '\n' ∉ line.toList) (hr : '\r' ∉ line.toList) :
    ofText (line ++ "\n" ++ text) = line :: ofText text := by
  have hlist : (line ++ "\n" ++ text).toList = line.toList ++ '\n' :: text.toList := by simp
  rw [ofText, hlist, split_cons hn, dropReturn_of_not_mem hr, List.map_cons, String.ofList_toList]
  rfl

end Lines

namespace Listing

variable {p : Path} {ps : List Path} {line text : String}

theorem line?_eq_some (h : line? p = some line) :
    p = .ofText line ∧ line.isEmpty = false ∧ '\n' ∉ line.toList ∧ '\r' ∉ line.toList := by
  obtain ⟨htext, hline⟩ := Option.filter_eq_some_iff.1 h
  simp only [Bool.and_eq_true, Bool.not_eq_true', List.contains_eq_mem, decide_eq_false_iff_not]
    at hline
  exact ⟨congrArg Path.mk (Bytes.toText?_eq_some_iff.1 htext), hline.1.1, hline.1.2, hline.2⟩

/-- The empty path cannot be listed. -/
theorem line?_nil : line? ⟨[]⟩ = none := by decide

/-- A text that was rendered is parsed to the paths that it was rendered from. -/
theorem parse_render (h : render ps = .ok text) : parse text = ps := by
  induction ps generalizing text with
  | nil =>
    obtain rfl := Except.ok.inj h
    rfl
  | cons p ps ih =>
    rw [render] at h
    cases hline : line? p with
    | none => simp [hline] at h
    | some line =>
      rw [hline] at h
      cases hrest : render ps with
      | error cause => simp [hrest, Except.map] at h
      | ok rest =>
        rw [hrest] at h
        obtain rfl := Except.ok.inj h
        obtain ⟨hp, hempty, hn, hr⟩ := line?_eq_some hline
        rw [parse, Lines.ofText_cons hn hr, List.filter_cons_of_pos (by simpa using hempty),
          List.map_cons, ← hp]
        exact congrArg _ (ih hrest)

/-- What is rendered is made of paths that can be listed. -/
theorem render_eq_ok_iff : (∃ text, render ps = .ok text) ↔ ∀ p ∈ ps, ∃ line, line? p = some line := by
  induction ps with
  | nil => simp [render]
  | cons p ps ih =>
    rw [List.forall_mem_cons, ← ih, render]
    cases line? p with
    | none => simp
    | some line => cases render ps <;> simp [Except.map]

/-- A path that is not empty can be listed exactly if it is a text without line breaks. -/
theorem line?_eq_some_iff (hne : p.bytes ≠ []) :
    line? p = some line ↔ p = .ofText line ∧ '\n' ∉ line.toList ∧ '\r' ∉ line.toList := by
  constructor
  · intro h
    obtain ⟨hp, -, hlines⟩ := line?_eq_some h
    exact ⟨hp, hlines⟩
  · rintro ⟨rfl, hn, hr⟩
    have hempty : line.isEmpty = false := by
      refine Bool.eq_false_iff.2 fun hempty => hne ?_
      obtain rfl := String.isEmpty_iff.1 hempty
      decide
    refine Option.filter_eq_some_iff.2 ⟨Bytes.toText?_ofText line, ?_⟩
    simp [hempty, hn, hr]

/-- What is rendered is the lines of all paths, unless there is a first one that cannot be listed. -/
theorem render_cases (ps : List Path) :
    (∃ before p after, ps = before ++ p :: after ∧ (∀ q ∈ before, ∃ line, line? q = some line) ∧
      line? p = none ∧ render ps = .error (.invalidArtifactPath p)) ∨
    ∃ lines : List String, ps = lines.map .ofText ∧
      (∀ line ∈ lines, line? (.ofText line) = some line) ∧
      render ps = .ok (String.join (lines.map (· ++ "\n"))) := by
  induction ps with
  | nil => exact .inr ⟨[], rfl, by simp, rfl⟩
  | cons p ps ih =>
    rw [render]
    cases hp : line? p with
    | none => exact .inl ⟨[], p, ps, rfl, by simp, hp, rfl⟩
    | some line =>
      rcases ih with ⟨before, p', after, rfl, hbefore, hp', hps⟩ | ⟨lines, rfl, hlines, hps⟩
      · refine .inl ⟨p :: before, p', after, rfl, List.forall_mem_cons.2 ⟨⟨line, hp⟩, hbefore⟩, hp', ?_⟩
        simp [hps, Except.map]
      · obtain ⟨rfl, -⟩ := line?_eq_some hp
        refine .inr ⟨line :: lines, rfl, List.forall_mem_cons.2 ⟨hp, hlines⟩, ?_⟩
        simp [hps, Except.map, String.join_cons]

end Listing

end ImportIndex
