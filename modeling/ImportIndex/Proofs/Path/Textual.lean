import ImportIndex.Proofs.Build.Storing
import ImportIndex.Proofs.Path.Joined
import ImportIndex.Proofs.Text.Utf8

/-!
# Paths that are texts

A path is a text exactly if all of its components are (`Path.isText_iff_components`): the bytes between them
are characters of their own, which no other character is written with. So this does not depend on how the
path is spelled, and is kept when paths are joined and folded.
-/

namespace ImportIndex

/-- Whether bytes are the UTF-8 form of a text. -/
def Bytes.IsText (b : Bytes) : Prop := ∃ s, b = ofText s

theorem Bytes.IsText.append {a b : Bytes} (ha : a.IsText) (hb : b.IsText) : IsText (a ++ b) := by
  obtain ⟨s, rfl⟩ := ha
  obtain ⟨t, rfl⟩ := hb
  exact ⟨s ++ t, (ofText_append s t).symm⟩

theorem Bytes.isText_joinWith {pieces : List Bytes} (h : ∀ piece ∈ pieces, piece.IsText) :
    IsText (joinWith Path.separator pieces) := by
  induction pieces with
  | nil => exact ⟨"", rfl⟩
  | cons piece pieces ih =>
    rw [List.forall_mem_cons] at h
    cases pieces with
    | nil => exact h.1
    | cons next pieces =>
      have hseparator : IsText [Path.separator] := ⟨"/", by decide⟩
      exact h.1.append (hseparator.append (ih h.2))

namespace Path

variable {p q : Path}

theorem isText_iff : p.IsText ↔ p.bytes.IsText := by
  rw [IsText, Option.isSome_iff_exists]
  exact exists_congr fun s => Bytes.toText?_eq_some_iff

theorem isText_iff_pieces : p.IsText ↔ ∀ piece ∈ splitAt separator p.bytes, Bytes.IsText piece := by
  rw [isText_iff]
  constructor
  · rintro ⟨s, hs⟩ piece hpiece
    have hsplit := Bytes.splitAt_ofText (c := '/') (by decide) s.toList
    rw [String.ofList_toList, ← hs] at hsplit
    obtain ⟨l, -, rfl⟩ := List.mem_map.1 (hsplit ▸ hpiece : piece ∈ _)
    exact ⟨_, rfl⟩
  · intro h
    rw [← joinWith_splitAt separator p.bytes]
    exact Bytes.isText_joinWith h

theorem bytes_of_pieceComponent? {piece : Bytes} {c : Component} (h : pieceComponent? piece = some c) :
    c.bytes = piece := by
  rw [pieceComponent?] at h
  split at h
  · cases h
  · split at h
    · next hup => exact (Option.some.inj h) ▸ hup.symm
    · exact (Option.some.inj h) ▸ rfl

/-- A piece that does not count is a text. -/
theorem isText_of_pieceComponent?_eq_none {piece : Bytes} (h : pieceComponent? piece = none) :
    piece.IsText := by
  rw [pieceComponent?] at h
  split at h
  · next hidle =>
    rw [isIdle, Bool.or_eq_true, List.isEmpty_iff, beq_iff_eq] at hidle
    obtain rfl | rfl := hidle
    · exact ⟨"", rfl⟩
    · exact ⟨".", rfl⟩
  · split at h <;> cases h

/-- A path is a text exactly if all of its components are. -/
theorem isText_iff_components : p.IsText ↔ ∀ c ∈ p.components, c.bytes.IsText := by
  have hhere : Component.here.bytes.IsText := ⟨".", rfl⟩
  have hroot : Component.root.bytes.IsText := ⟨"/", rfl⟩
  have hfilter : (∀ c ∈ p.components, c.bytes.IsText) ↔
      ∀ c ∈ p.components.filter (· ≠ .here), c.bytes.IsText := by
    refine ⟨fun h c hc => h c (List.mem_filter.1 hc).1, fun h c hc => ?_⟩
    by_cases heq : c = .here
    · exact heq ▸ hhere
    · exact h c (List.mem_filter.2 ⟨hc, by simpa using heq⟩)
  rw [hfilter, filter_components, isText_iff_pieces]
  constructor
  · intro h c hc
    rcases List.mem_append.1 hc with hc | hc
    · split at hc
      · exact List.mem_singleton.1 hc ▸ hroot
      · cases hc
    · obtain ⟨piece, hpiece, hcomponent⟩ := List.mem_filterMap.1 hc
      exact bytes_of_pieceComponent? hcomponent ▸ h piece hpiece
  · intro h piece hpiece
    cases hcomponent : pieceComponent? piece with
    | none => exact isText_of_pieceComponent?_eq_none hcomponent
    | some c =>
      have hc : c ∈ (splitAt separator p.bytes).filterMap pieceComponent? :=
        List.mem_filterMap.2 ⟨piece, hpiece, hcomponent⟩
      exact bytes_of_pieceComponent? hcomponent ▸ h c (List.mem_append_right _ hc)

theorem isText_congr (h : p.Same q) : p.IsText ↔ q.IsText := by
  rw [isText_iff_components, isText_iff_components, h]

theorem IsText.join (hp : p.IsText) (hq : q.IsText) : (p.join q).IsText := by
  rw [isText_iff] at hp hq ⊢
  rw [Path.join]
  split
  · exact hq
  · have hseparator : Bytes.IsText [separator] := ⟨"/", by decide⟩
    cases p.bytes.getLast? with
    | none => exact hq
    | some b =>
      by_cases hb : b = separator
      · simp only [hb, if_true]
        exact hp.append hq
      · simp only [hb, if_false]
        exact hp.append (hseparator.append hq)

theorem IsText.normalize (hp : p.IsText) : p.normalize.IsText := by
  rw [isText_iff_components] at hp ⊢
  rw [components_normalize]
  exact fun c hc => hp c (mem_of_mem_normalComponents hc).1

end Path

end ImportIndex
