import ImportIndex.Proofs.Artifact.Listing
import ImportIndex.Proofs.Text.Utf8

/-!
# Lists of paths as texts and back

Whether a path can be listed shows in its bytes (`Path.FitsLine`). A list of paths is rendered exactly if all
of them can be listed, otherwise the first one that cannot be is refused, and what was rendered is parsed to
the same list (`Listing.round_trip`).

Parsing takes more texts than rendering gives: lines may end in a carriage return and a line feed, lines may
be empty, and the last one need not end. Texts that rendering gives are made of whole lines
(`Listing.IsWhole`), and these are the ones that parsing and rendering leave as they are
(`render_parse_eq_iff`).
-/

namespace ImportIndex

namespace Path

/-- The byte of a line feed. -/
def lineFeed : UInt8 := 0x0A

/-- The byte of a carriage return. -/
def carriageReturn : UInt8 := 0x0D

/-- Whether a path can be a line of an artifact: it is a text, not empty, and holds no line break. -/
structure FitsLine (p : Path) : Prop where
  /-- The path is a text. -/
  text : p.toText?.isSome = true
  /-- The path is not empty. -/
  nonempty : p.bytes ≠ []
  /-- The path holds no line feed. -/
  unbroken : lineFeed ∉ p.bytes
  /-- The path holds no carriage return. -/
  unreturned : carriageReturn ∉ p.bytes

instance (p : Path) : Decidable p.FitsLine :=
  decidable_of_iff (p.toText?.isSome = true ∧ p.bytes ≠ [] ∧ lineFeed ∉ p.bytes ∧
      carriageReturn ∉ p.bytes)
    ⟨fun ⟨ht, hne, hn, hr⟩ => ⟨ht, hne, hn, hr⟩, fun h => ⟨h.text, h.nonempty, h.unbroken, h.unreturned⟩⟩

end Path

namespace Listing

variable {p : Path} {ps qs : List Path} {line text : String} {cause : Failure}

/-- Whether a text can be a line: it is not empty and holds no line break. -/
def IsWholeLine (line : String) : Prop :=
  line ≠ "" ∧ '\n' ∉ line.toList ∧ '\r' ∉ line.toList

/-- Whether a text is made of whole lines, each with a line feed at its end. -/
def IsWhole (text : String) : Prop :=
  ∃ lines : List String, text = String.join (lines.map (· ++ "\n")) ∧ ∀ line ∈ lines, IsWholeLine line

/-! ### What can be listed -/

theorem line?_ofText_iff : line? (.ofText line) = some line ↔ IsWholeLine line := by
  constructor
  · intro h
    obtain ⟨-, hempty, hn, hr⟩ := line?_eq_some h
    exact ⟨by simpa using hempty, hn, hr⟩
  · rintro ⟨hne, hn, hr⟩
    refine Option.filter_eq_some_iff.2 ⟨Bytes.toText?_ofText line, ?_⟩
    simp [hne, hn, hr]

/-- Whether the line of a path is whole shows in the bytes of the path. -/
theorem fitsLine_ofText_iff : (Path.ofText line).FitsLine ↔ IsWholeLine line := by
  have hempty : (Path.ofText line).bytes = [] ↔ line = "" := by
    have h := Bytes.toText?_ofText line
    exact ⟨fun he => (Option.some.inj ((congrArg Bytes.toText? he).symm.trans h)).symm, fun he => he ▸ rfl⟩
  have hn : Path.lineFeed ∈ (Path.ofText line).bytes ↔ '\n' ∈ line.toList :=
    Bytes.ofNat_mem_ofText_iff (c := '\n') (by decide)
  have hr : Path.carriageReturn ∈ (Path.ofText line).bytes ↔ '\r' ∈ line.toList :=
    Bytes.ofNat_mem_ofText_iff (c := '\r') (by decide)
  have htext : (Path.ofText line).toText?.isSome = true := by
    rw [Path.toText?, Path.ofText, Bytes.toText?_ofText, Option.isSome_some]
  constructor
  · intro h
    exact ⟨fun he => h.nonempty (hempty.2 he), fun he => h.unbroken (hn.2 he), fun he => h.unreturned (hr.2 he)⟩
  · rintro ⟨hne, hn', hr'⟩
    exact ⟨htext, fun he => hne (hempty.1 he), fun he => hn' (hn.1 he), fun he => hr' (hr.1 he)⟩

/-- A path has a line exactly if it can be one. -/
theorem exists_line?_iff : (∃ line, line? p = some line) ↔ p.FitsLine := by
  constructor
  · rintro ⟨line, h⟩
    obtain ⟨rfl, -⟩ := line?_eq_some h
    exact fitsLine_ofText_iff.2 (line?_ofText_iff.1 h)
  · intro h
    obtain ⟨line, hline⟩ := Option.isSome_iff_exists.1 h.text
    obtain rfl : p = .ofText line := congrArg Path.mk (Bytes.toText?_eq_some_iff.1 hline)
    exact ⟨line, line?_ofText_iff.2 (fitsLine_ofText_iff.1 h)⟩

theorem exists_render_iff : (∃ text, render ps = .ok text) ↔ ∀ p ∈ ps, p.FitsLine :=
  render_eq_ok_iff.trans (forall₂_congr fun _ _ => exists_line?_iff)

/-- Rendering refuses the first path that cannot be listed. -/
theorem exists_of_render_error (h : render ps = .error cause) : ∃ before p after,
    ps = before ++ p :: after ∧ (∀ q ∈ before, q.FitsLine) ∧ ¬ p.FitsLine ∧
      cause = .invalidArtifactPath p := by
  rcases render_cases ps with ⟨before, p, after, hps, hbefore, hp, hrender⟩ | ⟨lines, -, -, hrender⟩
  · refine ⟨before, p, after, hps, fun q hq => exists_line?_iff.1 (hbefore q hq), fun hline => ?_, ?_⟩
    · obtain ⟨line, hline⟩ := exists_line?_iff.2 hline
      cases hp.symm.trans hline
    · exact Except.error.inj (h.symm.trans hrender)
  · cases h.symm.trans hrender

/-! ### Texts of whole lines -/

theorem render_lines {lines : List String} (h : ∀ line ∈ lines, IsWholeLine line) :
    render (lines.map .ofText) = .ok (String.join (lines.map (· ++ "\n"))) := by
  induction lines with
  | nil => rfl
  | cons line lines ih =>
    rw [List.forall_mem_cons] at h
    rw [List.map_cons, render, line?_ofText_iff.2 h.1, ih h.2, List.map_cons, String.join_cons]
    rfl

/-- What is rendered is made of whole lines. -/
theorem isWhole_of_render (h : render ps = .ok text) : IsWhole text := by
  rcases render_cases ps with ⟨_, _, _, _, _, _, hrender⟩ | ⟨lines, -, hlines, hrender⟩
  · cases h.symm.trans hrender
  · exact ⟨lines, Except.ok.inj (h.symm.trans hrender), fun line hline =>
      line?_ofText_iff.1 (hlines line hline)⟩

/-- The texts that are parsed and rendered to themselves are those of whole lines. -/
theorem render_parse_eq_iff : render (parse text) = .ok text ↔ IsWhole text := by
  constructor
  · exact isWhole_of_render
  · rintro ⟨lines, rfl, hlines⟩
    have hrender := render_lines hlines
    rw [parse_render hrender, hrender]

/-- Rendering and parsing.

    * A list of paths is rendered exactly if all of them can be listed. Then it is parsed to the same list,
      so no two lists have the same text.
    * If it is not rendered, the first path that cannot be listed is refused.
    * If what is parsed from a text can be rendered again, it is parsed to the same list once more, and it is
      the text that it came from exactly if this is made of whole lines. -/
theorem round_trip :
    (∀ ps, (∃ text, render ps = .ok text) ↔ ∀ p ∈ ps, p.FitsLine) ∧
    (∀ ps text, render ps = .ok text → parse text = ps) ∧
    (∀ ps qs text, render ps = .ok text → render qs = .ok text → ps = qs) ∧
    (∀ ps cause, render ps = .error cause → ∃ before p after, ps = before ++ p :: after ∧
      (∀ q ∈ before, q.FitsLine) ∧ ¬ p.FitsLine ∧ cause = .invalidArtifactPath p) ∧
    ∀ text again, render (parse text) = .ok again →
      parse again = parse text ∧ (again = text ↔ IsWhole text) := by
  refine ⟨fun ps => exists_render_iff, fun ps text => parse_render, fun ps qs text hps hqs => ?_,
    fun ps cause => exists_of_render_error, fun text again h => ⟨parse_render h, ?_⟩⟩
  · exact (parse_render hps).symm.trans (parse_render hqs)
  · rw [← render_parse_eq_iff, h, Except.ok.injEq]

/-- A list with a repetition and a path that is spelled with more than is needed, one with a path that is no
    text and one that holds a carriage return, and a text with both ends of lines, an empty line and a last
    line that does not end. -/
theorem round_trip_mixed :
    let listed := ["a.h", "s//b.h", "a.h"].map Path.ofText
    let refused := [.ofText "a.h", ⟨[0xFF]⟩, .ofText "a\r"]
    render listed = .ok "a.h\ns//b.h\na.h\n" ∧ parse "a.h\ns//b.h\na.h\n" = listed ∧
    render refused = .error (.invalidArtifactPath ⟨[0xFF]⟩) ∧ ¬ (Path.mk [0xFF]).FitsLine ∧
    render (parse "a.h\r\n\nb.h") = .ok "a.h\nb.h\n" ∧
      parse "a.h\nb.h\n" = parse "a.h\r\n\nb.h" ∧ ¬ IsWhole "a.h\r\n\nb.h" := by
  intro listed refused
  obtain ⟨-, hparse, -, hrefused, hagain⟩ := round_trip
  have hlisted : render listed = .ok "a.h\ns//b.h\na.h\n" := rfl
  have herror : render refused = .error (.invalidArtifactPath ⟨[0xFF]⟩) := rfl
  have hrendered : render (parse "a.h\r\n\nb.h") = .ok "a.h\nb.h\n" := rfl
  obtain ⟨before, p, after, -, -, hp, hcause⟩ := hrefused _ _ herror
  obtain ⟨hsame, hwhole⟩ := hagain _ _ hrendered
  exact ⟨hlisted, hparse _ _ hlisted, herror, Failure.invalidArtifactPath.inj hcause ▸ hp, hrendered, hsame,
    fun h => absurd (hwhole.2 h) (by decide)⟩

end Listing

end ImportIndex
