import ImportIndex.Proofs.Artifact.Listing
import ImportIndex.Reference.Scanner

/-!
# References line by line

A carriage return at the end of a line is white space to every scanner: names end before it, and it is no word
of its own. So a line refers to the same with it and without it (`Scanner.reference?_concat_return`), even if
the keyword ends in one, too. To the lines themselves it makes a difference, as it belongs to a line only if no
line feed follows.

What a text refers to is therefore what the pieces between its line feeds refer to, one after the other
(`Scanner.references_eq`): texts can be cut at any line feed, and it does not matter whether lines end in a
line feed alone or in a carriage return and a line feed (`Scanner.references_by_line`).
-/

namespace ImportIndex

/-! ### Texts with carriage returns -/

namespace Lines

variable {text : List Char}

/-- The text with a carriage return before each line feed. -/
def withReturns (text : List Char) : List Char :=
  text.flatMap fun c => if c = '\n' then ['\r', '\n'] else [c]

theorem withReturns_of_not_mem (h : '\n' ∉ text) : withReturns text = text := by
  induction text with
  | nil => rfl
  | cons c text ih =>
    rw [List.mem_cons, not_or] at h
    rw [withReturns, List.flatMap_cons, if_neg (Ne.symm h.1)]
    exact congrArg (c :: ·) (ih h.2)

theorem withReturns_append_cons {line : List Char} (h : '\n' ∉ line) :
    withReturns (line ++ '\n' :: text) = (line ++ ['\r']) ++ '\n' :: withReturns text := by
  rw [withReturns, List.flatMap_append, ← withReturns, withReturns_of_not_mem h, List.flatMap_cons]
  simp [withReturns]

/-- What holds of texts without a line feed and is kept by a line before a text holds of all texts. -/
theorem forall_of_line {P : List Char → Prop} (last : ∀ line, '\n' ∉ line → P line)
    (cons : ∀ line text, '\n' ∉ line → P text → P (line ++ '\n' :: text)) (text : List Char) : P text := by
  by_cases h : '\n' ∈ text
  · obtain ⟨line, rest, rfl, hline⟩ := List.eq_append_cons_of_mem h
    exact cons line rest hline (forall_of_line last cons rest)
  · exact last text h
termination_by text.length

end Lines

namespace Scanner

variable {s : Scanner} {keyword line : List Char}

/-! ### Carriage returns at the end of a line -/

set_option maxRecDepth 4000 in
/-- A carriage return is white space, and in no name. -/
theorem isBlank_return : Unicode.isBlank '\r' = true ∧ Unicode.isUppercase '\r' = false ∧
    isNameChar '\r' = false := by
  decide

theorem takeWhile_concat {p : Char → Bool} {c : Char} (hc : p c = false) (l : List Char) :
    (l ++ [c]).takeWhile p = l.takeWhile p := by
  induction l with
  | nil => simp [hc]
  | cons d l ih => rw [List.cons_append, List.takeWhile_cons, List.takeWhile_cons, ih]

theorem dottedReference?_concat_return :
    dottedReference? keyword (line ++ ['\r']) = dottedReference? keyword line := by
  obtain ⟨hblank, hupper, hname⟩ := isBlank_return
  rw [dottedReference?, dottedReference?]
  by_cases hline : keyword <+: line
  · obtain ⟨rest, rfl⟩ := hline
    have hreturn : keyword <+: keyword ++ rest ++ ['\r'] :=
      (List.prefix_append keyword rest).trans (List.prefix_append _ _)
    rw [if_pos (List.isPrefixOf_iff_prefix.2 hreturn),
      if_pos (List.isPrefixOf_iff_prefix.2 (List.prefix_append keyword rest)), List.append_assoc,
      List.drop_left, List.drop_left]
    cases rest with
    | nil => simp [hblank]
    | cons c rest =>
      simp only [List.cons_append, List.dropWhile_append]
      cases rest.dropWhile (!Unicode.isUppercase ·) with
      | nil => simp [hupper]
      | cons first more => simp [takeWhile_concat hname]
  · -- The keyword may end in the carriage return, but then no white space follows it.
    rw [if_neg (mt List.isPrefixOf_iff_prefix.1 hline)]
    split
    · next hprefix =>
      rcases List.prefix_concat_iff.1 (List.isPrefixOf_iff_prefix.1 hprefix) with rfl | hprefix
      · simp
      · exact absurd hprefix hline
    · rfl

theorem quotedReference?_concat_return :
    quotedReference? keyword (line ++ ['\r']) = quotedReference? keyword line := by
  have hwords : Unicode.words (line ++ ['\r']) = Unicode.words line := by
    rw [Unicode.words, splitWhere_append_cons isBlank_return.1, List.filter_append]
    exact List.append_nil _
  rw [quotedReference?, quotedReference?, hwords]

/-- A line refers to the same with a carriage return at its end. -/
theorem reference?_concat_return : s.reference? (line ++ ['\r']) = s.reference? line := by
  cases s with
  | dotted keyword _ => exact dottedReference?_concat_return
  | quoted keyword => exact quotedReference?_concat_return

theorem reference?_dropReturn : s.reference? (Lines.dropReturn line) = s.reference? line := by
  rw [Lines.dropReturn]
  split
  · next h =>
    obtain ⟨init, rfl⟩ := List.getLast?_eq_some_iff.1 h
    rw [List.dropLast_concat, reference?_concat_return]
  · rfl

/-- An empty line refers to nothing, not even if the keyword is empty. -/
theorem reference?_nil : s.reference? [] = none := by
  cases s with
  | dotted keyword _ =>
    change dottedReference? _ [] = none
    rw [dottedReference?]
    split <;> simp
  | quoted keyword => rfl

/-! ### Lines of a text -/

/-- What a text refers to is what the pieces between its line feeds refer to. -/
theorem references_eq (text : String) : s.references text =
    (splitAt '\n' text.toList).filterMap fun line => (s.reference? line).map String.ofList := by
  obtain ⟨init, last, hlast⟩ := exists_splitAt_append '\n' text.toList
  have hpieces : splitAt '\n' text.toList = init ++ [last] := by simpa using hlast [] (by simp)
  have hinit : (init.map Lines.dropReturn).filterMap (fun line => (s.reference? line).map String.ofList) =
      init.filterMap fun line => (s.reference? line).map String.ofList := by
    rw [List.filterMap_map]
    simp only [Function.comp_def, reference?_dropReturn]
  rw [references, Lines.split, hpieces]
  simp only [List.dropLast_concat, List.getLast?_concat]
  cases last with
  | nil => simp [hinit, reference?_nil]
  | cons c last => rw [List.filterMap_append, List.filterMap_append, hinit]

theorem references_append (before after : String) :
    s.references (before ++ "\n" ++ after) = s.references before ++ s.references after := by
  have hlist : (before ++ "\n" ++ after).toList = before.toList ++ '\n' :: after.toList := by simp
  rw [references_eq, hlist, splitAt_append_cons, List.filterMap_append, ← references_eq, ← references_eq]

/-- A text refers to the same with a carriage return before each line feed. -/
theorem references_withReturns (text : List Char) :
    s.references (String.ofList (Lines.withReturns text)) = s.references (String.ofList text) := by
  induction text using Lines.forall_of_line with
  | last line hline => rw [Lines.withReturns_of_not_mem hline]
  | cons line text hline ih =>
    have hreturn : '\n' ∉ line ++ ['\r'] := by simpa using hline
    rw [references_eq, references_eq, String.toList_ofList, String.toList_ofList] at ih ⊢
    rw [Lines.withReturns_append_cons hline, splitAt_append_cons, splitAt_append_cons,
      List.filterMap_append, List.filterMap_append, ih, splitAt_of_not_mem hreturn,
      splitAt_of_not_mem hline, List.filterMap_cons, List.filterMap_cons, reference?_concat_return]

/-- References are found line by line, whatever ends the lines: what a text refers to is what each piece between
    its line feeds refers to by itself, so a text that is cut at a line feed refers to what both parts refer to,
    and a carriage return before each line feed changes nothing. -/
theorem references_by_line (s : Scanner) (before after text : String) :
    s.references text =
      (splitAt '\n' text.toList).filterMap (fun line => (s.reference? line).map String.ofList) ∧
    s.references (before ++ "\n" ++ after) = s.references before ++ s.references after ∧
    s.references (String.ofList (Lines.withReturns text.toList)) = s.references text := by
  refine ⟨references_eq text, references_append before after, ?_⟩
  rw [references_withReturns, String.ofList_toList]

/-- The keyword and all of the lines end in carriage returns. -/
example : (dotted "use\r" "hs").references "use\r\r\nuse\r A\r\r\nuse\r\tB\r" = ["A", "B"] := by decide +kernel

end Scanner

end ImportIndex
