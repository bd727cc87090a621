import ImportIndex.Proofs.Path.Joined
import ImportIndex.Proofs.Text.Utf8
import ImportIndex.Reference.Scanner

/-!
# The files that dotted references stand for

A dotted reference starts with an uppercase letter, and nothing in it is a separator
(`Scanner.isDotted_of_mem_references`). So the pieces of the path that it stands for are what stands between
its dots, with the extension at the last one (`Scanner.splitAt_candidate`). As long as the extension is
without separators, these are names or do not count, whatever dots the reference ends in or has in a row: the
path leads down from where it is looked at (`Scanner.isName_of_mem_candidate`). If the reference does not end
in a dot, its last name has that extension (`Scanner.extension?_candidate`).
-/

namespace ImportIndex

/-- A list of characters is a name unless it is one of the exceptions. -/
theorem isName_ofText {l : List Char} (hne : l ≠ []) (hsep : '/' ∉ l) (hhere : l ≠ ['.'])
    (hup : l ≠ ['.', '.']) : IsName (Bytes.ofText (String.ofList l)) := by
  have hne' : ∀ {m : List Char}, l ≠ m → Bytes.ofText (String.ofList l) ≠ Bytes.ofText (String.ofList m) :=
    fun h heq => h (String.ofList_inj.1 (Bytes.ofText_inj.1 heq))
  refine ⟨hne' hne, fun hmem => hsep ?_, hne' hhere, hne' hup⟩
  have hchar := (Bytes.ofNat_mem_ofText_iff (c := '/') (by decide)).1 hmem
  rwa [String.toList_ofList] at hchar

/-- A name with something before its last dot has what follows as its extension. -/
theorem Path.partName_append {n e : Bytes} (hn : n ≠ []) (he : dot ∉ e) :
    (partName (n ++ dot :: e)).2 = some e := by
  have hall : ∀ b ∈ e.reverse, (b != dot) = true := fun b hb => by
    rw [bne_iff_ne]
    rintro rfl
    exact he (List.mem_reverse.1 hb)
  have htake : ∀ m : Bytes, (e.reverse ++ dot :: m).takeWhile (· != dot) = e.reverse := fun m => by
    rw [List.takeWhile_append_of_pos hall]
    simp
  have hdrop : ∀ m : Bytes, (e.reverse ++ dot :: m).dropWhile (· != dot) = dot :: m := fun m => by
    rw [List.dropWhile_append_of_pos hall]
    simp
  have hreverse : (n ++ dot :: e).reverse = e.reverse ++ dot :: n.reverse := by simp
  rw [partName]
  simp only [hreverse, htake, hdrop]
  cases hm : n.reverse with
  | nil => exact absurd (List.reverse_eq_nil_iff.1 hm) hn
  | cons b m => simp

namespace Scanner

open Path

variable {keyword extension : String} {text r : String} {l : List Char}

/-- The extension without the dots at its front, as that of the files that dotted references stand for. -/
def undotted (extension : String) : String := String.ofList (extension.toList.dropWhile (· == '.'))

theorem ofModules_eq_ok_iff {s : Scanner} : ofModules keyword extension = .ok s ↔
    patternSize keyword ≤ patternLimit ∧ s = dotted keyword (undotted extension) := by
  rw [ofModules]
  split
  · next h => simp [Nat.not_le.2 h]
  · next h => simp [Nat.not_lt.1 h, undotted, eq_comm]

theorem toList_undotted : (undotted extension).toList = extension.toList.dropWhile (· == '.') :=
  String.toList_ofList

theorem head?_undotted : (undotted extension).toList.head? ≠ some '.' := by
  intro h
  have hhead := List.head?_dropWhile_not (· == '.') extension.toList
  rw [← toList_undotted, h] at hhead
  cases hhead

theorem undotted_eq_iff : undotted extension = extension ↔ extension.toList.head? ≠ some '.' := by
  constructor
  · exact fun h => h ▸ head?_undotted
  · intro h
    rw [← String.toList_inj, toList_undotted]
    cases hlist : extension.toList with
    | nil => rfl
    | cons c l =>
      have hc : ¬ (c == '.') = true := by simpa [hlist] using h
      exact List.dropWhile_cons_of_neg hc

theorem mem_of_mem_undotted {c : Char} (h : c ∈ (undotted extension).toList) : c ∈ extension.toList :=
  (List.dropWhile_sublist _).subset (toList_undotted ▸ h)

/-- Whether characters are a letter that a dotted name can start with, and others that can follow. -/
def IsDotted (l : List Char) : Prop :=
  ∃ first more, l = first :: more ∧ Unicode.isUppercase first = true ∧ ∀ c ∈ more, isNameChar c = true

theorem isDotted_of_mem_references (h : r ∈ (dotted keyword extension).references text) :
    IsDotted r.toList := by
  obtain ⟨line, -, hline⟩ := List.mem_filterMap.1 h
  obtain ⟨found, hfound, rfl⟩ := Option.map_eq_some_iff.1 hline
  rw [String.toList_ofList]
  change dottedReference? keyword.toList line = some found at hfound
  rw [dottedReference?] at hfound
  split at hfound
  · split at hfound
    · cases hfound
    · next c rest hrest =>
      split at hfound
      · split at hfound
        · cases hfound
        · next first more hmore =>
          refine ⟨first, more.takeWhile isNameChar, (Option.some.inj hfound).symm, ?_, fun c hc => ?_⟩
          · have hfirst := List.head?_dropWhile_not (fun c => !Unicode.isUppercase c) rest
            rw [hmore] at hfirst
            simpa using hfirst
          · exact List.all_eq_true.1 List.all_takeWhile c hc
      · cases hfound
  · cases hfound

set_option maxRecDepth 4000 in
/-- A separator is in no dotted name, and a dot starts none. -/
theorem not_isNameChar_separator : isNameChar '/' = false ∧ Unicode.isUppercase '/' = false ∧
    Unicode.isUppercase '.' = false := by
  decide

theorem IsDotted.separator_not_mem (h : IsDotted l) : '/' ∉ l := by
  obtain ⟨first, more, rfl, hfirst, hmore⟩ := h
  rintro (_ | ⟨_, hmem⟩)
  · exact Bool.false_ne_true (not_isNameChar_separator.2.1.symm.trans hfirst)
  · exact Bool.false_ne_true (not_isNameChar_separator.1.symm.trans (hmore _ hmem))

theorem IsDotted.head?_ne (h : IsDotted l) : l.head? ≠ some '.' := by
  obtain ⟨first, more, rfl, hfirst, -⟩ := h
  rintro ⟨⟩
  exact Bool.false_ne_true (not_isNameChar_separator.2.2.symm.trans hfirst)

/-- What stands between dots is what stands between separators once each dot is one. -/
theorem splitAt_map_dots (h : '/' ∉ l) :
    splitAt '/' (l.map fun c => if c = '.' then '/' else c) = splitAt '.' l := by
  induction l with
  | nil => rfl
  | cons c l ih =>
    rw [List.mem_cons, not_or] at h
    have ih := ih h.2
    rw [splitAt, splitAt] at ih ⊢
    rw [List.map_cons, splitWhere, splitWhere, ih]
    by_cases hc : c = '.'
    · simp [hc]
    · simp [hc, Ne.symm h.1]

variable {init : List (List Char)} {last : List Char}

/-- The pieces of the path that a reference stands for: what stands between its dots, with the extension at
    the last one. -/
theorem splitAt_candidate (hr : '/' ∉ r.toList) (he : '/' ∉ extension.toList)
    (hsplit : splitAt '.' r.toList = init ++ [last]) :
    splitAt separator ((dotted keyword extension).candidate r).bytes =
      (init ++ [last ++ '.' :: extension.toList]).map fun piece => Bytes.ofText (String.ofList piece) := by
  obtain ⟨init', last', hlast⟩ :=
    exists_splitAt_append '/' (r.toList.map fun c => if c = '.' then '/' else c)
  have hnone := hlast [] (by simp)
  rw [List.append_nil, List.append_nil, splitAt_map_dots hr, hsplit] at hnone
  obtain ⟨rfl, hlasts⟩ := List.append_inj' hnone rfl
  obtain rfl : last = last' := by simpa using hlasts
  have htext : String.ofList (r.toList.map fun c => if c = '.' then '/' else c) ++ "." ++ extension =
      String.ofList ((r.toList.map fun c => if c = '.' then '/' else c) ++ '.' :: extension.toList) := by
    apply String.toList_inj.1
    simp
  change splitAt (UInt8.ofNat '/'.toNat) (Bytes.ofText (_ ++ "." ++ extension)) = _
  rw [htext, Bytes.splitAt_ofText (by decide), hlast _ (by simpa using he)]

theorem exists_splitAt_dot (l : List Char) : ∃ init last, splitAt '.' l = init ++ [last] ∧
    (∀ piece ∈ init, '.' ∉ piece) ∧ '.' ∉ last := by
  have hdots : ∀ piece ∈ splitAt '.' l, '.' ∉ piece := fun piece hp hdot => by
    simpa using not_of_mem_splitWhere hp hdot
  rcases List.eq_nil_or_concat (splitAt '.' l) with hnil | ⟨init, last, h⟩
  · exact absurd hnil (splitWhere_ne_nil _ l)
  · rw [List.concat_eq_append] at h
    rw [h] at hdots
    exact ⟨init, last, h, fun piece hp => hdots piece (by simp [hp]), hdots last (by simp)⟩

/-- What stands after the last dot is at the end, and a dot before it, if there is one. -/
theorem exists_of_splitAt_dot (h : splitAt '.' l = init ++ [last]) :
    l = last ∨ ∃ before, l = before ++ '.' :: last := by
  rw [← joinWith_splitAt '.' l, h]
  cases init with
  | nil => exact .inl rfl
  | cons piece init => exact .inr ⟨_, joinWith_append (by simp) (by simp)⟩

/-- The path that a reference stands for is written from a letter on. -/
theorem exists_head?_candidate (hr : IsDotted r.toList) :
    ∃ b, ((dotted keyword extension).candidate r).bytes.head? = some b ∧ b ≠ separator ∧ b ≠ dot := by
  have hslash := hr.separator_not_mem
  have hdot := hr.head?_ne
  obtain ⟨first, more, hlist, -, -⟩ := hr
  rw [hlist] at hslash hdot
  have hne : first ≠ '/' ∧ first ≠ '.' := by
    refine ⟨?_, ?_⟩ <;> rintro rfl <;> simp at hslash hdot
  have hbytes : ∃ rest, ((dotted keyword extension).candidate r).bytes =
      String.utf8EncodeChar first ++ rest := by
    change ∃ rest, Bytes.ofText _ = _
    rw [Bytes.ofText_eq_flatMap, String.toList_append, String.toList_append, String.toList_ofList, hlist,
      List.map_cons, if_neg hne.2]
    simp
  obtain ⟨rest, hbytes⟩ := hbytes
  obtain ⟨b, bs, hb⟩ := List.exists_cons_of_ne_nil (String.utf8EncodeChar_ne_nil (c := first))
  have hmem : b ∈ String.utf8EncodeChar first := hb ▸ List.mem_cons_self
  refine ⟨b, by rw [hbytes, hb]; rfl, ?_, ?_⟩
  · rintro rfl
    exact hne.1 ((Bytes.ofNat_mem_utf8EncodeChar_iff (c := '/') (by decide)).1 hmem)
  · rintro rfl
    exact hne.2 ((Bytes.ofNat_mem_utf8EncodeChar_iff (c := '.') (by decide)).1 hmem)

theorem not_isAbsolute_candidate (hr : IsDotted r.toList) :
    ((dotted keyword extension).candidate r).isAbsolute = false := by
  obtain ⟨b, hhead, hsep, -⟩ := @exists_head?_candidate keyword extension r hr
  simp [isAbsolute, hhead, hsep]

theorem components_candidate (hr : IsDotted r.toList) :
    ((dotted keyword extension).candidate r).components =
      (splitAt separator ((dotted keyword extension).candidate r).bytes).filterMap pieceComponent? := by
  obtain ⟨b, hhead, hsep, hdot⟩ := exists_head?_candidate hr
  exact components_of_head?_ordinary hhead hsep hdot

section

variable (hr : IsDotted r.toList) (he : '/' ∉ extension.toList)

include hr he

/-- The file that a dotted reference stands for is below where it is looked for. -/
theorem isName_of_mem_candidate (hdot : extension.toList.head? ≠ some '.') :
    ∀ c ∈ ((dotted keyword extension).candidate r).components, ∃ n, c = .name n := by
  obtain ⟨init, last, hsplit, hinit, hlast⟩ := exists_splitAt_dot r.toList
  have hup : ∀ piece ∈ init ++ [last ++ '.' :: extension.toList], piece ≠ ['.', '.'] := by
    intro piece hpiece heq
    rcases List.mem_append.1 hpiece with hmem | hmem
    · exact hinit piece hmem (by simp [heq])
    · obtain rfl := List.mem_singleton.1 hmem
      cases last with
      | nil => simp [List.cons.inj heq] at hdot
      | cons c last =>
        obtain rfl := (List.cons.inj heq).1
        simp at hlast
  intro c hc
  rw [components_candidate hr, splitAt_candidate hr.separator_not_mem he hsplit] at hc
  obtain ⟨_, hmem, hcomponent⟩ := List.mem_filterMap.1 hc
  obtain ⟨piece, hpiece, rfl⟩ := List.mem_map.1 hmem
  have hne : Bytes.ofText (String.ofList piece) ≠ upPiece := fun h => by
    have hupPiece : upPiece = Bytes.ofText (String.ofList ['.', '.']) := by decide
    rw [hupPiece, Bytes.ofText_inj, String.ofList_inj] at h
    exact hup piece hpiece h
  rw [pieceComponent?, if_neg hne] at hcomponent
  split at hcomponent
  · cases hcomponent
  · exact ⟨_, (Option.some.inj hcomponent).symm⟩

/-- The file that a dotted reference stands for has the extension, if that is without dots and the reference
    does not end in one. -/
theorem extension?_candidate (hdots : '.' ∉ extension.toList) (hend : r.toList.getLast? ≠ some '.') :
    ((dotted keyword extension).candidate r).extension? = some (Bytes.ofText extension) := by
  obtain ⟨init, last, hsplit, -, hlast⟩ := exists_splitAt_dot r.toList
  have hlastne : last ≠ [] := by
    rintro rfl
    obtain ⟨first, more, hlist, -⟩ := hr
    rcases exists_of_splitAt_dot hsplit with hnil | ⟨before, hbefore⟩
    · cases hlist.symm.trans hnil
    · exact hend (by rw [hbefore]; simp)
  have hname : IsName (Bytes.ofText (String.ofList (last ++ '.' :: extension.toList))) := by
    have hslash : '/' ∉ last := fun hmem => hr.separator_not_mem <| by
      rcases exists_of_splitAt_dot hsplit with hlist | ⟨before, hlist⟩ <;> simp [hlist, hmem]
    obtain ⟨c, rest, rfl⟩ := List.exists_cons_of_ne_nil hlastne
    refine isName_ofText (by simp) (by simp_all) (by simp) fun heq => ?_
    obtain rfl := (List.cons.inj heq).1
    simp at hlast
  have hbytes : Bytes.ofText (String.ofList (last ++ '.' :: extension.toList)) =
      Bytes.ofText (String.ofList last) ++ dot :: Bytes.ofText extension := by
    rw [Bytes.ofText_ofList, Bytes.ofText_ofList, Bytes.ofText_eq_flatMap, List.flatMap_append,
      List.flatMap_cons, Bytes.utf8EncodeChar_of_lt (by decide)]
    rfl
  have hfile : ((dotted keyword extension).candidate r).fileName? =
      some (Bytes.ofText (String.ofList (last ++ '.' :: extension.toList))) := by
    rw [fileName?, components_candidate hr, splitAt_candidate hr.separator_not_mem he hsplit, List.map_append,
      List.filterMap_append, List.map_singleton, List.filterMap_cons_some hname.pieceComponent?]
    simp
  rw [extension?, hfile, Option.bind_some, hbytes, partName_append]
  · intro hnil
    exact hlastne (String.ofList_inj.1 (Bytes.ofText_inj.1 (hnil : _ = Bytes.ofText (String.ofList []))))
  · exact fun hmem => hdots ((Bytes.ofNat_mem_ofText_iff (c := '.') (by decide)).1 hmem)

end

end Scanner

end ImportIndex
