import ImportIndex.Project
import ImportIndex.Proofs.Path.Normal

/-!
# Where artifacts are

The artifact of a source below the output root is at the location of the source there, with the
suffix of its kind at the last name (`artifact_eq_ofLocation`). So no two artifacts are at one place
(`artifact_inj`), an artifact tells its source (`source?_artifact`), and the trace file is none of
them (`traceFile_ne_artifact`).
-/

namespace ImportIndex

/-- What stands in a text before a byte that begins a character is a text. -/
theorem Bytes.exists_text_of_append {b : Bytes} {x : UInt8} {e : Bytes} {text : String}
    (hx : x.IsUTF8FirstByte) (h : b ++ x :: e = ofText text) : ∃ s, b = ofText s := by
  have hbytes : text.toByteArray.data.toList = b ++ x :: e := by rw [h, ofText, ofArray_eq]
  have hsize : text.toByteArray.size = b.length + (e.length + 1) := by
    simpa using congrArg List.length hbytes
  have hlen : b.length < text.toByteArray.size := by omega
  have hvalid : (String.Pos.Raw.mk b.length).IsValid text := by
    refine String.Pos.Raw.isValid_iff_isUTF8FirstByte.2 (.inr ⟨hlen, ?_⟩)
    have hbyte : text.toByteArray[b.length] = x := by
      simp [ByteArray.getElem_eq_getElem_data, ← Array.getElem_toList, hbytes]
    change text.toByteArray[b.length].IsUTF8FirstByte
    rwa [hbyte]
  refine ⟨⟨_, hvalid.isValidUTF8_extract_zero⟩, ?_⟩
  rw [ofText, ofArray_eq]
  simp [hbytes]

namespace ArtifactKind

open Path

variable {kind other : ArtifactKind} {out F G : Path} {o l m : List Bytes}

/-- The bytes of the suffix. -/
def ending (kind : ArtifactKind) : Bytes := Bytes.ofText kind.suffix

/-- The names of a source with the suffix at the last one. -/
def suffixed (kind : ArtifactKind) (names : List Bytes) : List Bytes :=
  names.dropLast ++ [names.getLastD [] ++ kind.ending]

theorem separator_not_mem_ending : separator ∉ kind.ending := by
  cases kind <;> decide

theorem getLast?_ending : kind.ending.getLast? = some 0x73 := by
  cases kind <;> decide

theorem getLast?_artifact {out F : Path} : (kind.artifact out F).bytes.getLast? = some 0x73 := by
  rw [artifact, List.getLast?_append]
  exact congrArg (Option.or · _) getLast?_ending

theorem length_ending : 2 < kind.ending.length := by
  cases kind <;> decide

/-- Suffixes of different kinds differ before the bytes that they share. -/
theorem ending_inj {a b : Bytes} (h : a ++ kind.ending = b ++ other.ending) :
    kind = other ∧ a = b := by
  have hkind : kind = other := by
    have hrev := congrArg (fun l : Bytes => l.reverse[7]?) h
    simp only [List.reverse_append] at hrev
    rw [List.getElem?_append_left (by cases kind <;> decide),
      List.getElem?_append_left (by cases other <;> decide)] at hrev
    revert hrev
    cases kind <;> cases other <;> decide
  subst hkind
  exact ⟨rfl, List.append_cancel_right h⟩

theorem isName_append_ending {n : Bytes} (h : n = [] ∨ IsName n) : IsName (n ++ kind.ending) := by
  have hlen := @length_ending kind
  refine ⟨fun he => ?_, fun hs => ?_, fun he => ?_, fun he => ?_⟩
  · have := congrArg List.length he
    simp only [List.length_append, List.length_nil] at this
    omega
  · rcases List.mem_append.1 hs with hs | hs
    · rcases h with rfl | h
      · contradiction
      · exact h.2.1 hs
    · exact separator_not_mem_ending hs
  · have := congrArg List.length he
    simp only [List.length_append, herePiece, List.length_cons, List.length_nil] at this
    omega
  · have := congrArg List.length he
    simp only [List.length_append, upPiece, List.length_cons, List.length_nil] at this
    omega

theorem getLastD_eq_nil_or_isName (h : ∀ n ∈ m, IsName n) :
    m.getLastD [] = [] ∨ IsName (m.getLastD []) := by
  rcases List.eq_nil_or_concat m with rfl | ⟨m, n, rfl⟩
  · exact .inl rfl
  · exact .inr (h _ (by simp))

theorem isName_of_mem_suffixed (h : ∀ n ∈ m, IsName n) : ∀ n ∈ kind.suffixed m, IsName n := by
  intro n hn
  rcases List.mem_append.1 hn with hn | hn
  · exact h n (List.dropLast_subset _ hn)
  · obtain rfl := List.mem_singleton.1 hn
    exact isName_append_ending (getLastD_eq_nil_or_isName h)

theorem suffixed_ne_nil : kind.suffixed m ≠ [] := by simp [suffixed]

theorem joinWith_concat_append {α : Type} (sep : α) (ls : List (List α)) (n s : List α) :
    joinWith sep (ls ++ [n ++ s]) = joinWith sep (ls ++ [n]) ++ s := by
  cases ls with
  | nil => rfl
  | cons a ls =>
    rw [joinWith_append (by simp) (by simp), joinWith_append (by simp) (by simp)]
    simp [joinWith]

theorem ofLocation_concat_append (n s : Bytes) :
    ofLocation (l ++ [n ++ s]) = ⟨(ofLocation (l ++ [n])).bytes ++ s⟩ := by
  rw [ofLocation, joinWith_concat_append]
  rfl

theorem bytes_ofNames_suffixed :
    (ofNames (kind.suffixed m)).bytes = (ofNames m).bytes ++ kind.ending := by
  rw [ofNames, suffixed, joinWith_concat_append]
  rcases List.eq_nil_or_concat m with rfl | ⟨m, n, rfl⟩
  · rfl
  · simp [ofNames]

/-- Names with a suffix tell the kind and the names. -/
theorem suffixed_inj (hl : ∀ n ∈ l, IsName n) (hm : ∀ n ∈ m, IsName n)
    (h : kind.suffixed l = other.suffixed m) : kind = other ∧ l = m := by
  have hbytes := congrArg (fun names => (ofNames names).bytes) h
  simp only [bytes_ofNames_suffixed] at hbytes
  obtain ⟨hkind, hbytes⟩ := ending_inj hbytes
  refine ⟨hkind, ofNames_injective hl hm ?_⟩
  exact congrArg Path.mk hbytes

/-- The artifact of a source below the output root. -/
theorem artifact_eq_ofLocation (ho : ∀ n ∈ o, IsName n) (hm : ∀ n ∈ m, IsName n) :
    kind.artifact (ofLocation o) (ofNames m) = ofLocation (o ++ kind.suffixed m) := by
  rw [artifact, suffixed, ← List.append_assoc, ofLocation_concat_append]
  rcases List.eq_nil_or_concat m with rfl | ⟨m, n, rfl⟩
  · -- The path of an empty source ends in a separator, before which there may be nothing.
    rw [List.dropLast_nil, List.append_nil, join, not_isAbsolute_ofNames (by simp)]
    simp only [Bool.false_eq_true, if_false]
    rcases List.eq_nil_or_concat o with rfl | ⟨o, n, rfl⟩
    · rfl
    · have hend := endsInSeparator_ofLocation (l := o) (ho n (by simp))
      rw [endsInSeparator] at hend
      rw [List.concat_eq_append]
      cases hlast : (ofLocation (o ++ [n])).bytes.getLast? with
      | none => simp [ofLocation] at hlast
      | some b =>
        have hb : b ≠ separator := by simpa [hlast] using hend
        simp only [hb, if_false]
        have hjoin : joinWith separator ((o ++ [n]) ++ [[]]) =
            joinWith separator (o ++ [n]) ++ separator :: joinWith separator [[]] :=
          joinWith_append (by simp) (by simp)
        rw [ofLocation, ofLocation, List.getLastD_nil, hjoin]
        simp [ofNames, joinWith, ending]
  · rw [join_ofLocation ho hm (by simp)]
    simp [ofLocation, ending]

theorem isPlace_artifact (hout : out.IsPlace) (hF : F.IsBelow) : (kind.artifact out F).IsPlace := by
  obtain ⟨o, ho, rfl⟩ := hout.exists_eq
  obtain ⟨m, hm, rfl⟩ := hF.exists_eq
  rw [artifact_eq_ofLocation ho hm]
  exact isPlace_ofLocation fun n hn =>
    (List.mem_append.1 hn).elim (ho n) (isName_of_mem_suffixed hm n)

/-- An artifact tells its kind and its source. -/
theorem artifact_inj (hout : out.IsPlace) (hF : F.IsBelow) (hG : G.IsBelow)
    (h : kind.artifact out F = other.artifact out G) : kind = other ∧ F = G := by
  obtain ⟨o, ho, rfl⟩ := hout.exists_eq
  obtain ⟨l, hl, rfl⟩ := hF.exists_eq
  obtain ⟨m, hm, rfl⟩ := hG.exists_eq
  rw [artifact_eq_ofLocation ho hl, artifact_eq_ofLocation ho hm] at h
  have hname := fun {kind : ArtifactKind} {m : List Bytes} (hm : ∀ n ∈ m, IsName n) =>
    fun n (hn : n ∈ o ++ kind.suffixed m) =>
      (List.mem_append.1 hn).elim (ho n) (isName_of_mem_suffixed hm n)
  have hcs := congrArg components h
  rw [components_ofLocation (hname hl), components_ofLocation (hname hm)] at hcs
  have hnames := List.map_inj_right (fun _ _ h => Component.name.inj h) |>.1 (List.cons.inj hcs).2
  obtain ⟨rfl, rfl⟩ := suffixed_inj hl hm (List.append_cancel_left hnames)
  exact ⟨rfl, rfl⟩

/-- Artifacts that are the same path are of one kind, and of one source. -/
theorem artifact_inj_of_same (hout : out.IsPlace) (hF : F.IsBelow) (hG : G.IsBelow)
    (h : (kind.artifact out F).Same (other.artifact out G)) : kind = other ∧ F = G :=
  artifact_inj hout hF hG ((isPlace_artifact hout hF).eq_of_same (isPlace_artifact hout hG) h)

/-- The source that an artifact tells is the one it was made for. -/
theorem source?_artifact (hout : out.IsPlace) (hF : F.IsBelow)
    (h : other.source? out (kind.artifact out F) = some G) : other = kind ∧ G = F := by
  obtain ⟨o, ho, rfl⟩ := hout.exists_eq
  obtain ⟨m, hm, rfl⟩ := hF.exists_eq
  rw [source?, artifact_eq_ofLocation ho hm, stripStart?_ofLocation ho (isName_of_mem_suffixed hm),
    Option.bind_eq_bind, Option.bind_some, bytes_ofNames_suffixed] at h
  simp only [Option.bind_eq_bind, Option.bind_eq_some_iff] at h
  obtain ⟨-, -, source, hsource, h⟩ := h
  rw [Bytes.dropEnd?] at hsource
  split at hsource
  · next hs =>
    obtain ⟨b, hb⟩ := List.isSuffixOf_iff_suffix.1 hs
    obtain ⟨hkind, rfl⟩ := ending_inj hb
    subst hkind
    split at h
    · contradiction
    · obtain rfl := Option.some.inj h
      obtain rfl := Option.some.inj hsource
      refine ⟨rfl, congrArg Path.mk ?_⟩
      simp [ending, ofNames]
  · contradiction

/-- An artifact whose path is a text tells the source it was made for. -/
theorem source?_artifact_eq (hout : out.IsPlace) (hF : F.IsBelow) (hne : F.bytes ≠ []) {text : String}
    (ht : F.toText? = some text) : kind.source? out (kind.artifact out F) = some F := by
  obtain ⟨o, ho, rfl⟩ := hout.exists_eq
  obtain ⟨m, hm, rfl⟩ := hF.exists_eq
  have htext : (ofNames (kind.suffixed m)).toText? = some (text ++ kind.suffix) := by
    rw [toText?, Bytes.toText?_eq_some_iff] at ht ⊢
    rw [bytes_ofNames_suffixed, ht, Bytes.ofText, Bytes.ofText, ending, Bytes.ofText]
    simp [Bytes.ofArray_eq]
  have hend : (ofNames m).bytes.getLast? ≠ some separator := by
    rcases List.eq_nil_or_concat m with rfl | ⟨m, n, rfl⟩
    · exact absurd rfl hne
    · have hn := not_endsInSeparator (b := []) (p := ofNames (m ++ [n])) (l := m) rfl
        (hm n (by simp))
      simpa [endsInSeparator] using hn
  rw [source?, artifact_eq_ofLocation ho hm, stripStart?_ofLocation ho (isName_of_mem_suffixed hm),
    Option.bind_eq_bind, Option.bind_some, htext, bytes_ofNames_suffixed]
  simp [Bytes.dropEnd?, hne, hend, ending]

/-- A source that its artifact tells has a path that is a text, and not empty. -/
theorem exists_text_of_source? (hout : out.IsPlace) (hF : F.IsBelow)
    (h : kind.source? out (kind.artifact out F) = some F) :
    F.bytes ≠ [] ∧ ∃ text, F.toText? = some text := by
  obtain ⟨o, ho, rfl⟩ := hout.exists_eq
  obtain ⟨m, hm, rfl⟩ := hF.exists_eq
  rw [source?, artifact_eq_ofLocation ho hm, stripStart?_ofLocation ho (isName_of_mem_suffixed hm),
    Option.bind_eq_bind, Option.bind_some] at h
  simp only [Option.bind_eq_bind, Option.bind_eq_some_iff] at h
  obtain ⟨text, htext, source, -, h⟩ := h
  split at h
  · cases h
  · next hne =>
    obtain rfl := Path.mk.inj (Option.some.inj h)
    refine ⟨(not_or.1 hne).1, ?_⟩
    rw [toText?, Bytes.toText?_eq_some_iff, bytes_ofNames_suffixed] at htext
    have hdot : kind.ending = 0x2E :: kind.ending.tail := by cases kind <;> decide
    rw [hdot] at htext
    obtain ⟨s, hs⟩ := Bytes.exists_text_of_append (by decide) htext
    exact ⟨s, Bytes.toText?_eq_some_iff.2 hs⟩

end ArtifactKind

namespace Project

open Path

variable {project : Project} {kind : ArtifactKind} {F : Path}

/-- The directories of a project are places if its root is absolute. -/
theorem isPlace_dir (h : project.root.isAbsolute = true) (p : Path) : (project.dir p).IsPlace :=
  isPlace_normalize (isAbsolute_join h p)

theorem isPlace_outputRoot (h : project.root.isAbsolute = true) : project.outputRoot.IsPlace :=
  isPlace_dir h _

theorem isName_traceFileName : IsName traceFileName.bytes := by
  refine ⟨?_, ?_, ?_, ?_⟩ <;> decide

theorem getLast?_traceFileName : traceFileName.bytes.getLast? = some 0x6E := by decide

theorem exists_traceFile_eq (h : project.outputRoot.IsPlace) : ∃ o, (∀ n ∈ o, IsName n) ∧
    project.outputRoot = ofLocation o ∧
      project.traceFile = ofLocation (o ++ [traceFileName.bytes]) := by
  obtain ⟨o, ho, hout⟩ := h.exists_eq
  refine ⟨o, ho, hout, ?_⟩
  rw [traceFile, hout, ← join_ofLocation ho (m := [traceFileName.bytes])
    (by simpa using isName_traceFileName) (by simp)]
  rfl

theorem isPlace_traceFile (h : project.outputRoot.IsPlace) : project.traceFile.IsPlace := by
  obtain ⟨o, ho, -, htrace⟩ := exists_traceFile_eq h
  rw [htrace]
  refine isPlace_ofLocation fun n hn => ?_
  rcases List.mem_append.1 hn with hn | hn
  · exact ho n hn
  · exact List.mem_singleton.1 hn ▸ isName_traceFileName

theorem getLast?_traceFile (h : project.outputRoot.IsPlace) :
    project.traceFile.bytes.getLast? = some 0x6E := by
  obtain ⟨o, -, -, htrace⟩ := exists_traceFile_eq h
  rw [htrace, ofLocation, List.getLast?_cons, getLast?_joinWith isName_traceFileName.1,
    getLast?_traceFileName]
  rfl

/-- The trace file is no artifact. -/
theorem traceFile_ne_artifact (h : project.outputRoot.IsPlace) :
    project.traceFile ≠ kind.artifact project.outputRoot F := by
  intro heq
  have hlast := congrArg (fun p => (Path.bytes p).getLast?) heq
  rw [getLast?_traceFile h, ArtifactKind.getLast?_artifact] at hlast
  cases hlast

end Project

end ImportIndex
