import ImportIndex.Proofs.Build.History
import ImportIndex.Proofs.Json.Yields

/-!
# Traces in the trace file

Traces can be stored exactly if all of their paths are texts (`TraceTable.isSome_text?_iff`). Those
that come out of a trace file are, whatever is in the file (`TraceTable.textual_load`): its reader
takes paths from texts only, in whichever of the many spellings of the format it finds them.

So storing and loading undo one another (`TraceTable.save_load`): what was stored is what is
loaded, storing it again writes nothing, and what was loaded can be stored. Traces with a path that is
no text are not stored, and the disk stays as it is.
-/

namespace ImportIndex

open Json.Reader

/-- Whether the spelling of a path is a text. -/
def Path.IsText (p : Path) : Prop := p.toText?.isSome

instance {p : Path} : Decidable p.IsText := inferInstanceAs (Decidable (_ = true))

theorem Path.isText_ofText (text : String) : (ofText text).IsText := by
  rw [IsText, toText?, ofText, Bytes.toText?_ofText]
  rfl

/-- Whether all of a list is mapped to something. -/
theorem isSome_mapM_iff {α β : Type} {f : α → Option β} {l : List α} :
    (l.mapM f).isSome ↔ ∀ a ∈ l, (f a).isSome := by
  induction l with
  | nil => simp [pure]
  | cons a l ih =>
    rw [List.mapM_cons, List.forall_mem_cons, ← ih]
    cases f a <;> cases l.mapM f <;> simp

/-! ### Traces that can be written -/

theorem Dependency.isSome_toJson?_iff {d : Dependency} : d.toJson?.isSome ↔ d.path.IsText := by
  cases d <;> exact Bool.eq_iff_iff.1 Option.isSome_map

/-- Whether all paths that a trace tells of are texts. -/
def Trace.Textual (trace : Trace) : Prop := ∀ d ∈ trace.deps, d.path.IsText

theorem Trace.isSome_toJson?_iff {trace : Trace} : trace.toJson?.isSome ↔ trace.Textual := by
  rw [toJson?, Option.isSome_map, isSome_mapM_iff]
  exact forall₂_congr fun _ _ => Dependency.isSome_toJson?_iff

namespace TraceTable

variable {traces : TraceTable} {p : Path} {trace : Trace}

/-- Whether all targets, and all paths that their traces tell of, are texts. -/
def Textual (traces : TraceTable) : Prop := ∀ e ∈ traces.entries, e.1.IsText ∧ e.2.Textual

/-- Traces can be written if their paths are texts, and only then. -/
theorem isSome_text?_iff : traces.text?.isSome ↔ traces.Textual := by
  have hentry : ∀ e : Path × Trace,
      (do return ((← e.1.toText?), (← e.2.toJson?)) : Option (String × Json)).isSome ↔
        e.1.IsText ∧ e.2.Textual := by
    intro e
    rw [← Trace.isSome_toJson?_iff, Path.IsText]
    cases e.1.toText? <;> cases e.2.toJson? <;> simp
  have hmembers : traces.text?.isSome ↔
      (traces.entries.mapM fun e => do return ((← e.1.toText?), (← e.2.toJson?)) :
        Option (List (String × Json))).isSome := by
    rw [text?]
    cases (traces.entries.mapM fun e => do return ((← e.1.toText?), (← e.2.toJson?)) :
      Option (List (String × Json))) <;> simp
  rw [hmembers, isSome_mapM_iff]
  exact forall₂_congr fun e _ => hentry e

theorem text?_eq_none_iff : traces.text? = none ↔ ¬ traces.Textual := by
  rw [← isSome_text?_iff, Option.not_isSome_iff_eq_none]

theorem textual_empty : Textual ∅ := by
  intro e he
  have hget := (PathTable.mem_entries.1 he).2
  rw [PathTable.get?_empty] at hget
  cases hget

/-- A trace is put under the spelling of its target that is there, or under the new one. -/
theorem Textual.insert (h : traces.Textual) (hp : p.IsText) (htrace : trace.Textual) :
    Textual (PathTable.insert traces p trace) := by
  intro e he
  obtain ⟨hspelling, hget⟩ := PathTable.mem_entries.1 he
  by_cases hsame : p.Same e.1
  · rw [PathTable.get?_insert_of_same hsame] at hget
    rw [PathTable.spelling?_insert_of_same hsame] at hspelling
    obtain rfl := Option.some.inj hget
    refine ⟨?_, htrace⟩
    cases hold : traces.spelling? e.1 with
    | none =>
      rw [hold] at hspelling
      exact Option.some.inj hspelling ▸ hp
    | some q =>
      rw [hold] at hspelling
      obtain rfl : q = e.1 := Option.some.inj hspelling
      obtain ⟨trace, htrace⟩ : ∃ trace, traces.get? e.1 = some trace := by
        rw [← Option.isSome_iff_exists, ← PathTable.contains_eq_isSome_get?,
          PathTable.contains_eq_isSome_spelling?, hold]
        rfl
      exact (h (e.1, trace) (PathTable.mem_entries.2 ⟨hold, htrace⟩)).1
  · rw [PathTable.get?_insert_of_not_same hsame] at hget
    rw [PathTable.spelling?_insert_of_not_same hsame] at hspelling
    exact h e (PathTable.mem_entries.2 ⟨hspelling, hget⟩)

end TraceTable

/-! ### Traces that are read -/

theorem exists_of_bind_eq_ok {ε α β : Type} {x : Except ε α} {f : α → Except ε β} {b : β}
    (h : (x >>= f) = .ok b) : ∃ a, x = .ok a ∧ f a = .ok b := by
  cases x with
  | error e => cases h
  | ok a => exact ⟨a, rfl, h⟩

namespace Dependency

variable {kind : Kind} {d : Dependency}

theorem isText_of_pathOf {j : Json} {p : Path} (h : pathOf j = .ok p) : p.IsText := by
  cases j <;> cases h
  exact Path.isText_ofText _

theorem path_of_withAnswer {j : Json} {f : Path → Dependency} (h : kind.withAnswer j = .ok f)
    (p : Path) : (f p).path = p := by
  cases kind <;> cases j <;> cases h <;> rfl

theorem isText_of_ofItems {items : List Json} (h : ofItems kind items = .ok d) : d.path.IsText := by
  match items with
  | [] => cases h
  | [path] =>
    obtain ⟨p, -, h⟩ := exists_of_bind_eq_ok h
    cases h
  | path :: answer :: rest =>
    obtain ⟨p, hp, h⟩ := exists_of_bind_eq_ok h
    obtain ⟨f, hf, h⟩ := exists_of_bind_eq_ok h
    split at h
    · obtain rfl := Except.ok.inj h
      rw [path_of_withAnswer hf]
      exact isText_of_pathOf hp
    · cases h

/-- Whether the members that were read so far are a path that is a text, and something that any path
    may be put into. -/
structure Parts.Textual (parts : Parts) : Prop where
  path : ∀ p, parts.path = some p → p.IsText
  dependency : ∀ f, parts.dependency = some f → ∀ p, (f p).path = p

theorem Parts.Textual.add {parts parts' : Parts} {member : String × Json} (hparts : parts.Textual)
    (h : Parts.add kind parts member = .ok parts') : parts'.Textual := by
  rw [Parts.add] at h
  split at h
  · split at h
    · cases h
    · obtain ⟨p, hp, h⟩ := exists_of_bind_eq_ok h
      obtain rfl := Except.ok.inj h
      exact ⟨fun q hq => Option.some.inj hq ▸ isText_of_pathOf hp, hparts.dependency⟩
  · split at h
    · split at h
      · cases h
      · obtain ⟨f, hf, h⟩ := exists_of_bind_eq_ok h
        obtain rfl := Except.ok.inj h
        exact ⟨hparts.path, fun g hg => Option.some.inj hg ▸ path_of_withAnswer hf⟩
    · obtain rfl := Except.ok.inj h
      exact hparts

theorem Parts.Textual.foldlM {members : List (String × Json)} {parts parts' : Parts}
    (hparts : parts.Textual) (h : members.foldlM (Parts.add kind) parts = .ok parts') :
    parts'.Textual := by
  induction members generalizing parts with
  | nil => exact Except.ok.inj h ▸ hparts
  | cons member members ih =>
    rw [List.foldlM_cons] at h
    obtain ⟨next, hnext, h⟩ := exists_of_bind_eq_ok h
    exact ih (hparts.add hnext) h

theorem isText_of_ofMembers {members : List (String × Json)} (h : ofMembers kind members = .ok d) :
    d.path.IsText := by
  obtain ⟨parts, hfold, h⟩ := exists_of_bind_eq_ok h
  have hparts : parts.Textual := Parts.Textual.foldlM ⟨by simp, by simp⟩ hfold
  rcases hp : parts.path with _ | p
  · simp only [hp] at h
    cases h
  · have htext : p.IsText := hparts.path p hp
    rcases hf : parts.dependency with _ | f
    · simp only [hp, hf] at h
      split at h
      · obtain rfl := Except.ok.inj h
        exact htext
      · cases h
    · simp only [hp, hf] at h
      obtain rfl := Except.ok.inj h
      rw [hparts.dependency f hf]
      exact htext

theorem yields_orStop {x : Except Json.Mismatch Dependency}
    (h : ∀ d, x = .ok d → d.path.IsText) : Yields (orStop x) fun d => d.path.IsText := by
  cases x with
  | ok d => exact .pure (h d rfl)
  | error difference => exact .stopUnplaced

/-- The path of a dependency that is read is a text, whether it is read from an object or from a
    list. -/
theorem yields_reader : Yields Dependency.reader fun d => d.path.IsText := by
  refine .after fun next => ?_
  split
  · exact .after fun _ => .after fun found => yields_orStop fun d => isText_of_ofItems
  · exact .after fun _ => .after fun found => yields_orStop fun d => isText_of_ofMembers
  · exact .mismatched

end Dependency

theorem Trace.yields_reader : Yields Trace.reader Trace.Textual := by
  refine .record ?_ (List.forall_mem_nil _)
  simp only [List.forall_mem_cons]
  refine ⟨fun trace h => ?_, fun trace h => ?_, fun trace _ => ?_, List.forall_mem_nil _⟩
  · exact .after fun _ => .pure h
  · exact .after fun _ => .pure h
  · exact (Yields.list Dependency.yields_reader).bind fun deps hdeps => .pure hdeps

namespace TraceTable

theorem yields_reader : Yields reader fun read => read.2.Textual := by
  have htraces : Yields reader.traces Textual :=
    .object (fun table target htable => .after fun _ => Trace.yields_reader.bind fun trace htrace =>
      .pure (htable.insert (Path.isText_ofText target) htrace)) textual_empty
  refine .record ?_ textual_empty
  simp only [List.forall_mem_cons]
  refine ⟨fun read h => ?_, fun read _ => ?_, List.forall_mem_nil _⟩
  · exact .after fun _ => .pure h
  · exact htraces.bind fun traces h => .pure h

/-- All paths in a trace file are texts, whatever it holds. -/
theorem textual_load (disk : Disk) (p : Path) : (load disk p).Textual := by
  have hread : ∀ traces, TraceTable.read disk p = .ok traces → traces.Textual := by
    intro traces h
    rw [TraceTable.read] at h
    split at h
    · rw [ofText] at h
      split at h
      · next found traces' hrun =>
        split at h
        · exact Except.ok.inj h ▸ yields_reader.run hrun
        · cases h
      · cases h
    · cases h
    · cases h
  rw [load]
  cases h : TraceTable.read disk p with
  | ok traces => exact hread traces h
  | error fault => exact textual_empty

/-- Traces whose paths are texts are stored if their text is written, and fail to be stored as it fails
    to be written. -/
theorem save_of_text? {traces : TraceTable} {text : String} {p : Path} {disk : Disk}
    (h : traces.text? = some text) : traces.save p disk =
      (((Disk.writeIfChanged p (.ofText text) disk).1.map fun _ => ()).mapError fun fault =>
        .saveTraces p fault.message, (Disk.writeIfChanged p (.ofText text) disk).2) := by
  simp only [save, h]
  rcases Disk.writeIfChanged p (.ofText text) disk with ⟨fault | written, disk'⟩ <;> rfl

/-- Storing and loading undo one another. What was stored is what is loaded, every target in its
    spelling, and storing it again writes nothing. Traces with a path that is no text are not stored and
    leave the disk as it is. Whatever was loaded can be stored, if only its text can be written, and is
    loaded again then. So an engine that is opened after a build whose traces could be stored is the one
    that the build left. -/
theorem save_load (traces : TraceTable) (path : Path) (disk : Disk) :
    (∀ disk', traces.save path disk = (.ok (), disk') →
      load disk' path = traces ∧ (load disk' path).entries = traces.entries ∧
        traces.save path disk' = (.ok (), disk') ∧
        ∃ text, traces.text? = some text ∧
          Disk.writeIfChanged path (.ofText text) disk' = (.ok false, disk')) ∧
    ((∃ e ∈ traces.entries, ¬ e.1.IsText ∨ ∃ d ∈ e.2.deps, ¬ d.path.IsText) →
      traces.save path disk = (.error (.saveTraces path notTextReason), disk)) ∧
    (∀ before store, ∃ text, (load before store).text? = some text ∧
      (∀ written disk', Disk.writeIfChanged path (.ofText text) disk = (.ok written, disk') →
        (load before store).save path disk = (.ok (), disk') ∧
          load disk' path = load before store) ∧
      ∀ fault disk', Disk.writeIfChanged path (.ofText text) disk = (.error fault, disk') →
        (load before store).save path disk = (.error (.saveTraces path fault.message), disk')) ∧
    ∀ book depth targets built,
      (Engine.storing book path traces).build depth targets disk = some built →
        built.saved = .ok () → Engine.resume book path built.disk = built.engine := by
  refine ⟨fun disk' hsave => ?_, fun hpath => ?_, fun before store => ?_,
    fun book depth targets built run hsaved => ?_⟩
  · obtain ⟨text, htext, -, hagain, hload⟩ := save_again hsave
    refine ⟨hload, by rw [hload], ?_, text, htext, hagain⟩
    rw [save_of_text? htext, hagain]
    rfl
  · have htext : traces.text? = none := by
      rw [text?_eq_none_iff]
      intro htextual
      obtain ⟨e, he, hpath | ⟨d, hd, hpath⟩⟩ := hpath
      · exact hpath (htextual e he).1
      · exact hpath ((htextual e he).2 d hd)
    simp only [save, htext]
  · obtain ⟨text, htext⟩ :=
      Option.isSome_iff_exists.1 (isSome_text?_iff.2 (textual_load before store))
    refine ⟨text, htext, fun written disk' hwrite => ?_, fun fault disk' hwrite => ?_⟩
    · have hsave : (load before store).save path disk = (.ok (), disk') := by
        rw [save_of_text? htext, hwrite]
        rfl
      obtain ⟨-, -, -, -, hload⟩ := save_again hsave
      exact ⟨hsave, hload⟩
    · rw [save_of_text? htext, hwrite]
      rfl
  · rw [@Engine.resume_of_saved _ book _ _ _ _ path rfl run hsaved]
    obtain ⟨failed, s, -, hengine, -⟩ := Engine.exists_of_build_eq_some run
    rw [hengine]
    rfl

/-- Traces with all kinds of dependencies, and with texts that have to be escaped. -/
def escapedTraces : TraceTable :=
  PathTable.insert ∅ (.ofText "/out//t") {
    rule := "a \"rule\" \\ \x01\n"
    output := "ü"
    deps := [.content (.ofText "/src/\t") none, .content (.ofText "/src/x") (some "\""),
      .presence (.ofText "/src/\\") false, .artifact (.ofText "/out/q") "\x1f"] }

/-- Traces of a target whose path is no text. -/
def unspelledTraces : TraceTable := PathTable.insert ∅ ⟨[0xFF]⟩ ⟨"", "", []⟩

theorem save_load_escaped :
    (∃ disk, escapedTraces.save (.ofText "/out/db") Rulebook.sourceDisk = (.ok (), disk) ∧
      load disk (.ofText "/out/db") = escapedTraces) ∧
    unspelledTraces.save (.ofText "/out/db") Rulebook.sourceDisk =
      (.error (.saveTraces (.ofText "/out/db") notTextReason), Rulebook.sourceDisk) ∧
    (∃ disk, (load Rulebook.sourceDisk (.ofText "/src/x")).save (.ofText "/out/db")
        Rulebook.sourceDisk = (.ok (), disk) ∧ load disk (.ofText "/out/db") = ∅) ∧
    ∃ built, (Engine.storing (Rulebook.lookTwice (.ofText "/src/x")) (.ofText "/out/db")
        escapedTraces).build 2 [.ofText "/out/t"] Rulebook.sourceDisk = some built ∧
      Engine.resume (Rulebook.lookTwice (.ofText "/src/x")) (.ofText "/out/db") built.disk =
        built.engine := by
  have hempty : load Rulebook.sourceDisk (.ofText "/src/x") = ∅ :=
    PathTable.entries_inj.1 (by decide +kernel)
  refine ⟨?_, ?_, ?_, ?_⟩
  · have hsave : (escapedTraces.save (.ofText "/out/db") Rulebook.sourceDisk).1 = .ok () := by
      decide +kernel
    have hsaved := Prod.ext hsave (Eq.refl
      (escapedTraces.save (.ofText "/out/db") Rulebook.sourceDisk).2)
    exact ⟨_, hsaved, ((save_load _ _ _).1 _ hsaved).1⟩
  · have hmem : ((⟨[0xFF]⟩ : Path), (⟨"", "", []⟩ : Trace)) ∈ unspelledTraces.entries := by
      decide +kernel
    exact (save_load _ _ _).2.1 ⟨_, hmem, .inl (by decide +kernel)⟩
  · obtain ⟨text, htext, hstored, -⟩ := (save_load ∅ (.ofText "/out/db") Rulebook.sourceDisk).2.2.1
      Rulebook.sourceDisk (.ofText "/src/x")
    have hwrite : (Disk.writeIfChanged (.ofText "/out/db") (.ofText text) Rulebook.sourceDisk).1 =
        .ok true := by
      have hwrites : (text? ∅).map (fun text => (Disk.writeIfChanged (.ofText "/out/db")
          (.ofText text) Rulebook.sourceDisk).1) = some (.ok true) := by
        decide +kernel
      rw [hempty] at htext
      rw [htext] at hwrites
      exact Option.some.inj hwrites
    obtain ⟨hsave, hload⟩ := hstored true _ (Prod.ext hwrite rfl)
    exact ⟨_, hsave, hload.trans hempty⟩
  · have hrun : ((Engine.storing (Rulebook.lookTwice (.ofText "/src/x")) (.ofText "/out/db")
        escapedTraces).build 2 [.ofText "/out/t"] Rulebook.sourceDisk).map (·.saved) =
          some (.ok ()) := by
      decide +kernel
    obtain ⟨built, run, hsaved⟩ := Option.map_eq_some_iff.1 hrun
    exact ⟨built, run, (save_load _ _ _).2.2.2 _ _ _ _ run hsaved⟩

end TraceTable

end ImportIndex
