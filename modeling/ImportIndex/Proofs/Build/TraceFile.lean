import ImportIndex.Build.TraceFile
import ImportIndex.Proofs.FileTree.Sight
import ImportIndex.Proofs.Json.Reading
import ImportIndex.Proofs.Lists
import ImportIndex.Proofs.Path.Table

/-!
# The trace file is read as it was written

Dependencies, traces and tables of traces are read from what is written of them
(`Dependency.reads_of_toJson?`, `Trace.reads_of_toJson?`), so that the text of a trace file tells the
same traces (`TraceTable.ofText_of_text?`), whatever texts they are made of.
-/

namespace ImportIndex

open Json.Reader

theorem Path.ofText_of_toText? {p : Path} {text : String} (h : p.toText? = some text) :
    Path.ofText text = p := by
  have hbytes := Bytes.toText?_eq_some_iff.1 h
  rw [ofText, ← hbytes]

namespace Dependency

theorem kind_reads (kind : Kind) : Reads Kind.reader (.text kind.name) kind := by
  intro level spaces rest hs hrest
  rw [Kind.reader, bind_of_eq (text_reads kind.name level spaces rest hs hrest)]
  cases kind <;> rfl

/-- The kind of a dependency is read first, and the other members as values. -/
theorem memberReader_reads {kind : Kind} {members : List (String × Json)}
    (h : ∀ m ∈ members, m.1 ≠ "kind" ∧ Reads (value maxDepth) m.2 m.2) :
    MembersRead memberReader (none, []) (("kind", .text kind.name) :: members)
      (some kind, members.reverse) := by
  have hmembers : ∀ (l before : List (String × Json)),
      (∀ m ∈ l, m.1 ≠ "kind" ∧ Reads (value maxDepth) m.2 m.2) →
        MembersRead memberReader (some kind, before) l (some kind, l.reverse ++ before) := by
    intro l
    induction l with
    | nil => exact fun _ _ => .nil
    | cons m l ih =>
      intro before hl
      rw [List.forall_mem_cons] at hl
      rw [List.reverse_cons, List.append_assoc]
      refine .cons (fun level rest hrest => ?_) (ih (m :: before) hl.2)
      rw [memberReader, if_neg hl.1.1, bind_of_eq colon_eq]
      exact bind_of_eq (hl.1.2 level [' '] rest (by simp [isSpace]) hrest)
  refine .cons (fun level rest hrest => ?_) (by simpa using hmembers members [] h)
  rw [memberReader, if_pos rfl]
  refine (bind_of_eq colon_eq).trans ?_
  exact bind_of_eq (kind_reads kind level [' '] rest (by simp [isSpace]) hrest)

/-- A dependency is read from an object that tells its kind first. -/
theorem reads_of_members (kind : Kind) {members : List (String × Json)} {d : Dependency}
    (h : ∀ m ∈ members, m.1 ≠ "kind" ∧ Reads (value maxDepth) m.2 m.2)
    (hd : ofMembers kind members = .ok d) :
    Reads Dependency.reader (.object (("kind", .text kind.name) :: members)) d := by
  intro level spaces rest hs _
  obtain ⟨cs, hwrite, hread⟩ := members_write level rest (memberReader_reads h)
  have hread : membersReader cs = .ok ((kind, members), rest) := by
    refine hread fun cs => ?_
    change Except.ok ((kind, members.reverse.reverse), cs) = _
    rw [List.reverse_reverse]
  rw [hwrite, Dependency.reader, bind_of_eq (peek_of_spaces hs rfl)]
  refine (bind_of_eq drop_cons).trans ((bind_of_eq hread).trans ?_)
  change orStop (ofMembers kind members) rest = _
  rw [hd]
  rfl

/-- A dependency is read from what is written of it. -/
theorem reads_of_toJson? {d : Dependency} {j : Json} (h : d.toJson? = some j) :
    Opens j ∧ Reads Dependency.reader j d := by
  cases d with
  | content path digest =>
    obtain ⟨text, htext, rfl⟩ := Option.map_eq_some_iff.1 h
    refine ⟨opens_object, reads_of_members .content ?_ ?_⟩
    · cases digest with
      | none => simp [value_reads_text, value_reads_null]
      | some digest => simp [value_reads_text]
    · rw [← Path.ofText_of_toText? htext]
      cases digest <;> rfl
  | presence path found =>
    obtain ⟨text, htext, rfl⟩ := Option.map_eq_some_iff.1 h
    refine ⟨opens_object, reads_of_members .presence ?_ ?_⟩
    · simp [value_reads_text, value_reads_bool]
    · rw [← Path.ofText_of_toText? htext]
      rfl
  | artifact target digest =>
    obtain ⟨text, htext, rfl⟩ := Option.map_eq_some_iff.1 h
    refine ⟨opens_object, reads_of_members .artifact ?_ ?_⟩
    · simp [value_reads_text]
    · rw [← Path.ofText_of_toText? htext]
      rfl

end Dependency

/-- A trace is read from what is written of it. -/
theorem Trace.reads_of_toJson? {trace : Trace} {j : Json} (h : trace.toJson? = some j) :
    Reads Trace.reader j trace := by
  obtain ⟨deps, hdeps, rfl⟩ := Option.map_eq_some_iff.1 h
  have hlist : Reads (Json.Reader.list Dependency.reader) (.list deps) trace.deps :=
    list_reads ((mapM_eq_some_iff.1 hdeps).flip.imp fun _ _ => Dependency.reads_of_toJson?)
  obtain ⟨rule, output, deps'⟩ := trace
  refine record_reads
    (@MembersRead.cons _ _ _ (⟨rule, "", []⟩, ["rule"]) _ _ _
      (fieldMember_reads rfl (by simp) ?_)
    (@MembersRead.cons _ _ _ (⟨rule, output, []⟩, ["output_hash", "rule"]) _ _ _
      (fieldMember_reads rfl (by simp) ?_)
    (@MembersRead.cons _ _ _ (⟨rule, output, deps'⟩, ["deps", "output_hash", "rule"]) _ _ _
      (fieldMember_reads rfl (by simp) ?_) .nil))) rfl
  · exact (text_reads rule).map fun rule : String => (⟨rule, "", []⟩ : Trace)
  · exact (text_reads output).map fun output : String => (⟨rule, output, []⟩ : Trace)
  · exact hlist.map fun deps => (⟨rule, output, deps⟩ : Trace)

namespace TraceTable

/-- The traces of several targets are read one by one. -/
theorem traces_read {entries : List (Path × Trace)} {members : List (String × Json)}
    (h : List.Forall₂ (fun e m => e.1.toText? = some m.1 ∧ e.2.toJson? = some m.2) entries members)
    (table : TraceTable) :
    MembersRead (fun (table : TraceTable) target => do
        colon
        return table.insert (.ofText target) (← Trace.reader)) table members
      (entries.foldl (fun table e => table.insert e.1 e.2) table) := by
  induction h generalizing table with
  | nil => exact .nil
  | @cons e m entries members hm _ ih =>
    refine .cons (fun level rest hrest => ?_) (ih (table.insert e.1 e.2))
    rw [← Path.ofText_of_toText? hm.1]
    refine (bind_of_eq colon_eq).trans (bind_of_eq ?_)
    exact Trace.reads_of_toJson? hm.2 level [' '] rest (by simp [isSpace]) hrest

/-- The text of a trace file tells the traces that were written. -/
theorem ofText_of_text? {traces : TraceTable} {text : String} (h : traces.text? = some text) :
    ofText text = .ok traces := by
  obtain ⟨members, hmembers, htext⟩ := Option.bind_eq_some_iff.1 h
  obtain rfl := Option.some.inj htext
  have hentries : List.Forall₂ (fun e m => e.1.toText? = some m.1 ∧ e.2.toJson? = some m.2)
      traces.entries members := by
    refine (mapM_eq_some_iff.1 hmembers).imp fun e m hm => ?_
    obtain ⟨target, htarget, hm⟩ := Option.bind_eq_some_iff.1 hm
    obtain ⟨j, hj, hm⟩ := Option.bind_eq_some_iff.1 hm
    obtain rfl := Option.some.inj hm
    exact ⟨htarget, hj⟩
  have htraces : Reads reader.traces (.object members) traces := by
    have hread : Reads reader.traces (.object members)
        (traces.entries.foldl (fun table e => table.insert e.1 e.2) (∅ : TraceTable)) :=
      object_reads (traces_read hentries ∅)
    rwa [PathTable.foldl_insert_entries] at hread
  have hreads : Reads reader (.object [("version", .ofNat version), ("traces", .object members)])
      (version, traces) := by
    refine record_reads
      (@MembersRead.cons _ _ _ ((version, ∅), ["version"]) _ _ _
        (fieldMember_reads rfl (by simp) ?_)
      (@MembersRead.cons _ _ _ ((version, _), ["traces", "version"]) _ _ _
        (fieldMember_reads rfl (by simp) ?_) .nil)) rfl
    · exact (natural_reads_one (by decide)).map fun n : Nat => (n, (∅ : TraceTable))
    · exact htraces.map fun traces : TraceTable => (version, traces)
  rw [ofText, run_render hreads]
  rfl

/-- Traces that were stored are read from the trace file again. -/
theorem load_of_stored {traces : TraceTable} {text : String} {disk : Disk} {path : Path}
    (stored : traces.text? = some text) (read : disk.readText path = .ok text) :
    TraceTable.load disk path = traces := by
  rw [TraceTable.load, TraceTable.read, read]
  simp only [ofText_of_text? stored]
  rfl

/-- The text of traces, character by character. -/
def written? (traces : TraceTable) : Option String := do
  let members ← traces.entries.mapM fun e => do return ((← e.1.toText?), (← e.2.toJson?))
  return String.ofList (Json.write 0 (.object [("version", .ofNat version), ("traces", .object members)])
    ++ ['\n'])

theorem text?_eq_written? (traces : TraceTable) : traces.text? = traces.written? := by
  rw [text?, written?]
  refine congrArg _ (funext fun members => congrArg some (String.toList_injective ?_))
  rw [String.toList_append, Json.toList_render]
  simp

/-- What is loaded depends on the content of the trace file only. -/
theorem load_congr {disk disk' : Disk} {p : Path} (h : (disk'.read p).toOption = (disk.read p).toOption) :
    load disk' p = load disk p := by
  have hload : ∀ disk : Disk, load disk p =
      ((disk.readText p).toOption.map fun text => orNone (ofText text)).getD ∅ := by
    intro disk
    rw [load, read]
    cases disk.readText p with
    | ok text => rfl
    | error fault => cases fault <;> rfl
  rw [hload, hload, Disk.readText_congr h]

/-- No trace is loaded from a file that is not there. -/
theorem load_eq_empty {disk : Disk} {p : Path} (h : (disk.read p).toOption = none) :
    load disk p = ∅ := by
  rw [load, read, Disk.readText]
  cases hread : disk.read p with
  | ok c => simp [hread, Except.toOption] at h
  | error fault => cases fault <;> rfl

end TraceTable

end ImportIndex
