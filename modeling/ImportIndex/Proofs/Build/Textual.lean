import ImportIndex.Proofs.Build.Attested
import ImportIndex.Proofs.Build.Storing

/-!
# Rules that work with texts

If rules make only targets whose paths are texts, and ask only about such paths (`Rulebook.Textual`), builds
record no others, whatever targets are required of them, and whatever is on the disk
(`Engine.textual_of_build`). So what a build leaves can be stored, and it is not stored only if its text
cannot be written (`Engine.saveTraces_of_build`).
-/

namespace ImportIndex

variable {book : Rulebook}

/-- The path that a question is about. -/
def Question.path : Question → Path
  | content path => path
  | presence path => path
  | artifact target => target

/-- Whether a question is about a path that is a text. -/
def Question.IsText (q : Question) : Prop := q.path.IsText

theorem Dependency.path_question (d : Dependency) : d.question.path = d.path := by
  cases d <;> rfl

/-- Whether all targets that rules make are texts, and all paths that these ask about. -/
def Rulebook.Textual (book : Rulebook) : Prop :=
  ∀ t rule, book.find t = .ok rule → t.IsText ∧ (rule.recipe t).run.AsksOnly Question.IsText

namespace Session

variable {ends : Ending} {s s' : Session} {t : Path} {r : Except Failure String}

/-- The trace that a run of a rule leaves tells of texts if the rule asks about texts. -/
theorem Answers.textual {rule : Rule} {a : Except Failure Content × List Dependency} {output : String}
    (h : Answers book ends s (rule.recipe t).run [] a s')
    (hrule : (rule.recipe t).run.AsksOnly Question.IsText) :
    Trace.Textual { rule := rule.name, output, deps := a.2 } := by
  intro d hd
  rcases h.asked hrule hd with hbefore | ⟨hasked, -⟩
  · cases hbefore
  · rwa [Question.IsText, d.path_question] at hasked

/-- How requests end if they record texts only. -/
def KeepsTexts : Ending := fun s _ _ s' => s.traces.Textual → s'.traces.Textual

variable (hbook : book.Textual)

include hbook

/-- Bringing a target up to date records texts only if requests do. -/
theorem Visits.textual (h : Visits book KeepsTexts t s r s') (hs : s.traces.Textual) :
    s'.traces.Textual := by
  refine h.keeps_traces hs id fun hfind answers htraces => ?_
  obtain ⟨ht, hrule⟩ := hbook _ _ hfind
  exact htraces.insert ht (answers.textual hrule)

theorem textual_of_require (n : Nat) (s : Session) (t : Path) :
    (require book n t).Ends s False (KeepsTexts s t) := by
  refine ends_of_require (fun _ => id) (fun _ => id) (fun _ => id) (fun _ h hs => ?_) n s t
  rw [traces_finish]
  exact h.textual hbook hs

/-- Requiring targets one after another records texts only. -/
theorem Served.textual {asked : Path → Prop} (h : Served book asked s s') (hs : s.traces.Textual) :
    s'.traces.Textual := by
  induction h with
  | start => exact hs
  | require _ _ run ih => exact (textual_of_require hbook _ _ _).1 _ _ run ih
  | aside _ ha ih => exact ha.traces ▸ ih

end Session

namespace Engine

variable {engine : Engine} {depth : Nat} {ts : List Path} {disk : Disk} {built : Built} {cause : Failure}

/-- Builds record texts only. -/
theorem textual_of_build (hbook : engine.book.Textual) (htraces : engine.traces.Textual)
    (run : engine.build depth ts disk = some built) : built.engine.traces.Textual := by
  obtain ⟨failed, s, hrun, hengine, -⟩ := exists_of_build_eq_some run
  rw [hengine]
  exact (Session.requireAll_served.1 _ _ hrun).1.textual hbook htraces

/-- Why the traces that a build leaves are not stored, if they can be written as a text: that text cannot be
    written to the trace file. -/
theorem saveTraces_of_build {text : String} (htext : built.engine.traces.text? = some text)
    (run : engine.build depth ts disk = some built) (hsaved : built.saved = .error cause) :
    ∃ failed s path fault,
      Session.requireAll engine.book depth ts (engine.session disk) = some (failed, s) ∧
      engine.store = some path ∧ (Disk.writeIfChanged path (.ofText text) s.disk).1 = .error fault ∧
      cause = .saveTraces path fault.message := by
  obtain ⟨failed, s, hrun, hengine, -, hsave⟩ := exists_of_build_eq_some run
  have hstore : built.engine.store = engine.store := hengine ▸ rfl
  rw [hsaved, ← hengine, save, hstore] at hsave
  cases hpath : engine.store with
  | none =>
    rw [hpath] at hsave
    cases hsave
  | some path =>
    simp only [hpath, TraceTable.save_of_text? htext] at hsave
    cases hwrite : (Disk.writeIfChanged path (.ofText text) s.disk).1 with
    | ok written =>
      rw [hwrite] at hsave
      cases hsave
    | error fault =>
      rw [hwrite] at hsave
      exact ⟨failed, s, path, fault, hrun, rfl, hwrite, Except.error.inj (Prod.mk.inj hsave).1⟩

end Engine

end ImportIndex
