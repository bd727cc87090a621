import ImportIndex.Proofs.Import.Partition
import ImportIndex.Proofs.Import.Recorded

/-!
# What rules ask for has rules

The rule of transitive imports asks for artifacts of files that it has read of in others. What is listed there
is a text and not empty, and the rule asks for it only if it belongs to its family. So there are rules for all
that rules ask for, as long as artifacts list files below the root, which they do wherever their traces were
left by builds. Whatever the sources and the disk are then, no failure comes from the lack of a rule but that
of the target itself (`Project.Recorded.ruled`).
-/

namespace ImportIndex

/-- Whether a failure does not come from the lack of a rule. -/
def Failure.Ruled (cause : Failure) : Prop := ∀ t, cause.root ≠ .noRule t

theorem Failure.ofImports_ruled : OfImports Ruled where
  source _ _ := by simp [Ruled, root]
  artifact _ _ := by simp [Ruled, root]
  outside _ _ := by simp [Ruled, root]
  unlisted _ := by simp [Ruled, root]
  needed h := h

/-- Whether there is a rule for a target. -/
def Rulebook.HasRule (book : Rulebook) (t : Path) : Prop := ∃ rule, book.find t = .ok rule

namespace Project

open Session

variable {project : Project} {book : Rulebook} {disk : Disk} {traces : TraceTable} {s₀ s s₁ s₂ : Session}
  {t F : Path} {rule : Rule} {kind : ArtifactKind} {family : Family} {ends : Ending}

/-! ### What is listed has rules -/

section

variable (hroot : project.root.IsPlace) (hbook : project.rules = .ok book.rules)

include hroot hbook

/-- Where artifacts list files below the root, the rule of transitive imports asks for artifacts only that
    there are rules for. -/
theorem transitive_asks_ruled {w : World} (hF : F.IsBelow)
    (hfind : book.find (ArtifactKind.transitive.artifact project.outputRoot F) = .ok rule)
    (hmakes : ∀ t c, w.makes t c → ∃ ps, ImportFamily.listing ps = .ok c ∧ ∀ p ∈ ps, p.IsBelow) :
    ∃ post, (rule.recipe (ArtifactKind.transitive.artifact project.outputRoot F)).run.Meets w
      (fun q => ∃ (kind : ArtifactKind) (G : Path),
        q = .artifact (kind.artifact project.outputRoot G) ∧
          (G.IsBelow ∧ book.HasRule (kind.artifact project.outputRoot G))) post := by
  have hdirect : book.HasRule (ArtifactKind.direct.artifact project.outputRoot F) :=
    exists_find_artifact hroot hbook hF hfind .direct
  obtain ⟨family, scanner, -, -, hs, rfl⟩ := find_artifact hroot hbook hF hfind
  refine ⟨_, transitiveRule_meets hs ⟨.direct, F, rfl, hF, hdirect⟩ ?_⟩
  rintro ds ⟨c, text, hc, htext, rfl⟩ G hG hexpands kind
  obtain ⟨ps, hps, hbelow⟩ := hmakes _ c hc
  rw [parse_listing hps htext] at hG
  -- The file was listed, so that its path is a text, and the rule expands it for its family.
  obtain ⟨text', hrender, -⟩ := exists_of_listing hps
  obtain ⟨line, hline⟩ := Listing.render_eq_ok_iff.1 ⟨text', hrender⟩ G hG
  have hfamily : Family.of? project.settings G = some family := by
    rw [expands, Bool.and_eq_true] at hexpands
    exact beq_iff_eq.1 hexpands.2
  exact ⟨kind, G, rfl, hbelow G hG,
    exists_find_of_text hroot hbook (hbelow G hG) hfamily (Option.filter_eq_some_iff.1 hline).1 kind⟩

/-! ### Sessions -/

/-- All requests of the rule of an artifact are for artifacts that there are rules for. -/
theorem ruled_of_answers {a : Except Failure Content × List Dependency}
    (hends : ∀ {s u r s'}, ends s u r s' → Ended s u r s' ∧ project.Upholds book disk (fun _ => False)
      (project.Recalls book) s₀ s u r s')
    (hF : F.IsBelow) (hfind : book.find (kind.artifact project.outputRoot F) = .ok rule)
    (hs : project.Reliable book disk s₀ s₁)
    (honward : Onward (start (kind.artifact project.outputRoot F) s) s₁)
    (h : Answers book ends s₁ (rule.recipe (kind.artifact project.outputRoot F)).run [] a s₂) :
    Answers book (fun s u r s' =>
      (project.IsArtifact u ∧ book.HasRule u ∧ project.Reliable book disk s₀ s) ∧ ends s u r s') s₁
        (rule.recipe (kind.artifact project.outputRoot F)).run [] a s₂ := by
  cases kind with
  | direct =>
    obtain ⟨family, scanner, -, -, -, rfl⟩ := find_artifact hroot hbook hF hfind
    have halone : (((project.importFamily family scanner).directRule project.outputRoot
        project.root).recipe (ArtifactKind.direct.artifact project.outputRoot F)).run.Alone :=
      ImportFamily.alone_directRule fun _ => alone_directImports
    have hnever : ∀ {s u r s'}, True → False → ends s u r s' → True ∧ ((project.IsArtifact u ∧
        book.HasRule u ∧ project.Reliable book disk s₀ s) ∧ ends s u r s') := fun _ hu => hu.elim
    exact h.narrow trivial (fun _ _ => trivial) hnever
      (halone.asksOnly.mono fun q hq u hu => absurd hu (hq u))
  | transitive =>
    let w : World := {
      content := fun p => (disk.read p).toOption
      makes := fun _ c => ∃ ps, ImportFamily.listing ps = .ok c ∧ ∀ p ∈ ps, p.IsBelow
      refuses := fun _ _ => True }
    obtain ⟨post, hmeets⟩ := transitive_asks_ruled hroot hbook (w := w) hF hfind fun _ _ => id
    have g := @answering_of_ready project book disk (fun _ => False) (project.Recalls book) s₀ s F ends
      hroot region_nowhere hends hF (fun _ _ hG => hG.elim) w
      (fun kind G => G.IsBelow ∧ book.HasRule (kind.artifact project.outputRoot G))
      (fun hG => ⟨hG.1, False.elim⟩) (fun hG hc => (hc hG.1 rfl).1) fun _ _ => trivial
    refine h.narrow_of_meets g (fun hs hu hr => ?_) hmeets ⟨hs, honward⟩
    obtain ⟨kind, G, hq, hG, hrule⟩ := hu
    obtain rfl := Question.artifact.inj hq
    exact ⟨⟨⟨kind, G, hG, rfl⟩, hrule, hs.1⟩, hr⟩

end

/-- How requiring a target ends where something is known of the traces: that is kept, and the target is not
    refused for lack of a rule but its own. -/
def Provides (project : Project) (book : Rulebook) (disk : Disk) (s₀ : Session) : Ending :=
  fun s t r s' => project.Upholds book disk (fun _ => False) (project.Recalls book) s₀ s t r s' ∧
    ((∀ rule, book.find t = .ok rule → project.IsArtifact t) → project.Reliable book disk s₀ s →
      ∀ cause, r = .error cause → cause.Ruled ∨ book.find t = .error cause)

section

variable (hroot : project.root.IsPlace) (hbook : project.rules = .ok book.rules)
  (h₀ : project.Resumes book disk (fun _ => False) (project.Recalls book) s₀)

include hroot hbook h₀

/-- Bringing a target up to date is not refused for lack of another rule if requests are not. -/
theorem provides_of_visits {r : Except Failure String}
    (hends : ∀ {s u r s'}, ends s u r s' → Ended s u r s' ∧ project.Provides book disk s₀ s u r s')
    (hnew : s.progress.get? t = none) (h : Visits book ends t (start t s) r s₂) :
    project.Provides book disk s₀ s t r (finish t r s₂) := by
  have hupholds := fun {s u r s'} (hr : ends s u r s') => (hends hr).imp_right And.left
  refine ⟨upholds_of_visits hroot hbook region_nowhere h₀ (recalls_of_answers hroot hbook) hupholds hnew h,
    ?_⟩
  rintro ht hkept cause rfl
  rcases h.refused with hnone | ⟨rule, _, _, _, hfind, -, rfl⟩ | ⟨fault, rfl⟩
  · exact .inr hnone
  · obtain ⟨kind, F, hF, rfl⟩ := ht rule hfind
    -- What was checked before the rule ran were artifacts too, so that they are still reliable.
    cases narrow_of_visits hroot hbook hupholds ⟨kind, F, hF, rfl⟩ hkept h with
    | unruled find => cases hfind.symm.trans find
    | failed find unclean answers =>
      have hs := unclean.keeps (P := project.Reliable book disk s₀) hkept.start .aside
        fun {_ u _ _ _ _} _ _ _ hr => by
          obtain ⟨⟨⟨kind, G, hG, rfl⟩, hs⟩, hr⟩ := hr
          exact ((hupholds hr).2 kind G hG rfl (fun _ _ hG => hG.elim) hs).1
      have honward := unclean.onward fun hr => (hends hr.2).1
      have hanswers := ruled_of_answers hroot hbook (fun hr => hupholds hr.2) hF find hs honward answers
      refine .inl (hanswers.failsAs (failsAs_of_find hroot hbook Failure.ofImports_ruled (fun _ _ => id) find)
        fun {s u cause s'} hr => ?_)
      obtain ⟨⟨hu, ⟨rule, hrule⟩, hs⟩, -, hr⟩ := hr
      refine ((hends hr).2.2 (fun _ _ => hu) hs cause rfl).resolve_right fun hnone => ?_
      cases hnone.symm.trans hrule
  · exact .inl fun t => by simp [Failure.root]

/-- Requiring a target is not refused for lack of another rule. -/
theorem provides_of_require (n : Nat) (s : Session) (t : Path) : (require book n t).Ends s False fun r s' =>
    Ended s t r s' ∧ project.Provides book disk s₀ s t r s' := by
  have hstay : ∀ {s t r}, (∀ cause, r = .error cause → cause.Ruled) →
      project.Provides book disk s₀ s t r s := fun hr =>
    ⟨fun _ _ _ _ _ hkept => ⟨hkept, .refl⟩, fun _ _ cause hc => .inl (hr cause hc)⟩
  refine ends_of_ended _ (fun _ => hstay (by simp)) (fun _ => hstay ?_) (fun _ => hstay ?_)
    (fun hnew _ h => provides_of_visits hroot hbook h₀ id hnew h) n s t
  · rintro _ ⟨⟩ t
    simp [Failure.root]
  · rintro _ ⟨⟩ t
    simp [Failure.root]

/-- What is required one after another is not refused for lack of another rule. -/
theorem requireAll_ruled {n : Nat} {ts : List Path}
    (hts : ∀ t ∈ ts, ∀ rule, book.find t = .ok rule → project.IsArtifact t)
    (hs : Served book (fun t => ∀ rule, book.find t = .ok rule → project.IsArtifact t) s₀ s) :
    (requireAll book n ts).Ends s False fun failed _ =>
      ∀ e ∈ failed, e.2.Ruled ∨ book.find e.1 = .error e.2 := by
  induction ts generalizing s with
  | nil => exact .pure (by simp)
  | cons t ts ih =>
    rw [List.forall_mem_cons] at hts
    refine SessionM.Ends.bind .of_modify fun _ s₁ h => ?_
    have ha : Aside s s₁ := h ▸ ⟨⟨rfl, rfl, rfl, rfl⟩, id⟩
    have hrun : (require book n t).Ends s₁ False fun r s₂ => require book n t s₁ = some (r, s₂) :=
      ⟨fun _ _ h => h, False.elim⟩
    refine hrun.bind fun r s₂ run => ?_
    -- All that was required before were artifacts, so that what is known of the traces still holds.
    have hs₁ := hs.aside ha
    have hs₂ := hs₁.require hts.1 run
    have hprovides := ((provides_of_require hroot hbook h₀ n s₁ t).1 _ _ run).2.2 hts.1
      (kept_of_requested hroot hbook h₀ hs₁)
    cases r with
    | ok digest => exact ih hts.2 hs₂
    | error cause =>
      refine tell_aside.bind fun _ s₃ ha' => (ih hts.2 (hs₂.aside ha')).bind fun failed s₄ hfailed => ?_
      exact .pure (List.forall_mem_cons.2 ⟨hprovides cause rfl, hfailed⟩)

end

/-- A build that goes on from traces that builds leave reports no failure for lack of a rule but that of the
    target. -/
theorem Recorded.ruled {engine : Engine} {depth : Nat} {ts : List Path} {built : Built}
    (hroot : project.root.IsPlace) (hbook : project.rules = .ok engine.book.rules)
    (hinj : Function.Injective engine.book.digest) (h : project.Recorded engine.book engine.traces)
    (hts : ∀ t ∈ ts, ∀ rule, engine.book.find t = .ok rule → project.IsArtifact t)
    (run : engine.build depth ts disk = some built) :
    ∀ e ∈ built.report.failed, e.2.Ruled ∨ engine.book.find e.1 = .error e.2 := by
  obtain ⟨failed, s, hrun, -, hfailed, -⟩ := Engine.exists_of_build_eq_some run
  have h₀ : project.Resumes engine.book disk (fun _ => False) (project.Recalls engine.book)
      { disk, traces := engine.traces } :=
    resumes_of_remembers hinj fun ht hget => h.remembers hroot hbook hinj ht hget
  exact hfailed ▸ (requireAll_ruled hroot hbook h₀ hts .start).1 _ _ hrun

end Project

end ImportIndex
