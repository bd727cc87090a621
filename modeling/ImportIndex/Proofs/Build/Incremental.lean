import ImportIndex.Proofs.Build.Evaluation
import ImportIndex.Proofs.FileTree.Room

/-!
# Sessions go by evaluation

Evaluation without a cache tells what a session does: it makes the contents that targets are
evaluated to, and refuses those that cannot be evaluated. For rules that pass failures on and ask for
targets and sources only (`Rulebook.Tidy`), on a disk that keeps targets apart from one another and
from the sources (`Disk.Hosts`), this is a lawful scope (`lawful_evaluationScope`).
-/

namespace ImportIndex

/-- Whether a disk has room for targets, apart from one another and from the sources. -/
structure Disk.Hosts (disk : Disk) (targets sources : Path → Prop) : Prop where
  /-- Targets that are the same path are equal. -/
  same : ∀ {t u}, targets t → targets u → t.Same u → t = u
  /-- Writing targets does not change what sources hold. -/
  steady : ∀ {disk' p}, disk.Rewritten targets disk' → sources p →
    (disk'.read p).toOption = (disk.read p).toOption
  /-- Writing a target does not change what another one holds. -/
  apart : ∀ {disk' t u c d}, disk.Rewritten targets disk' → targets t → targets u → t ≠ u →
    disk'.read u = .ok c → (Disk.writeIfChanged t d disk').2.read u = .ok c
  /-- Targets can be written. -/
  writable : ∀ {disk' t c}, disk.Rewritten targets disk' → targets t →
    ∃ written, (Disk.writeIfChanged t c disk').1 = .ok written

/-- A disk with room for the targets hosts them with the sources at all other places. -/
theorem Disk.Room.hosts {disk : Disk} {places : Location → Prop} {sources : Path → Prop}
    (hr : disk.Room places)
    (hs : ∀ p, sources p → ∃ m, (∀ n ∈ m, IsName n) ∧ ¬ places m ∧ p = Path.ofLocation m) :
    disk.Hosts (At places) sources where
  same := by
    rintro t u ⟨l, hl, rfl⟩ ⟨m, hm, rfl⟩ h
    rw [Path.Same, Path.components_ofLocation fun n => hr.names hl n,
      Path.components_ofLocation fun n => hr.names hm n, List.cons.injEq] at h
    rw [List.map_inj_right (fun _ _ h => Component.name.inj h) |>.1 h.2]
  steady hrewritten hp := by
    obtain ⟨m, hm, hnot, rfl⟩ := hs _ hp
    exact hrewritten.read_ofLocation (fun _ => hr.names) (fun _ => hr.nonempty) hm hnot
  apart := by
    rintro disk' t u c d hrewritten ⟨l, hl, rfl⟩ ⟨m, hm, rfl⟩ hne hread
    refine Disk.toOption_eq_some_iff.1 ?_
    rw [read_write_ofLocation (hr.names hl) (hr.nonempty hl) (hr.names hm) fun h => hne (h ▸ rfl)]
    exact Disk.toOption_eq_some_iff.2 hread
  writable := by
    rintro disk' t c hrewritten ⟨l, hl, rfl⟩
    exact (hr.rewritten hrewritten).exists_write hl

namespace Rulebook

variable {book : Rulebook} {targets sources : Path → Prop} {disk : Disk} {traces : TraceTable}
  {t u : Path} {c : Content} {n : Nat}

/-- A session in which targets are required as they can be evaluated. -/
def evaluationScope (book : Rulebook) (targets : Path → Prop) (disk : Disk) (traces : TraceTable) :
    Scope where
  book := book
  disk := disk
  traces := traces
  allowed := targets
  makes t c := ∃ n, book.evaluate disk n t = some c
  refuses t _ := ∀ n, book.evaluate disk n t = none
  within n t := ∃ c, book.evaluate disk n t = some c

theorem isFile_world (p : Path) :
    (book.evaluationScope targets disk traces).world.isFile p = disk.isFile p :=
  Disk.isFile_eq_isSome_read.symm

theorem eq_ok_of_read {p : Path} {found : Except IoFault Content}
    (h : found.toOption = (book.evaluationScope targets disk traces).world.content p)
    (hread : disk.read p = .ok c) : found = .ok c := by
  refine Disk.toOption_eq_some_iff.1 (h.trans ?_)
  exact Disk.toOption_eq_some_iff.2 hread

section

variable (hb : book.Tidy targets sources)

include hb

/-- Steps in the world of evaluation are those that evaluation takes, if it succeeds. -/
theorem result_of_steps {x y : Tracked (Except Failure Content)} {ds : List Dependency} {k : Nat}
    (hx : x.Strict) (hasks : x.AsksOnly (Question.Among targets sources))
    (h : Tracked.Steps book (book.evaluationScope targets disk traces).world k x ds y)
    (hr : Tracked.result book disk (book.evaluate disk n) k x = .ok c) :
    Tracked.result book disk (book.evaluate disk n) (k + ds.length) y = .ok c := by
  induction h with
  | refl => exact hr
  | @head k x y z ds es first rest ih =>
    rw [List.length_append, ← Nat.add_assoc]
    refine ih (hx.step first) (hasks.step first) ?_
    cases first with
    | @readText path next found h =>
      rw [Tracked.result] at hr
      cases hread : disk.read path with
      | ok d =>
        rw [hread] at hr
        rw [eq_ok_of_read h hread]
        exact hr
      | error fault =>
        rw [hread] at hr
        exact absurd hr (hx.2 fault).result
    | @isFile path next =>
      rw [isFile_world]
      exact hr
    | @need u next d h =>
      obtain ⟨m, hm⟩ := h
      rw [Tracked.result] at hr
      cases hu : book.evaluate disk n u with
      | some e => simpa [hu] using hr
      | none =>
        rw [hu] at hr
        exact absurd hr (hx.2 _).result
    | @needRefused u next cause h =>
      rw [Tracked.result, h n] at hr
      exact absurd hr (hx.2 _).result
    | @artifact u next d h =>
      obtain ⟨m, hm⟩ := h
      rw [Tracked.result] at hr
      cases hu : book.evaluate disk n u with
      | some e =>
        rw [hu] at hr
        rw [evaluate_unique hb hasks.1 hm hu]
        exact hr
      | none =>
        rw [hu] at hr
        exact absurd hr (hx.2 _).result
    | @artifactRefused u next cause h =>
      rw [Tracked.result, h n] at hr
      exact absurd hr (hx.2 _).result
    | count => exact hr
    | tell => exact hr

/-- Evaluation takes the steps to a content that are possible in its world. -/
theorem exists_result_of_steps {x : Tracked (Except Failure Content)} {ds : List Dependency}
    {k : Nat} (hx : x.Strict) (hasks : x.AsksOnly (Question.Among targets sources))
    (h : Tracked.Steps book (book.evaluationScope targets disk traces).world k x ds
      (.done (.ok c))) :
    ∃ n, ∀ m, n ≤ m → Tracked.result book disk (book.evaluate disk m) k x = .ok c := by
  generalize hz : Tracked.done (Except.ok c) = z at h
  induction h with
  | refl =>
    subst hz
    exact ⟨0, fun _ _ => rfl⟩
  | @head k x y z ds es first rest ih =>
    subst hz
    obtain ⟨n, hn⟩ := ih (hx.step first) (hasks.step first) rfl
    cases first with
    | @readText path next found h =>
      refine ⟨n, fun m hm => ?_⟩
      cases hread : disk.read path with
      | ok d =>
        rw [Tracked.result, hread]
        have := hn m hm
        rwa [eq_ok_of_read h hread] at this
      | error fault =>
        -- The file could not be read, so the rest fails.
        cases found with
        | ok d =>
          have := Disk.toOption_eq_some_iff.1 h.symm
          exact absurd (hread.symm.trans this) (by simp)
        | error fault' => exact absurd rest (hx.2 fault').not_steps_ok
    | @isFile path next =>
      refine ⟨n, fun m hm => ?_⟩
      have := hn m hm
      rwa [isFile_world] at this
    | @need u next d h =>
      obtain ⟨l, hl⟩ := h
      refine ⟨max n l, fun m hm => ?_⟩
      rw [Tracked.result, evaluate_mono hb hasks.1 ((Nat.le_max_right n l).trans hm) hl]
      exact hn m ((Nat.le_max_left n l).trans hm)
    | needRefused => exact absurd rest (hx.2 _).not_steps_ok
    | @artifact u next d h =>
      obtain ⟨l, hl⟩ := h
      refine ⟨max n l, fun m hm => ?_⟩
      rw [Tracked.result, evaluate_mono hb hasks.1 ((Nat.le_max_right n l).trans hm) hl]
      exact hn m ((Nat.le_max_left n l).trans hm)
    | artifactRefused =>
      exact absurd rest (hx.2 _).not_steps_ok
    | count => exact ⟨n, hn⟩
    | tell => exact ⟨n, hn⟩

/-- What evaluation asks for is evaluated one level less deep. -/
theorem evaluate_of_asks (ht : targets t)
    (hu : (book.evaluationScope targets disk traces).Asks t (.artifact u))
    (h : book.evaluate disk (n + 1) t = some c) :
    targets u ∧ ∃ d, book.evaluate disk n u = some d := by
  obtain ⟨rule, ds, x, hfind, hsteps, hq⟩ := hu
  rw [evaluate, show book.find t = .ok rule from hfind] at h
  have hx := hb.strict ht hfind
  have hasks := hb.asks ht hfind
  have hr := result_of_steps hb hx hasks hsteps (Disk.toOption_eq_some_iff.1 h)
  refine ⟨(hasks.steps hsteps).asked hq, ?_⟩
  replace hx := hx.steps hsteps
  cases he : book.evaluate disk n u with
  | some d => exact ⟨d, rfl⟩
  | none =>
    cases x <;> simp only [Tracked.question?, Option.some.injEq, Question.artifact.injEq,
      reduceCtorEq] at hq
    all_goals
      subst hq
      rw [Tracked.result, he] at hr
      exact absurd hr (hx.2 _).result

/-- A target that needs itself cannot be evaluated. -/
theorem evaluate_of_cycle
    (h : Relation.TransGen (book.evaluationScope targets disk traces).Needs t t) (n : Nat) :
    book.evaluate disk n t = none := by
  -- What is needed at any remove is evaluated less deep than what needs it.
  have hless : ∀ {t u}, Relation.TransGen (book.evaluationScope targets disk traces).Needs t u →
      ∀ n c, book.evaluate disk n t = some c → ∃ m d, m < n ∧ book.evaluate disk m u = some d := by
    intro t u htu
    induction htu with
    | single hneeds =>
      rintro (_ | n) c hc
      · contradiction
      · obtain ⟨-, d, hd⟩ := evaluate_of_asks hb hneeds.1 hneeds.2 hc
        exact ⟨n, d, Nat.lt_succ_self n, hd⟩
    | tail _ hneeds ih =>
      intro n c hc
      obtain ⟨m, d, hm, hd⟩ := ih n c hc
      cases m with
      | zero => contradiction
      | succ m =>
        obtain ⟨-, e, he⟩ := evaluate_of_asks hb hneeds.1 hneeds.2 hd
        exact ⟨m, e, by omega, he⟩
  induction n using Nat.strongRecOn with
  | ind n ih =>
    cases hn : book.evaluate disk n t with
    | none => rfl
    | some c =>
      obtain ⟨m, d, hm, hd⟩ := hless h n c hn
      rw [ih m hm] at hd
      contradiction

/-- Sessions on a disk that has room for the targets go by evaluation. -/
theorem lawful_evaluationScope (hinj : Function.Injective book.digest)
    (hd : disk.Hosts targets sources)
    (hg : ∀ {t trace}, targets t → traces.get? t = some trace →
      ∃ c, trace.Genuine book (fun _ _ => False) t c) :
    (book.evaluationScope targets disk traces).Lawful where
  injective := hinj
  heeds ht hfind := (hb.strict ht hfind).heedsFaults
  same := hd.same
  closed ht hu := Tidy.among hu hb ht
  content hreach ht hp := hd.steady hreach (Tidy.among hp hb ht)
  presence hreach ht hp := congrArg _ (hd.steady hreach (Tidy.among hp hb ht))
  apart := hd.apart
  genuine ht hget := by
    obtain ⟨c, hc⟩ := hg ht hget
    exact ⟨c, hc.mono fun _ _ h => h.elim⟩
  made := by
    intro t rule ds c ht hfind hsteps
    obtain ⟨n, hn⟩ := exists_result_of_steps hb (hb.strict ht hfind) (hb.asks ht hfind) hsteps
    refine ⟨n + 1, ?_⟩
    rw [evaluate, show book.find t = .ok rule from hfind]
    exact Disk.toOption_eq_some_iff.2 (hn n (Nat.le_refl n))
  cycle h _ := evaluate_of_cycle hb h
  unruled := by
    rintro t cause ht hfind (_ | n)
    · rfl
    · rw [evaluate, show book.find t = .error cause from hfind]
  failed := by
    rintro t rule ds cause ht hfind hsteps (_ | n)
    · rfl
    · cases h : book.evaluate disk (n + 1) t with
      | none => rfl
      | some c =>
        rw [evaluate, show book.find t = .ok rule from hfind] at h
        have := result_of_steps hb (hb.strict ht hfind) (hb.asks ht hfind) hsteps
          (Disk.toOption_eq_some_iff.1 h)
        contradiction
  unwritten := by
    intro disk' t c fault hreach ht _ hfault
    obtain ⟨written, hw⟩ := hd.writable (c := c) hreach ht
    rw [hw] at hfault
    contradiction
  again h _ := h
  shallow := by
    rintro t ⟨c, hc⟩
    contradiction
  deeper := by
    rintro n t u ht ⟨c, hc⟩ hu
    exact (evaluate_of_asks hb ht hu hc).2

end

end Rulebook

end ImportIndex
