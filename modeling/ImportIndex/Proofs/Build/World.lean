import ImportIndex.Build.Session
import Mathlib.Data.List.Basic

/-!
# Worlds

What a tracked computation does depends on nothing but the answers to its questions. A *world* has
an answer to each: what files hold, if they are there, and what contents the targets may have, or
with which failures they may be refused. `Tracked.Steps` takes a computation through a world, and records
the dependencies that the answers leave.

Dependencies say enough about a world to take the same way again:

* `Steps.replay`: a computation that succeeds does the same in every world that agrees with the
  dependencies that it left, if it never gets over a fault that leaves none;
* `Steps.asks`: as far as a world agrees with these dependencies, the computation asks in it for
  the next one of them.

For rules that are known, `Tracked.Meets` follows a computation to what it asks for and to its
result, one question at a time.
-/

namespace ImportIndex

/-- A digest that no two contents share: their bytes. -/
def Content.spelled (c : Content) : String := .ofList (c.bytes.map .ofUInt8)

theorem Content.spelled_injective : Function.Injective Content.spelled := by
  intro c d h
  have hbytes := String.ofList_injective h
  refine Content.bytes_inj.1 (List.map_injective_iff.2 (fun a b hab => ?_) hbytes)
  exact UInt8.toUInt32_inj.1 (congrArg Char.val hab)

/-- What a computation may ask for. -/
inductive Question where
  /-- What a file holds. -/
  | content (path : Path)
  /-- Whether a file is there. -/
  | presence (path : Path)
  /-- The artifact of a target. -/
  | artifact (target : Path)
deriving DecidableEq, Repr

/-- The question that a dependency answers. -/
def Dependency.question : Dependency → Question
  | content path _ => .content path
  | presence path _ => .presence path
  | artifact target _ => .artifact target

/-- Answers to all questions. -/
structure World where
  /-- What a file holds, if one is there. -/
  content : Path → Option Content
  /-- The contents that the artifact of a target may have. -/
  makes : Path → Content → Prop
  /-- The failures with which a target may be refused. -/
  refuses : Path → Failure → Prop

namespace World

/-- Whether a file is there. -/
def isFile (w : World) (path : Path) : Bool := (w.content path).isSome

/-- Whether a dependency is what a world answers. -/
def Agrees (book : Rulebook) (w : World) : Dependency → Prop
  | .content path digest => (w.content path).map book.digest = digest
  | .presence path found => w.isFile path = found
  | .artifact target digest => ∃ content, w.makes target content ∧ book.digest content = digest

end World

/-- The text of the artifact of a target, or why it has none. -/
def artifactText (target : Path) (content : Content) : Except Failure String :=
  match content.toText? with
  | some text => .ok text
  | none => .error (.readArtifact target .notText)

/-- The dependency that reading a file leaves is its digest, or that there was none. -/
theorem Session.contentRead?_eq_some {book : Rulebook} {path : Path}
    {found : Except IoFault Content} {d : Dependency} (h : contentRead? book path found = some d) :
    d = .content path (found.toOption.map book.digest) := by
  cases found with
  | ok content => exact (Option.some.inj h).symm
  | error fault =>
    cases fault <;> first
      | exact (Option.some.inj h).symm
      | contradiction

/-- The text of an artifact, as it is read from the disk. -/
theorem readText_eq_artifactText {disk : Disk} {target : Path} {content : Content}
    (h : disk.read target = .ok content) :
    (disk.readText target).mapError (.readArtifact target) = artifactText target content := by
  rw [Disk.readText, h, artifactText]
  cases hc : content.toText? <;> simp [hc, Except.mapError]

namespace Tracked

variable {α β : Type} {book : Rulebook} {w v : World}

/-- The question that a computation asks first. -/
def question? : Tracked α → Option Question
  | readText path _ => some (.content path)
  | isFile path _ => some (.presence path)
  | need target _ => some (.artifact target)
  | artifact target _ => some (.artifact target)
  | _ => none

/-- One step of a computation that has left `n` dependencies so far, with those that it leaves. A
    file that cannot be read may have any fault. -/
inductive Step (book : Rulebook) (w : World) (n : Nat) :
    Tracked α → List Dependency → Tracked α → Prop
  | readText {path next found} (h : found.toOption = w.content path) :
      Step book w n (.readText path next) (Session.contentRead? book path found).toList
        (next (found.bind Session.textOf))
  | isFile {path next} :
      Step book w n (.isFile path next) [.presence path (w.isFile path)] (next (w.isFile path))
  | need {target next content} (h : w.makes target content) :
      Step book w n (.need target next) [.artifact target (book.digest content)] (next (.ok ()))
  | needRefused {target next cause} (h : w.refuses target cause) :
      Step book w n (.need target next) [] (next (.error cause))
  | artifact {target next content} (h : w.makes target content) :
      Step book w n (.artifact target next) [.artifact target (book.digest content)]
        (next (artifactText target content))
  | artifactRefused {target next cause} (h : w.refuses target cause) :
      Step book w n (.artifact target next) [] (next (.error cause))
  | count {next} : Step book w n (.count next) [] (next n)
  | tell {event next} : Step book w n (.tell event next) [] next

/-- Steps of a computation that has left `n` dependencies so far, with all that they leave. -/
inductive Steps (book : Rulebook) (w : World) :
    Nat → Tracked α → List Dependency → Tracked α → Prop
  | refl {n x} : Steps book w n x [] x
  | head {n x y z ds es} (first : Step book w n x ds y)
      (rest : Steps book w (n + ds.length) y es z) : Steps book w n x (ds ++ es) z

namespace Steps

variable {n : Nat} {x y z : Tracked α} {ds es : List Dependency}

theorem single (h : Step book w n x ds y) : Steps book w n x ds y := by
  simpa using head h refl

theorem trans (h : Steps book w n x ds y) (h' : Steps book w (n + ds.length) y es z) :
    Steps book w n x (ds ++ es) z := by
  induction h with
  | refl => simpa using h'
  | @head n x y z ds es' first rest ih =>
    rw [List.append_assoc]
    refine head first (ih ?_)
    rwa [Nat.add_assoc, ← List.length_append]

/-- One more step, after those that left the dependencies in `before`, the last one first. -/
theorem concat {before : List Dependency} (h : Steps book w 0 x before.reverse y)
    (last : Step book w before.length y ds z) : Steps book w 0 x (before.reverse ++ ds) z :=
  h.trans (.single (by simpa using last))

/-- Steps are possible in every world that has the same files and may give the same answers. -/
theorem mono {v : World} (hcontent : ∀ p, v.content p = w.content p)
    (hmakes : ∀ t c, w.makes t c → v.makes t c)
    (hrefuses : ∀ t cause, w.refuses t cause → v.refuses t cause) (h : Steps book w n x ds y) :
    Steps book v n x ds y := by
  induction h with
  | refl => exact .refl
  | head first _ ih =>
    refine .head ?_ ih
    cases first with
    | readText h => exact .readText (h.trans (hcontent _).symm)
    | isFile =>
      rw [show w.isFile _ = v.isFile _ from congrArg Option.isSome (hcontent _).symm]
      exact .isFile
    | need h => exact .need (hmakes _ _ h)
    | needRefused h => exact .needRefused (hrefuses _ _ h)
    | artifact h => exact .artifact (hmakes _ _ h)
    | artifactRefused h => exact .artifactRefused (hrefuses _ _ h)
    | count => exact .count
    | tell => exact .tell

end Steps

/-! ### Computations that do not get over failures -/

/-- Whether a computation fails, whatever answers it is given. -/
def Fails : Tracked (Except Failure α) → Prop
  | done result => result.toOption = none
  | readText _ next => ∀ answer, (next answer).Fails
  | isFile _ next => ∀ answer, (next answer).Fails
  | need _ next => ∀ answer, (next answer).Fails
  | artifact _ next => ∀ answer, (next answer).Fails
  | count next => ∀ answer, (next answer).Fails
  | tell _ next => next.Fails

/-- Whether a computation fails when a file cannot be read, for another reason than that it is not
    there. Such a fault leaves no dependency. -/
def HeedsFaults : Tracked (Except Failure α) → Prop
  | done _ => True
  | readText _ next =>
    (∀ answer, (next answer).HeedsFaults) ∧ ∀ fault, fault ≠ .notFound → (next (.error fault)).Fails
  | isFile _ next => ∀ answer, (next answer).HeedsFaults
  | need _ next => ∀ answer, (next answer).HeedsFaults
  | artifact _ next => ∀ answer, (next answer).HeedsFaults
  | count next => ∀ answer, (next answer).HeedsFaults
  | tell _ next => next.HeedsFaults

section

variable {n : Nat} {x y : Tracked (Except Failure α)} {ds : List Dependency}

theorem Fails.step (hx : x.Fails) (h : Step book w n x ds y) : y.Fails := by
  cases h <;> first | exact hx _ | exact hx

theorem Fails.steps (hx : x.Fails) (h : Steps book w n x ds y) : y.Fails := by
  induction h with
  | refl => exact hx
  | head first _ ih => exact ih (hx.step first)

theorem Fails.not_steps_ok {a : α} (hx : x.Fails) : ¬ Steps book w n x ds (.done (.ok a)) :=
  fun h => by
    have := hx.steps h
    contradiction

theorem HeedsFaults.step (hx : x.HeedsFaults) (h : Step book w n x ds y) : y.HeedsFaults := by
  cases h <;> first | exact hx.1 _ | exact hx _ | exact hx

/-- A computation that succeeds was not given a fault that leaves no dependency. -/
theorem HeedsFaults.recorded {path : Path} {found : Except IoFault Content}
    {next : Except IoFault String → Tracked (Except Failure α)} {a : α}
    (hx : (Tracked.readText path next).HeedsFaults)
    (h : Steps book w n (next (found.bind Session.textOf)) ds (.done (.ok a))) :
    Session.contentRead? book path found = some (.content path (found.toOption.map book.digest)) := by
  cases found with
  | ok content => rfl
  | error fault =>
    by_cases hf : fault = .notFound
    · subst hf
      rfl
    · exact absurd h (hx.2 fault hf).not_steps_ok

end

/-! ### Taking the same way again -/

section

variable {n : Nat} {x y : Tracked (Except Failure α)} {ds es : List Dependency} {a : α}

/-- A step on the way to success is one in every world that agrees with what it leaves. -/
theorem Step.replay (hinj : Function.Injective book.digest) (hx : x.HeedsFaults)
    (hr : ∀ target cause, w.refuses target cause → v.refuses target cause)
    (h : Step book w n x ds y) (hy : ∃ m, Steps book w m y es (.done (.ok a)))
    (hv : ∀ d ∈ ds, v.Agrees book d) : Step book v n x ds y := by
  obtain ⟨m, hy⟩ := hy
  cases h with
  | @readText path next found hfound =>
    have hrec := hx.recorded hy
    have hd := hv (.content path (found.toOption.map book.digest)) (by simp [hrec])
    refine .readText ?_
    change (v.content path).map book.digest = _ at hd
    exact (Option.map_injective hinj hd).symm
  | isFile =>
    have hd : v.isFile _ = w.isFile _ := hv _ (List.mem_singleton.2 rfl)
    rw [← hd]
    exact .isFile
  | need h =>
    obtain ⟨content, hc, hd⟩ := hv _ (List.mem_singleton.2 rfl)
    rw [← hinj hd]
    exact .need hc
  | needRefused h => exact .needRefused (hr _ _ h)
  | artifact h =>
    obtain ⟨content, hc, hd⟩ := hv _ (List.mem_singleton.2 rfl)
    rw [← hinj hd]
    exact .artifact hc
  | artifactRefused h => exact .artifactRefused (hr _ _ h)
  | count => exact .count
  | tell => exact .tell

/-- A computation that succeeds does the same in every world that agrees with the dependencies that
    it left. -/
theorem Steps.replay (hinj : Function.Injective book.digest) (hx : x.HeedsFaults)
    (hr : ∀ target cause, w.refuses target cause → v.refuses target cause)
    (h : Steps book w n x ds (.done (.ok a))) (hv : ∀ d ∈ ds, v.Agrees book d) :
    Steps book v n x ds (.done (.ok a)) := by
  generalize hz : Tracked.done (Except.ok a) = z at h
  induction h with
  | refl => exact .refl
  | head first rest ih =>
    subst hz
    refine .head (first.replay hinj hx hr ⟨_, rest⟩ fun d hd => hv d (List.mem_append_left _ hd)) ?_
    exact ih (hx.step first) (fun d hd => hv d (List.mem_append_right _ hd)) rfl

/-- A step leaves at most one dependency, which answers the question that was asked. -/
theorem Step.question (h : Step book w n x ds y) :
    ds = [] ∨ ∃ d, ds = [d] ∧ x.question? = some d.question := by
  cases h with
  | @readText path next found h =>
    cases found with
    | ok content => exact .inr ⟨_, rfl, rfl⟩
    | error fault => cases fault <;> first | exact .inl rfl | exact .inr ⟨_, rfl, rfl⟩
  | isFile => exact .inr ⟨_, rfl, rfl⟩
  | need => exact .inr ⟨_, rfl, rfl⟩
  | needRefused => exact .inl rfl
  | artifact => exact .inr ⟨_, rfl, rfl⟩
  | artifactRefused => exact .inl rfl
  | count => exact .inl rfl
  | tell => exact .inl rfl

/-- As far as a world agrees with the dependencies of a computation that succeeds, the computation
    asks in it for the next one of them. -/
theorem Steps.asks (hinj : Function.Injective book.digest) (hx : x.HeedsFaults)
    (hr : ∀ target cause, w.refuses target cause → v.refuses target cause)
    (h : Steps book w n x ds (.done (.ok a))) {pre post : List Dependency} {d : Dependency}
    (hds : ds = pre ++ d :: post) (hv : ∀ e ∈ pre, v.Agrees book e) :
    ∃ y, Steps book v n x pre y ∧ y.question? = some d.question := by
  generalize hz : Tracked.done (Except.ok a) = z at h
  induction h generalizing pre with
  | refl => simp at hds
  | @head n x y z es fs first rest ih =>
    subst hz
    -- The step leaves nothing, or the question itself, or the first of the earlier dependencies.
    rcases first.question with rfl | ⟨e, rfl, hq⟩
    · obtain ⟨y', hy', hq⟩ := ih (hx.step first) (by simpa using hds) hv rfl
      refine ⟨y', ?_, hq⟩
      simpa using Steps.head (first.replay hinj hx hr ⟨_, rest⟩ (by simp)) hy'
    · cases pre with
      | nil =>
        obtain ⟨rfl, -⟩ : e = d ∧ fs = post := by simpa using hds
        exact ⟨x, .refl, hq⟩
      | cons e' pre =>
        obtain ⟨rfl, htail⟩ : e = e' ∧ fs = pre ++ d :: post := by simpa using hds
        obtain ⟨y', hy', hq⟩ :=
          ih (hx.step first) htail (fun e he => hv e (List.mem_cons_of_mem _ he)) rfl
        refine ⟨y', ?_, hq⟩
        exact Steps.head (first.replay hinj hx hr ⟨_, rest⟩ (by simpa using hv e (by simp))) hy'

end

/-! ### What a computation asks for -/

/-- Whether a computation, taken through a world, asks only such questions and has only such
    results. -/
def Meets (w : World) (asks : Question → Prop) (post : α → Prop) : Tracked α → Prop
  | done a => post a
  | readText path next =>
    asks (.content path) ∧
      ∀ found : Except IoFault Content, found.toOption = w.content path →
        (next (found.bind Session.textOf)).Meets w asks post
  | isFile path next => asks (.presence path) ∧ (next (w.isFile path)).Meets w asks post
  | need target next =>
    asks (.artifact target) ∧
      (∀ content, w.makes target content → (next (.ok ())).Meets w asks post) ∧
      ∀ cause, w.refuses target cause → (next (.error cause)).Meets w asks post
  | artifact target next =>
    asks (.artifact target) ∧
      (∀ content, w.makes target content →
        (next (artifactText target content)).Meets w asks post) ∧
      ∀ cause, w.refuses target cause → (next (.error cause)).Meets w asks post
  | count next => ∀ n, (next n).Meets w asks post
  | tell _ next => next.Meets w asks post

section

variable {n : Nat} {x y : Tracked α} {ds : List Dependency} {asks : Question → Prop}
  {post : α → Prop}

theorem Meets.step (hx : x.Meets w asks post) (h : Step book w n x ds y) :
    y.Meets w asks post := by
  cases h with
  | readText h => exact hx.2 _ h
  | isFile => exact hx.2
  | need h => exact hx.2.1 _ h
  | needRefused h => exact hx.2.2 _ h
  | artifact h => exact hx.2.1 _ h
  | artifactRefused h => exact hx.2.2 _ h
  | count => exact hx _
  | tell => exact hx

theorem Meets.steps (hx : x.Meets w asks post) (h : Steps book w n x ds y) :
    y.Meets w asks post := by
  induction h with
  | refl => exact hx
  | head first _ ih => exact ih (hx.step first)

/-- What is asked for is what may be asked for. -/
theorem Meets.asked {q : Question} (hx : x.Meets w asks post) (hq : x.question? = some q) :
    asks q := by
  cases x <;> simp only [question?, Option.some.injEq, reduceCtorEq] at hq
  all_goals
    subst hq
    exact hx.1

/-- A computation meets what its first part and its second part meet, one after the other. -/
theorem Meets.bind {f : α → Tracked β} {between : α → Prop} {post : β → Prop}
    (hx : x.Meets w asks between) (hf : ∀ a, between a → (f a).Meets w asks post) :
    (x.bind f).Meets w asks post := by
  induction x with
  | done a => exact hf a hx
  | readText path next ih => exact ⟨hx.1, fun found h => ih _ (hx.2 found h)⟩
  | isFile path next ih => exact ⟨hx.1, ih _ hx.2⟩
  | need target next ih =>
    exact ⟨hx.1, fun content h => ih _ (hx.2.1 content h), fun cause h => ih _ (hx.2.2 cause h)⟩
  | artifact target next ih =>
    exact ⟨hx.1, fun content h => ih _ (hx.2.1 content h), fun cause h => ih _ (hx.2.2 cause h)⟩
  | count next ih => exact fun n => ih n (hx n)
  | tell event next ih => exact ih hx

theorem Meets.mono {asks' : Question → Prop} {post' : α → Prop} (hx : x.Meets w asks post)
    (ha : ∀ q, asks q → asks' q) (hp : ∀ a, post a → post' a) : x.Meets w asks' post' := by
  induction x with
  | done a => exact hp a hx
  | readText path next ih => exact ⟨ha _ hx.1, fun found h => ih _ (hx.2 found h)⟩
  | isFile path next ih => exact ⟨ha _ hx.1, ih _ hx.2⟩
  | need target next ih =>
    exact ⟨ha _ hx.1, fun content h => ih _ (hx.2.1 content h),
      fun cause h => ih _ (hx.2.2 cause h)⟩
  | artifact target next ih =>
    exact ⟨ha _ hx.1, fun content h => ih _ (hx.2.1 content h),
      fun cause h => ih _ (hx.2.2 cause h)⟩
  | count next ih => exact fun n => ih n (hx n)
  | tell event next ih => exact ih hx

end

end Tracked

end ImportIndex
