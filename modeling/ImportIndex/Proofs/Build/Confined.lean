import ImportIndex.Proofs.Build.Evaluation
import ImportIndex.Proofs.Build.Course

/-!
# What a computation asks for and comes to

A tracked computation is *confined* if it asks nothing but certain questions and comes to nothing but certain
results, whatever the answers are (`Tracked.Confined`). So it does in every session, however its requests are
answered there (`Session.Answers.confined`, `Session.confined_answer`), on whatever disk.
-/

namespace ImportIndex

namespace Tracked

variable {α β : Type} {asks : Question → Prop} {between post : α → Prop} {after : β → Prop} {x : Tracked α}

/-- Whether a computation asks only such questions and has only such results, whatever answers it is given. -/
def Confined (asks : Question → Prop) (post : α → Prop) : Tracked α → Prop
  | done a => post a
  | readText path next => asks (.content path) ∧ ∀ answer, (next answer).Confined asks post
  | isFile path next => asks (.presence path) ∧ ∀ answer, (next answer).Confined asks post
  | need target next => asks (.artifact target) ∧ ∀ answer, (next answer).Confined asks post
  | artifact target next => asks (.artifact target) ∧ ∀ answer, (next answer).Confined asks post
  | count next => ∀ answer, (next answer).Confined asks post
  | tell _ next => next.Confined asks post

theorem Confined.bind {f : α → Tracked β} (hx : x.Confined asks between)
    (hf : ∀ a, between a → (f a).Confined asks after) : (x.bind f).Confined asks after := by
  induction x with
  | done a => exact hf a hx
  | readText path next ih => exact ⟨hx.1, fun answer => ih answer (hx.2 answer)⟩
  | isFile path next ih => exact ⟨hx.1, fun answer => ih answer (hx.2 answer)⟩
  | need target next ih => exact ⟨hx.1, fun answer => ih answer (hx.2 answer)⟩
  | artifact target next ih => exact ⟨hx.1, fun answer => ih answer (hx.2 answer)⟩
  | count next ih => exact fun answer => ih answer (hx answer)
  | tell event next ih => exact ih hx

theorem Confined.mono {x : Tracked α} (hx : x.Confined asks between) (hpost : ∀ a, between a → post a) :
    x.Confined asks post := by
  rw [← bind_done x]
  exact hx.bind hpost

theorem Confined.asksOnly (hx : x.Confined asks post) : x.AsksOnly asks := by
  induction x with
  | done a => trivial
  | readText path next ih => exact ⟨hx.1, fun answer => ih answer (hx.2 answer)⟩
  | isFile path next ih => exact ⟨hx.1, fun answer => ih answer (hx.2 answer)⟩
  | need target next ih => exact ⟨hx.1, fun answer => ih answer (hx.2 answer)⟩
  | artifact target next ih => exact ⟨hx.1, fun answer => ih answer (hx.2 answer)⟩
  | count next ih => exact fun answer => ih answer (hx answer)
  | tell event next ih => exact ih hx

end Tracked

/-- A recipe is confined if its parts are: the first one to what the second one can go on with. -/
theorem Recipe.confined_bind {α β : Type} {asks : Question → Prop} {x : Recipe α} {f : α → Recipe β}
    {between : Except Failure α → Prop} {post : Except Failure β → Prop}
    (hx : x.run.Confined asks between) (hok : ∀ a, between (.ok a) → (f a).run.Confined asks post)
    (herror : ∀ cause, between (.error cause) → post (.error cause)) :
    (x >>= f).run.Confined asks post := by
  refine Tracked.Confined.bind hx fun r hr => ?_
  cases r with
  | ok a => exact hok a hr
  | error cause => exact herror cause hr

namespace Session

variable {α : Type} {book : Rulebook} {ends : Ending} {asks : Question → Prop} {post : α → Prop}
  {x : Tracked α} {before : List Dependency} {s s' : Session} {a : α × List Dependency}

/-- What a computation comes to in a session. -/
theorem Answers.confined (h : Answers book ends s x before a s') (hx : x.Confined asks post) :
    post a.1 := by
  induction h with
  | done => exact hx
  | readText _ ih => exact ih (hx.2 _)
  | isFile _ ih => exact ih (hx.2 _)
  | need _ _ _ ih => exact ih (hx.2 _)
  | needRefused _ _ ih => exact ih (hx.2 _)
  | artifact _ _ _ ih => exact ih (hx.2 _)
  | artifactRefused _ _ ih => exact ih (hx.2 _)
  | count _ ih => exact ih (hx _)
  | tell _ _ ih => exact ih hx

/-- What a computation comes to when it is answered, however targets are required. -/
theorem confined_answer {require : Require} {t : Path} (hx : x.Confined asks post)
    (h : answer book require t x before s = some (a, s')) : post a.1 := by
  have hreq : ∀ s u, (require u).Ends s False fun r s' => require u s = some (r, s') :=
    fun s u => ⟨fun _ _ h => h, False.elim⟩
  exact ((answer_course hreq).1 a s' h).confined hx

end Session

end ImportIndex
