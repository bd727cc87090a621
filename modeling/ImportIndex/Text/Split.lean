/-!
# Splitting and joining

The pieces of a list between separators. A list with `n` separators has `n + 1` pieces, some of
which may be empty, so nothing is lost: joining the pieces gives the list back
(`joinWith_splitAt`), and cutting at a separator cuts the pieces (`splitAt_append_cons`).
-/

namespace ImportIndex

variable {α : Type}

/-- The pieces of a list between the elements that satisfy `sep`, which are dropped. -/
def splitWhere (sep : α → Bool) : List α → List (List α)
  | [] => [[]]
  | x :: xs =>
    if sep x then [] :: splitWhere sep xs
    else match splitWhere sep xs with
      | [] => [[x]]
      | p :: ps => (x :: p) :: ps

/-- The pieces of a list between the occurrences of `sep`. -/
def splitAt [BEq α] (sep : α) (l : List α) : List (List α) :=
  splitWhere (· == sep) l

/-- Puts `sep` between the pieces. -/
def joinWith (sep : α) : List (List α) → List α
  | [] => []
  | [p] => p
  | p :: ps => p ++ sep :: joinWith sep ps

theorem splitWhere_ne_nil (sep : α → Bool) (l : List α) : splitWhere sep l ≠ [] := by
  cases l with
  | nil => simp [splitWhere]
  | cons x xs =>
    rw [splitWhere]
    split
    · simp
    · split <;> simp

/-- Cutting a list at a separator cuts its pieces. -/
theorem splitWhere_append_cons {sep : α → Bool} {x : α} (hx : sep x = true) (l r : List α) :
    splitWhere sep (l ++ x :: r) = splitWhere sep l ++ splitWhere sep r := by
  induction l with
  | nil => simp [splitWhere, hx]
  | cons y l ih =>
    rw [List.cons_append, splitWhere, splitWhere, ih]
    split
    · simp
    · cases h : splitWhere sep l with
      | nil => exact absurd h (splitWhere_ne_nil sep l)
      | cons p ps => simp

theorem splitAt_append_cons [BEq α] [LawfulBEq α] (sep : α) (l r : List α) :
    splitAt sep (l ++ sep :: r) = splitAt sep l ++ splitAt sep r :=
  splitWhere_append_cons (by simp) l r

/-- Joining the pieces gives the list back. -/
theorem joinWith_splitAt [BEq α] [LawfulBEq α] (sep : α) (l : List α) :
    joinWith sep (splitAt sep l) = l := by
  induction l with
  | nil => rfl
  | cons x xs ih =>
    rw [splitAt, splitWhere]
    split
    · next h =>
      rw [← ih]
      cases h' : splitWhere (· == sep) xs with
      | nil => exact absurd h' (splitWhere_ne_nil _ _)
      | cons p ps => simp_all [joinWith, splitAt]
    · cases h' : splitWhere (· == sep) xs with
      | nil => exact absurd h' (splitWhere_ne_nil _ _)
      | cons p ps =>
        rw [splitAt, h'] at ih
        cases ps with
        | nil => simpa [joinWith] using ih
        | cons q qs => simpa [joinWith] using ih

end ImportIndex
