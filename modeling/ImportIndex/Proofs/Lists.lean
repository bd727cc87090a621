import Mathlib.Data.List.Forall2
import Mathlib.Data.List.Nodup

/-!
# Lists made of others

What is known of lists whose items come from those of another list: by a function that may fail on
some of them, or side by side. A list without its repetitions has no item twice
(`nodup_eraseDups`), and what holds of each item from some depth on holds of all of them at one
(`exists_depth`). That one item comes before another one is said by a list of both (`pair_sublist_trans`).
-/

namespace ImportIndex

/-- What comes out of a list, one by one, comes from something in it. -/
theorem exists_of_mapM_eq_ok {ε α β : Type} {f : α → Except ε β} {l : List α} {m : List β}
    (h : l.mapM f = .ok m) {b : β} (hb : b ∈ m) : ∃ a ∈ l, f a = .ok b := by
  induction l generalizing m with
  | nil =>
    obtain rfl := Except.ok.inj h
    contradiction
  | cons a l ih =>
    rw [List.mapM_cons] at h
    cases ha : f a with
    | error e => simp [ha, bind, Except.bind] at h
    | ok b' =>
      cases hl : l.mapM f with
      | error e => simp [ha, hl, bind, Except.bind] at h
      | ok m' =>
        obtain rfl : b' :: m' = m := by simpa [ha, hl, bind, Except.bind, pure, Except.pure] using h
        rcases List.mem_cons.1 hb with rfl | hb
        · exact ⟨a, List.mem_cons_self, ha⟩
        · obtain ⟨a', ha', hfa⟩ := ih hl hb
          exact ⟨a', List.mem_cons_of_mem _ ha', hfa⟩

/-- What is made of a list, one by one: either all of it comes out, or it ends with the first item that
    fails. -/
theorem mapM_cases {ε α β : Type} (f : α → Except ε β) (l : List α) :
    (∃ before a after e, l = before ++ a :: after ∧ (∀ b ∈ before, ∃ c, f b = .ok c) ∧
      f a = .error e ∧ l.mapM f = .error e) ∨
    ∃ m, l.mapM f = .ok m ∧ List.Forall₂ (fun a c => f a = .ok c) l m := by
  induction l with
  | nil => exact .inr ⟨[], rfl, .nil⟩
  | cons a l ih =>
    rw [List.mapM_cons]
    cases ha : f a with
    | error e => exact .inl ⟨[], a, l, e, rfl, by simp, ha, rfl⟩
    | ok c =>
      rcases ih with ⟨before, a', after, e, rfl, hbefore, ha', hl⟩ | ⟨m, hl, hm⟩
      · refine .inl ⟨a :: before, a', after, e, rfl, List.forall_mem_cons.2 ⟨⟨c, ha⟩, hbefore⟩, ha', ?_⟩
        rw [hl]
        rfl
      · refine .inr ⟨c :: m, ?_, .cons ha hm⟩
        rw [hl]
        rfl

theorem mapM_eq_some_iff {α β : Type} {f : α → Option β} {l : List α} {m : List β} :
    l.mapM f = some m ↔ List.Forall₂ (fun a b => f a = some b) l m := by
  induction l generalizing m with
  | nil => cases m <;> simp [pure]
  | cons a l ih =>
    rw [List.mapM_cons, Option.bind_eq_bind, Option.bind_eq_some_iff]
    constructor
    · rintro ⟨b, hb, h⟩
      obtain ⟨m', hm', h⟩ := Option.bind_eq_some_iff.1 h
      obtain rfl := Option.some.inj h
      exact .cons hb (ih.1 hm')
    · rintro (_ | ⟨hb, h⟩)
      exact ⟨_, hb, Option.bind_eq_some_iff.2 ⟨_, ih.2 h, rfl⟩⟩

theorem exists_of_forall₂ {α β : Type} {r : α → β → Prop} {l : List α} {m : List β}
    (h : List.Forall₂ r l m) {b : β} (hb : b ∈ m) : ∃ a ∈ l, r a b := by
  induction h with
  | nil => contradiction
  | cons hab _ ih =>
    rcases List.mem_cons.1 hb with rfl | hb
    · exact ⟨_, List.mem_cons_self, hab⟩
    · obtain ⟨a, ha, hr⟩ := ih hb
      exact ⟨a, List.mem_cons_of_mem _ ha, hr⟩

theorem forall₂_of_mem {α β : Type} {r r' : α → β → Prop} {l : List α} {m : List β}
    (h : List.Forall₂ r l m) (hr : ∀ a b, a ∈ l → r a b → r' a b) : List.Forall₂ r' l m := by
  induction h with
  | nil => exact .nil
  | cons hab _ ih =>
    exact .cons (hr _ _ List.mem_cons_self hab) (ih fun a b ha => hr a b (List.mem_cons_of_mem _ ha))

/-- Where a depth suffices for each item of a list, one depth suffices for all of them. -/
theorem exists_depth {α : Type} {P : Nat → α → Prop} {l : List α}
    (mono : ∀ {n m a}, n ≤ m → P n a → P m a) (h : ∀ a ∈ l, ∃ n, P n a) : ∃ n, ∀ a ∈ l, P n a := by
  induction l with
  | nil => exact ⟨0, by simp⟩
  | cons a l ih =>
    rw [List.forall_mem_cons] at h
    obtain ⟨⟨n, hn⟩, hl⟩ := h
    obtain ⟨m, hm⟩ := ih hl
    refine ⟨max n m, List.forall_mem_cons.2 ⟨mono (Nat.le_max_left n m) hn, fun b hb => ?_⟩⟩
    exact mono (Nat.le_max_right n m) (hm b hb)

theorem nodup_eraseDups {α : Type} [DecidableEq α] (l : List α) : l.eraseDups.Nodup := by
  induction hn : l.length using Nat.strongRecOn generalizing l with
  | ind n ih =>
    cases l with
    | nil => simp
    | cons a l =>
      rw [List.eraseDups_cons, List.nodup_cons]
      refine ⟨by simp, ih _ ?_ _ rfl⟩
      rw [← hn, List.length_cons]
      exact Nat.lt_succ_of_le (List.length_filter_le _ l)

/-- Of two items of a list, either they are the same one or one comes before the other. -/
theorem pair_sublist_of_mem {α : Type} {l : List α} {a b : α} (ha : a ∈ l) (hb : b ∈ l) :
    a = b ∨ [a, b].Sublist l ∨ [b, a].Sublist l := by
  induction l with
  | nil => cases ha
  | cons c l ih =>
    rcases List.mem_cons.1 ha with rfl | ha'
    · rcases List.mem_cons.1 hb with rfl | hb'
      · exact .inl rfl
      · exact .inr (.inl (.cons_cons _ (List.singleton_sublist.2 hb')))
    · rcases List.mem_cons.1 hb with rfl | hb'
      · exact .inr (.inr (.cons_cons _ (List.singleton_sublist.2 ha')))
      · exact (ih ha' hb').imp_right (Or.imp (.cons _) (.cons _))

/-- What comes before an item of a list without repetitions comes before all that comes after it. -/
theorem pair_sublist_trans {α : Type} {l : List α} {a b c : α} (hl : l.Nodup)
    (hab : [a, b].Sublist l) (hbc : [b, c].Sublist l) : [a, c].Sublist l := by
  induction l with
  | nil => cases hab
  | cons d l ih =>
    rw [List.nodup_cons] at hl
    rcases List.cons_sublist_cons'.1 hbc with hbc' | ⟨rfl, hc⟩
    · rcases List.cons_sublist_cons'.1 hab with hab' | ⟨rfl, -⟩
      · exact .cons _ (ih hl.2 hab' hbc')
      · exact .cons_cons _ (List.singleton_sublist.2 (hbc'.subset (by simp)))
    · -- The item in the middle is the first one, so nothing comes before it.
      rcases List.cons_sublist_cons'.1 hab with hab' | ⟨rfl, hb⟩
      · exact absurd (hab'.subset (by simp)) hl.1
      · exact absurd (List.singleton_sublist.1 hb) hl.1

end ImportIndex
