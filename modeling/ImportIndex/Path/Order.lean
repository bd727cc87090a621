import ImportIndex.Path.Basic

/-!
# The order of paths

Paths are ordered by their components: the root comes before `.`, that before `..`, and that before
names, which go by their bytes. So `a/b` comes before `a.b`, and two paths compare as equal exactly
when they are the same (`Path.compare_eq_iff`).

The first difference of two spellings mostly tells which path comes first, without taking them
apart: if neither byte is a separator or a dot, both are in names, which have the same components
before them. So paths go by their keys, however they are compared (`Path.compare_eq`).
-/

namespace ImportIndex

namespace Component

/-- A key whose lexicographic order is the order of components. -/
def key : Component → Bytes
  | root => [0]
  | here => [1]
  | up => [2]
  | name n => 3 :: n

theorem key_injective {a b : Component} (h : a.key = b.key) : a = b := by
  cases a <;> cases b <;> simp_all [key]

end Component

namespace Path

/-- The list of keys whose lexicographic order is the order of paths. -/
def key (p : Path) : List Bytes := p.components.map Component.key

theorem key_eq_iff {p q : Path} : p.key = q.key ↔ p.Same q := by
  constructor
  · intro h
    exact List.map_inj_right (fun _ _ => Component.key_injective) |>.1 h
  · intro h
    rw [key, key, h]

/-- Whether a byte is in a name wherever it stands. -/
def isOrdinary (b : UInt8) : Bool := b != separator && b != dot

/-- The order of two spellings, if they are equal or their first difference tells it. -/
def order? : Bytes → Bytes → Option Ordering
  | [], [] => some .eq
  | a :: p, b :: q =>
    if a = b then order? p q
    else if isOrdinary a && isOrdinary b then some (Ord.compare a b)
    else none
  | _, _ => none

/-- The order of paths. -/
def compare (p q : Path) : Ordering :=
  (order? p.bytes q.bytes).getD (Ord.compare p.key q.key)

/-- Whether `p` comes before `q` or is the same. -/
def le (p q : Path) : Bool := (p.compare q).isLE

/-! ### What the first difference tells -/

theorem order?_eq_some {p q : Bytes} {o : Ordering} (h : order? p q = some o) :
    (p = q ∧ o = .eq) ∨ ∃ u x y r s, p = u ++ x :: r ∧ q = u ++ y :: s ∧ x ≠ y ∧
      isOrdinary x = true ∧ isOrdinary y = true ∧ o = Ord.compare x y := by
  fun_induction order? p q with
  | case1 => simp_all
  | case2 p a q ih =>
    rcases ih h with ⟨rfl, ho⟩ | ⟨u, x, y, r, s, rfl, rfl, hd⟩
    · exact .inl ⟨rfl, ho⟩
    · exact .inr ⟨a :: u, x, y, r, s, rfl, rfl, hd⟩
  | case3 a p b q hab hord =>
    rw [Bool.and_eq_true] at hord
    exact .inr ⟨[], a, b, p, q, rfl, rfl, hab, hord.1, hord.2, (Option.some.inj h).symm⟩
  | case4 => contradiction
  | case5 => contradiction

/-- Whatever ordinary byte comes after `u`, the same pieces end in `u`, and that byte follows the
    same start of a piece. -/
theorem exists_splitAt_append (u : Bytes) : ∃ pieces start, ∀ x rest, isOrdinary x = true →
    ∃ more later,
      splitAt separator (u ++ x :: rest) = pieces ++ (start ++ x :: more) :: later := by
  induction u with
  | nil =>
    refine ⟨[], [], fun x rest hx => ?_⟩
    have hx : x ≠ separator := by simp_all [isOrdinary]
    rw [List.nil_append, splitAt, splitWhere]
    cases splitWhere (· == separator) rest <;> simp [hx]
  | cons b u ih =>
    obtain ⟨pieces, start, ih⟩ := ih
    by_cases hb : b = separator
    · refine ⟨[] :: pieces, start, fun x rest hx => ?_⟩
      obtain ⟨more, later, h⟩ := ih x rest hx
      exact ⟨more, later, by simp_all [splitAt, splitWhere]⟩
    · cases pieces with
      | nil =>
        refine ⟨[], b :: start, fun x rest hx => ?_⟩
        obtain ⟨more, later, h⟩ := ih x rest hx
        exact ⟨more, later, by simp_all [splitAt, splitWhere]⟩
      | cons piece pieces =>
        refine ⟨(b :: piece) :: pieces, start, fun x rest hx => ?_⟩
        obtain ⟨more, later, h⟩ := ih x rest hx
        exact ⟨more, later, by simp_all [splitAt, splitWhere]⟩

/-- A piece that holds an ordinary byte is a name. -/
theorem pieceComponent?_of_isOrdinary {x : UInt8} (hx : isOrdinary x = true) (start more : Bytes) :
    pieceComponent? (start ++ x :: more) = some (.name (start ++ x :: more)) := by
  have hmem : x ∈ start ++ x :: more := by simp
  have hdot : x ≠ 0x2E := by simp_all [isOrdinary, dot]
  have hhere : start ++ x :: more ≠ herePiece := fun h => by simp_all [herePiece]
  have hup : start ++ x :: more ≠ upPiece := fun h => by simp_all [upPiece]
  simp [pieceComponent?, isIdle, hhere, hup]

theorem components_of_head?_ne {b : Bytes} (h : b.head? ≠ some separator) :
    (Path.mk b).components = match splitAt separator b with
      | [] => []
      | piece :: pieces =>
        if piece = herePiece then .here :: pieces.filterMap pieceComponent?
        else (piece :: pieces).filterMap pieceComponent? := by
  cases b with
  | nil => rfl
  | cons b rest =>
    have hb : b ≠ separator := by simpa using h
    rw [components, layout]
    simp only [hb, if_false]
    cases splitAt separator (b :: rest) with
    | nil => rfl
    | cons piece pieces => by_cases hp : piece = herePiece <;> simp [hp]

/-- Whatever ordinary byte comes after `u`, the same components end in `u`, and that byte follows
    the same start of a name. -/
theorem exists_components_append (u : Bytes) : ∃ before start, ∀ x rest, isOrdinary x = true →
    ∃ more later, (Path.mk (u ++ x :: rest)).components =
      before ++ .name (start ++ x :: more) :: later := by
  by_cases hu : u.head? = some separator
  · obtain ⟨u, rfl⟩ : ∃ v, u = separator :: v := by
      cases u <;> simp_all
    obtain ⟨pieces, start, h⟩ := exists_splitAt_append u
    refine ⟨.root :: pieces.filterMap pieceComponent?, start, fun x rest hx => ?_⟩
    obtain ⟨more, later, h⟩ := h x rest hx
    refine ⟨more, later.filterMap pieceComponent?, ?_⟩
    simp [components, layout, h, pieceComponent?_of_isOrdinary hx]
  · obtain ⟨pieces, start, h⟩ := exists_splitAt_append u
    have hhead : ∀ x rest, isOrdinary x = true → (u ++ x :: rest).head? ≠ some separator := by
      intro x rest hx
      cases u <;> simp_all [isOrdinary]
    cases pieces with
    | nil =>
      refine ⟨[], start, fun x rest hx => ?_⟩
      obtain ⟨more, later, h⟩ := h x rest hx
      refine ⟨more, later.filterMap pieceComponent?, ?_⟩
      have hhere : start ++ x :: more ≠ herePiece := fun h' => by
        have := pieceComponent?_of_isOrdinary hx start more
        rw [h'] at this
        contradiction
      rw [components_of_head?_ne (hhead x rest hx), h]
      simp [hhere, pieceComponent?_of_isOrdinary hx]
    | cons piece pieces =>
      refine ⟨if piece = herePiece then .here :: pieces.filterMap pieceComponent?
        else (piece :: pieces).filterMap pieceComponent?, start, fun x rest hx => ?_⟩
      obtain ⟨more, later, h⟩ := h x rest hx
      refine ⟨more, later.filterMap pieceComponent?, ?_⟩
      rw [components_of_head?_ne (hhead x rest hx), h]
      by_cases hp : piece = herePiece
      · simp [hp, pieceComponent?_of_isOrdinary hx]
      · rw [List.cons_append]
        simp only [if_neg hp]
        rw [← List.cons_append, List.filterMap_append,
          List.filterMap_cons_some (pieceComponent?_of_isOrdinary hx start more)]

/-- Lists with a common start go by the first elements after it, if these differ. -/
theorem compare_append_cons {α : Type} [Ord α] [Std.ReflOrd α] {a b : α}
    (h : Ord.compare a b ≠ .eq) (u r s : List α) :
    Ord.compare (u ++ a :: r) (u ++ b :: s) = Ord.compare a b := by
  induction u with
  | nil =>
    rw [List.nil_append, List.nil_append, List.compare_cons_cons]
    cases hc : Ord.compare a b <;> simp_all
  | cons c u ih =>
    rw [List.cons_append, List.cons_append, List.compare_cons_cons, Std.ReflOrd.compare_self, ih]
    rfl

/-- Paths go by their keys. -/
theorem compare_eq (p q : Path) : p.compare q = Ord.compare p.key q.key := by
  obtain ⟨p⟩ := p
  obtain ⟨q⟩ := q
  rw [compare]
  cases ho : order? p q with
  | none => rfl
  | some o =>
    rcases order?_eq_some ho with ⟨rfl, rfl⟩ | ⟨u, x, y, r, s, rfl, rfl, hxy, hx, hy, rfl⟩
    · exact Std.ReflOrd.compare_self.symm
    · obtain ⟨before, start, h⟩ := exists_components_append u
      obtain ⟨more, later, hr⟩ := h x r hx
      obtain ⟨more', later', hs⟩ := h y s hy
      have hne : Ord.compare x y ≠ .eq := fun h => hxy (Std.LawfulEqOrd.eq_of_compare h)
      have hname : Ord.compare (Component.name (start ++ x :: more)).key
          (Component.name (start ++ y :: more')).key = Ord.compare x y :=
        compare_append_cons hne (3 :: start) more more'
      rw [key, key, hr, hs, List.map_append, List.map_append, List.map_cons, List.map_cons,
        compare_append_cons (by rwa [hname]), hname]
      rfl

/-- Two paths compare as equal exactly when they are the same. -/
theorem compare_eq_iff {p q : Path} : p.compare q = .eq ↔ p.Same q := by
  rw [compare_eq, Std.LawfulEqOrd.compare_eq_iff_eq, key_eq_iff]

instance (p q : Path) : Decidable (p.Same q) :=
  decidable_of_iff (p.compare q = .eq) compare_eq_iff

theorem compare_eq_compareOn : compare = compareOn key :=
  funext fun p => funext fun q => compare_eq p q

/-- The order of paths is a total one. -/
instance : Std.TransCmp Path.compare := by
  rw [compare_eq_compareOn]
  infer_instance

end Path

end ImportIndex
