import ImportIndex.Proofs.Build.BuildOrder
import ImportIndex.Proofs.Path.Sorted

/-!
# What a task graph makes of what it was told

A graph is told of tasks and of edges, one by one and in any order (`TaskGraph.ofAdditions`). It takes paths
that are the same for one task and keeps the spelling of the first mention, so that it knows an edge under
every spelling of its ends (`joins_ofAdditions`). What it answers depends on nothing else
(`TaskGraph.buildOrder_of_additions`):

* it has a build order exactly if the edges that it was told have no cycle;
* the order lists every task once, each after all that it needs;
* a task that is named instead lies on a cycle;
* what a task needs is listed in the order of paths, and once.
-/

namespace ImportIndex

namespace FirstSeen

variable {l : FirstSeen} {ps : List Path} {p q : Path}

theorem mem_toList_add : q ∈ (l.add p).toList ↔ q ∈ l.toList ∨ q = p ∧ ∀ r ∈ l.toList, ¬ r.Same q := by
  rw [toList_add]
  split
  · next h =>
    refine (or_iff_left ?_).symm
    rintro ⟨rfl, hnone⟩
    obtain ⟨r, hr, hs⟩ := contains_iff.1 h
    exact hnone r hr hs
  · next h =>
    rw [List.mem_append, List.mem_singleton]
    refine or_congr_right (iff_self_and.2 ?_)
    rintro rfl r hr hs
    exact h (contains_iff.2 ⟨r, hr, hs⟩)

/-- What is added is in the list in the spelling in which it comes first. -/
theorem mem_toList_addAll : q ∈ (l.addAll ps).toList ↔ q ∈ l.toList ∨ (∀ r ∈ l.toList, ¬ r.Same q) ∧
    ∃ before after, ps = before ++ q :: after ∧ ∀ r ∈ before, ¬ r.Same q := by
  induction ps generalizing l with
  | nil => simp [addAll]
  | cons p ps ih =>
    change q ∈ ((l.add p).addAll ps).toList ↔ _
    have hnone : (∀ r ∈ (l.add p).toList, ¬ r.Same q) ↔ (∀ r ∈ l.toList, ¬ r.Same q) ∧ ¬ p.Same q := by
      have := contains_add (l := l) (p := p) (q := q)
      rw [Bool.eq_iff_iff, Bool.or_eq_true, decide_eq_true_iff, contains_iff, contains_iff] at this
      simpa [not_or, and_comm] using not_congr this
    rw [ih, mem_toList_add, hnone]
    constructor
    · rintro ((hq | ⟨rfl, hl⟩) | ⟨⟨hl, hp⟩, before, after, rfl, hbefore⟩)
      · exact .inl hq
      · exact .inr ⟨hl, [], ps, rfl, by simp⟩
      · exact .inr ⟨hl, p :: before, after, rfl, List.forall_mem_cons.2 ⟨hp, hbefore⟩⟩
    · rintro (hq | ⟨hl, before, after, heq, hbefore⟩)
      · exact .inl (.inl hq)
      · cases before with
        | nil =>
          obtain ⟨rfl, rfl⟩ := List.cons.inj heq
          exact .inl (.inr ⟨rfl, hl⟩)
        | cons r before =>
          obtain ⟨rfl, rfl⟩ := List.cons.inj heq
          rw [List.forall_mem_cons] at hbefore
          exact .inr ⟨⟨hl, hbefore.1⟩, before, after, rfl, hbefore.2⟩

end FirstSeen

namespace TaskGraph

variable {g : TaskGraph} {t u v a b : Path}

/-! ### Edges under any spelling -/

/-- Whether the task that is the same path as `t` needs the one that is the same path as `u`. -/
def Joins (g : TaskGraph) (t u : Path) : Prop := ∃ a b, g.Edge a b ∧ a.Same t ∧ b.Same u

theorem joins_congr (h : t.Same v) : g.Joins t u ↔ g.Joins v u :=
  ⟨fun ⟨a, b, hedge, ha, hb⟩ => ⟨a, b, hedge, ha.trans h, hb⟩,
    fun ⟨a, b, hedge, ha, hb⟩ => ⟨a, b, hedge, ha.trans h.symm, hb⟩⟩

theorem Sane.joins_addTask (hg : g.Sane) : (g.addTask v).Joins t u ↔ g.Joins t u := by
  simp only [Joins, hg.edge_addTask]

/-- An edge that is added joins its ends, and the others are as they were. -/
theorem Sane.joins_addDependency (hg : g.Sane) :
    (g.addDependency a b).Joins t u ↔ g.Joins t u ∨ a.Same t ∧ b.Same u := by
  obtain ⟨a', b', ha, hb, hsa, hsb, he⟩ := addDependency_eq (g := g) a b
  simp only [Joins, he, hg.addTask.addTask.edge_addEdge ha hb, hg.addTask.edge_addTask, hg.edge_addTask]
  constructor
  · rintro ⟨c, d, hedge | ⟨rfl, rfl⟩, hc, hd⟩
    · exact .inl ⟨c, d, hedge, hc, hd⟩
    · exact .inr ⟨hsa.symm.trans hc, hsb.symm.trans hd⟩
  · rintro (⟨c, d, hedge, hc, hd⟩ | ⟨ht, hu⟩)
    · exact ⟨c, d, .inl hedge, hc, hd⟩
    · exact ⟨a', b', .inr ⟨rfl, rfl⟩, hsa.trans ht, hsb.trans hu⟩

theorem Sane.joins_iff_edge (hg : g.Sane) (ht : t ∈ g.tasks) (hu : u ∈ g.tasks) :
    g.Joins t u ↔ g.Edge t u := by
  constructor
  · rintro ⟨a, b, hedge, ha, hb⟩
    obtain rfl := eq_of_same hedge.1 ht ha
    obtain rfl := eq_of_same (hg.target hedge) hu hb
    exact hedge
  · exact fun h => ⟨t, u, h, rfl, rfl⟩

/-- A way along edges under any spelling is one between tasks. -/
theorem Sane.transGen_joins_iff (hg : g.Sane) : Relation.TransGen g.Joins t u ↔
    ∃ a b, Relation.TransGen g.Edge a b ∧ a.Same t ∧ b.Same u := by
  constructor
  · intro h
    induction h with
    | single h =>
      obtain ⟨a, b, hedge, ha, hb⟩ := h
      exact ⟨a, b, .single hedge, ha, hb⟩
    | tail _ h ih =>
      obtain ⟨a, b, hway, ha, hb⟩ := ih
      obtain ⟨b', c, hedge, hb', hc⟩ := h
      -- The way ends in a task, which is the one that the edge leads from.
      have hmem : b ∈ g.tasks := by
        obtain ⟨d, -, hlast⟩ := Relation.TransGen.tail'_iff.1 hway
        exact hg.target hlast
      obtain rfl := eq_of_same hmem hedge.1 (hb.trans hb'.symm)
      exact ⟨a, c, hway.tail hedge, ha, hc⟩
  · rintro ⟨a, b, hway, ha, hb⟩
    induction hway generalizing u with
    | single h => exact .single ⟨a, _, h, ha, hb⟩
    | tail _ h ih => exact (ih rfl).tail ⟨_, _, h, rfl, hb⟩

/-- A task is found in the spelling in which it was first added. -/
theorem find?_eq_some_iff : g.find? t = some u ↔ u ∈ g.tasks ∧ u.Same t := by
  constructor
  · intro h
    have hs := PathTable.same_of_spelling? h
    refine ⟨FirstSeen.mem_toList_iff.2 ?_, hs⟩
    rw [FirstSeen.spelling?, PathTable.spelling?_congr hs]
    exact h
  · rintro ⟨hu, hs⟩
    rw [tasks, FirstSeen.mem_toList_iff, FirstSeen.spelling?, PathTable.spelling?_congr hs] at hu
    exact hu

/-- What a target needs are the tasks that an edge joins it to. -/
theorem Sane.mem_dependencies_iff (hg : g.Sane) :
    u ∈ g.dependencies t ↔ u ∈ g.tasks ∧ g.Joins t u := by
  rw [dependencies]
  cases hfind : g.find? t with
  | none =>
    simp only [List.not_mem_nil, false_iff, not_and]
    rintro - ⟨a, b, hedge, ha, -⟩
    cases hfind.symm.trans (find?_eq_some_iff.2 ⟨hedge.1, ha⟩)
  | some task =>
    obtain ⟨hmem, hs⟩ := find?_eq_some_iff.1 hfind
    rw [Path.mem_sorted, ← joins_congr hs]
    constructor
    · exact fun hu => ⟨hg.target ⟨hmem, hu⟩, task, u, ⟨hmem, hu⟩, rfl, rfl⟩
    · exact fun ⟨hu, h⟩ => ((hg.joins_iff_edge hmem hu).1 h).2

/-- What a target needs is listed in the order of paths, and no path is listed twice. -/
theorem pairwise_dependencies (g : TaskGraph) (t : Path) :
    (g.dependencies t).Pairwise fun p q => p.compare q = .lt := by
  rw [dependencies]
  cases g.find? t with
  | none => exact .nil
  | some task => exact Path.pairwise_sorted FirstSeen.pairwise_toList

/-! ### Additions -/

/-- Something that a graph is told. -/
inductive Addition where
  /-- That there is this task. -/
  | task (target : Path)
  /-- That one task needs another one. -/
  | edge (dependent dependency : Path)

/-- The tasks that are mentioned. -/
def Addition.mentions : Addition → List Path
  | task target => [target]
  | edge dependent dependency => [dependent, dependency]

/-- Adds what is told. -/
def add (g : TaskGraph) : Addition → TaskGraph
  | .task target => g.addTask target
  | .edge dependent dependency => g.addDependency dependent dependency

/-- The graph that was told this and nothing else. -/
def ofAdditions (additions : List Addition) : TaskGraph := additions.foldl add {}

/-- Whether an edge was told between paths that are the same as these. -/
def Told (additions : List Addition) (t u : Path) : Prop :=
  ∃ a b, .edge a b ∈ additions ∧ a.Same t ∧ b.Same u

/-- Whether a path was mentioned, and not after another spelling of it. -/
def FirstMention (additions : List Addition) (t : Path) : Prop :=
  ∃ before after, additions.flatMap Addition.mentions = before ++ t :: after ∧ ∀ p ∈ before, ¬ p.Same t

variable {additions : List Addition} {addition : Addition}

theorem Sane.add (hg : g.Sane) : (g.add addition).Sane := by
  cases addition with
  | task target => exact hg.addTask
  | edge dependent dependency => exact hg.addDependency dependent dependency

theorem added_add : (g.add addition).added = g.added.addAll addition.mentions := by
  cases addition with
  | task target => rfl
  | edge dependent dependency =>
    obtain ⟨a, b, -, -, -, -, he⟩ := addDependency_eq (g := g) dependent dependency
    exact congrArg TaskGraph.added he

theorem added_foldl_add : (additions.foldl add g).added =
    g.added.addAll (additions.flatMap Addition.mentions) := by
  induction additions generalizing g with
  | nil => rfl
  | cons addition additions ih =>
    rw [List.foldl_cons, ih, added_add, List.flatMap_cons]
    simp [FirstSeen.addAll]

theorem Sane.foldl_add (hg : g.Sane) : (additions.foldl TaskGraph.add g).Sane ∧
    ∀ {t u}, (additions.foldl TaskGraph.add g).Joins t u ↔ g.Joins t u ∨ Told additions t u := by
  induction additions generalizing g with
  | nil => exact ⟨hg, by simp [Told]⟩
  | cons addition additions ih =>
    have hadded : (g.add addition).Sane := hg.add
    obtain ⟨hsane, hjoins⟩ := ih hadded
    refine ⟨hsane, fun {t u} => ?_⟩
    rw [List.foldl_cons, hjoins]
    cases addition with
    | task target =>
      rw [TaskGraph.add, hg.joins_addTask]
      simp [Told]
    | edge dependent dependency =>
      rw [TaskGraph.add, hg.joins_addDependency, or_assoc]
      refine or_congr_right ⟨?_, ?_⟩
      · rintro (⟨ht, hu⟩ | ⟨a, b, hab, ht, hu⟩)
        · exact ⟨dependent, dependency, List.mem_cons_self, ht, hu⟩
        · exact ⟨a, b, List.mem_cons_of_mem _ hab, ht, hu⟩
      · rintro ⟨a, b, hab, ht, hu⟩
        rcases List.mem_cons.1 hab with heq | hab
        · obtain ⟨rfl, rfl⟩ := Addition.edge.inj heq
          exact .inl ⟨ht, hu⟩
        · exact .inr ⟨a, b, hab, ht, hu⟩

theorem sane_ofAdditions : (ofAdditions additions).Sane := (sane_empty.foldl_add).1

/-- The edges are those that were told. -/
theorem joins_ofAdditions : (ofAdditions additions).Joins t u ↔ Told additions t u := by
  rw [ofAdditions, sane_empty.foldl_add.2, or_iff_right]
  rintro ⟨a, b, hedge, -⟩
  cases hedge.1

/-- The tasks are the paths that were mentioned, as they were spelled first. -/
theorem mem_tasks_ofAdditions : t ∈ (ofAdditions additions).tasks ↔ FirstMention additions t := by
  rw [tasks, ofAdditions, added_foldl_add, FirstSeen.mem_toList_addAll]
  simp [FirstMention]

/-- Whatever a graph was told: it has a build order exactly if the edges have no cycle, the order lists every
    task once and after all that it needs, a task that is named instead lies on a cycle, and what a task needs
    is listed once and in the order of paths. -/
theorem buildOrder_of_additions (additions : List Addition) :
    ((∃ order, (ofAdditions additions).buildOrder = .ok order) ↔
      ∀ t, ¬ Relation.TransGen (Told additions) t t) ∧
    (∀ order, (ofAdditions additions).buildOrder = .ok order →
      (order.Pairwise fun t u => ¬ t.Same u) ∧ (∀ t, t ∈ order ↔ FirstMention additions t) ∧
        ∀ t ∈ order, ∀ u ∈ order, Told additions t u → [u, t].Sublist order) ∧
    (∀ t, (ofAdditions additions).buildOrder = .error t → Relation.TransGen (Told additions) t t) ∧
    ∀ t, ((ofAdditions additions).dependencies t).Pairwise (fun u v => u.compare v = .lt) ∧
      ∀ u, u ∈ (ofAdditions additions).dependencies t ↔ FirstMention additions u ∧ Told additions t u := by
  have hg := @sane_ofAdditions additions
  have htold : (ofAdditions additions).Joins = Told additions :=
    funext fun t => funext fun u => propext joins_ofAdditions
  have hcycle : ∀ {t}, Relation.TransGen (ofAdditions additions).Edge t t →
      Relation.TransGen (Told additions) t t := fun h =>
    htold ▸ hg.transGen_joins_iff.2 ⟨_, _, h, rfl, rfl⟩
  refine ⟨⟨?_, fun hacyclic => ?_⟩, fun order horder => ?_,
    fun t ht => hcycle (transGen_of_buildOrder_eq_error hg ht), fun t => ⟨pairwise_dependencies _ t, fun u => ?_⟩⟩
  · rintro ⟨order, horder⟩ t ht
    obtain ⟨hperm, hbefore⟩ := order_of_buildOrder_eq_ok hg horder
    rw [← htold] at ht
    obtain ⟨a, b, hway, ha, hb⟩ := hg.transGen_joins_iff.1 ht
    obtain ⟨c, hac, -⟩ := Relation.TransGen.head'_iff.1 hway
    obtain ⟨d, -, hdb⟩ := Relation.TransGen.tail'_iff.1 hway
    obtain rfl := eq_of_same hac.1 (hg.target hdb) (ha.trans hb.symm)
    exact not_transGen_of_order (hperm.nodup_iff.2 nodup_tasks) hbefore hway
  · cases horder : (ofAdditions additions).buildOrder with
    | ok order => exact ⟨order, rfl⟩
    | error t => exact absurd (hcycle (transGen_of_buildOrder_eq_error hg horder)) (hacyclic t)
  · obtain ⟨hperm, hbefore⟩ := order_of_buildOrder_eq_ok hg horder
    refine ⟨hperm.symm.pairwise FirstSeen.pairwise_toList fun h hs => h hs.symm,
      fun t => hperm.mem_iff.trans mem_tasks_ofAdditions, fun t ht u hu h => hbefore ?_⟩
    exact (hg.joins_iff_edge (hperm.mem_iff.1 ht) (hperm.mem_iff.1 hu)).1 (joins_ofAdditions.2 h)
  · rw [hg.mem_dependencies_iff, mem_tasks_ofAdditions, joins_ofAdditions]

/-- A row of three tasks, one of which is told of in two spellings, has an order, and none if the last task
    needs the first one. -/
theorem buildOrder_of_additions_row :
    let x := Path.ofText "x"
    let y := Path.ofText "y"
    let z := Path.ofText "z"
    let row := [Addition.edge x y, .edge (.ofText "y/") z]
    let ring := row ++ [.edge z x]
    (∃ order, (ofAdditions row).buildOrder = .ok order ∧ [z, y].Sublist order ∧ [y, x].Sublist order) ∧
      z ∈ (ofAdditions row).dependencies y ∧
      ∃ t, (ofAdditions ring).buildOrder = .error t ∧ Relation.TransGen (Told ring) t t := by
  intro x y z row ring
  obtain ⟨hok, horder, -, hneeds⟩ := buildOrder_of_additions row
  obtain ⟨hok', -, herror, -⟩ := buildOrder_of_additions ring
  have hx : FirstMention row x := ⟨[], [y, .ofText "y/", z], rfl, by decide⟩
  have hy : FirstMention row y := ⟨[x], [.ofText "y/", z], rfl, by decide⟩
  have hz : FirstMention row z := ⟨[x, y, .ofText "y/"], [], rfl, by decide⟩
  have hxy : Told row x y := ⟨x, y, by simp [row], rfl, rfl⟩
  have hyz : Told row y z := ⟨.ofText "y/", z, by simp [row], by decide, rfl⟩
  refine ⟨?_, (hneeds y).2 z |>.2 ⟨hz, hyz⟩, ?_⟩
  · -- Every edge of the row leads down.
    let height (t : Path) : Nat := if x.Same t then 2 else if y.Same t then 1 else 0
    have hdown : ∀ t u, Told row t u → height u < height t := by
      rintro t u ⟨a, b, hab, ha, hb⟩
      have hheight : ∀ {c d : Path}, c.Same d → height d = height c := fun {c d} h => by
        have hsame : ∀ p : Path, p.Same d ↔ p.Same c := fun p =>
          ⟨fun hp => hp.trans h.symm, fun hp => hp.trans h⟩
        simp only [height, hsame]
      rw [hheight ha, hheight hb]
      rcases List.mem_pair.1 hab with h | h <;> obtain ⟨rfl, rfl⟩ := Addition.edge.inj h <;> decide
    have hway : ∀ t u, Relation.TransGen (Told row) t u → height u < height t := by
      intro t u h
      induction h with
      | single h => exact hdown _ _ h
      | tail _ h ih => exact Nat.lt_trans (hdown _ _ h) ih
    obtain ⟨order, hrun⟩ := hok.2 fun t h => Nat.lt_irrefl _ (hway t t h)
    obtain ⟨-, hmem, hbefore⟩ := horder order hrun
    exact ⟨order, hrun, hbefore y ((hmem y).2 hy) z ((hmem z).2 hz) hyz,
      hbefore x ((hmem x).2 hx) y ((hmem y).2 hy) hxy⟩
  · have hcycle : Relation.TransGen (Told ring) x x :=
      .tail (.tail (.single ⟨x, y, by simp [ring, row], rfl, rfl⟩)
        ⟨.ofText "y/", z, by simp [ring, row], by decide, rfl⟩) ⟨z, x, by simp [ring], rfl, rfl⟩
    cases hrun : (ofAdditions ring).buildOrder with
    | ok order => exact absurd hcycle (hok'.1 ⟨order, hrun⟩ x)
    | error t => exact ⟨t, rfl, herror t hrun⟩

end TaskGraph

end ImportIndex
