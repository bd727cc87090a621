import ImportIndex.Build.TaskGraph
import ImportIndex.Proofs.Lists
import Mathlib.Logic.Relation

/-!
# The build order

A task graph to which tasks and edges are added one by one knows its edges at both ends
(`TaskGraph.Sane`). For such a graph, the build order lists every task once, each after all that it needs,
unless the edges have a cycle (`order_of_buildOrder_eq_ok`, `transGen_of_buildOrder_eq_error`).

The depth-first search is followed by what it keeps (`TaskGraph.Searching`): from a task that is to be
listed later, all steps that come before that lead to tasks that it reaches. So a task that is listed
before one that it needs is reached by that one, and the edge closes a cycle.
-/

namespace ImportIndex

namespace TaskGraph

variable {g : TaskGraph} {t u v a b : Path} {seen passed : FirstSeen} {listed order l : List Path}
  {pending rest : List Pending}

/-! ### Edges -/

/-- Whether a task needs another one. -/
def Edge (g : TaskGraph) (t u : Path) : Prop := t ∈ g.tasks ∧ u ∈ g.needs t

theorem mem_edges_iff : (t, u) ∈ g.edges ↔ g.Edge t u := by
  simp [edges, Edge]

/-- Tasks that are the same path are equal. -/
theorem eq_of_same (ht : t ∈ g.tasks) (hu : u ∈ g.tasks) (h : t.Same u) : t = u := by
  rcases pair_sublist_of_mem ht hu with he | hs | hs
  · exact he
  · exact absurd h (List.pairwise_iff_forall_sublist.1 FirstSeen.pairwise_toList hs)
  · exact absurd h.symm (List.pairwise_iff_forall_sublist.1 FirstSeen.pairwise_toList hs)

theorem nodup_tasks : g.tasks.Nodup :=
  FirstSeen.pairwise_toList.imp fun h he => h (congrArg Path.components he)

/-- Whether the edges of a graph are known at both ends, and are edges between tasks. -/
structure Sane (g : TaskGraph) : Prop where
  /-- A task needs another one exactly if that one is needed by it. -/
  both : ∀ {t u}, g.Edge t u ↔ u ∈ g.tasks ∧ t ∈ g.neededBy u
  /-- What is no task has no edges. -/
  fresh : ∀ {t}, g.added.contains t = false → g.needs t = [] ∧ g.neededBy t = []

theorem Sane.target (hg : g.Sane) (h : g.Edge t u) : u ∈ g.tasks := (hg.both.1 h).1

theorem sane_empty : Sane {} where
  both := by simp [Edge, tasks]
  fresh _ := by simp [needs, neededBy]

/-- What a member of a list of tasks is found as is itself. -/
theorem mem_add_iff {l : FirstSeen} (hl : ∀ v ∈ l.toList, v ∈ g.tasks) (hb : b ∈ g.tasks) :
    u ∈ (l.add b).toList ↔ u ∈ l.toList ∨ u = b := by
  rw [FirstSeen.toList_add]
  split
  · next hc =>
    obtain ⟨b', hb', hs⟩ := FirstSeen.contains_iff.1 hc
    obtain rfl := eq_of_same (hl b' hb') hb hs
    exact ⟨.inl, fun h => h.elim id fun h => h ▸ hb'⟩
  · simp

theorem needs_addEdge : (g.addEdge a b).needs t =
    if a.Same t then (((g.needed.get? t).getD ∅).add b).toList else g.needs t := by
  rw [addEdge, needs]
  split
  · next h => rw [PathTable.get?_insert_of_same h, PathTable.get?_congr h]; rfl
  · next h => rw [PathTable.get?_insert_of_not_same h]; rfl

theorem neededBy_addEdge : (g.addEdge a b).neededBy u =
    if b.Same u then (((g.needing.get? u).getD ∅).add a).toList else g.neededBy u := by
  rw [addEdge, neededBy]
  split
  · next h => rw [PathTable.get?_insert_of_same h, PathTable.get?_congr h]; rfl
  · next h => rw [PathTable.get?_insert_of_not_same h]; rfl

/-- An edge between tasks that is added is an edge, and the others are as they were. -/
theorem Sane.edge_addEdge (hg : g.Sane) (ha : a ∈ g.tasks) (hb : b ∈ g.tasks) :
    (g.addEdge a b).Edge t u ↔ g.Edge t u ∨ t = a ∧ u = b := by
  change t ∈ g.tasks ∧ u ∈ (g.addEdge a b).needs t ↔ _
  rw [needs_addEdge]
  split
  · next hs =>
    refine ⟨fun ⟨ht, hu⟩ => ?_, ?_⟩
    · rw [mem_add_iff (fun v hv => hg.target ⟨ht, hv⟩) hb] at hu
      exact hu.imp (fun hu => ⟨ht, hu⟩) fun hu => ⟨(eq_of_same ha ht hs).symm, hu⟩
    · rintro (⟨ht, hu⟩ | ⟨rfl, rfl⟩)
      · exact ⟨ht, (mem_add_iff (fun v hv => hg.target ⟨ht, hv⟩) hb).2 (.inl hu)⟩
      · exact ⟨ha, (mem_add_iff (fun v hv => hg.target ⟨ha, hv⟩) hb).2 (.inr rfl)⟩
  · next hs =>
    refine ⟨.inl, ?_⟩
    rintro (h | ⟨rfl, rfl⟩)
    · exact h
    · exact absurd rfl hs

theorem Sane.addEdge (hg : g.Sane) (ha : a ∈ g.tasks) (hb : b ∈ g.tasks) : (g.addEdge a b).Sane where
  both {t u} := by
    rw [hg.edge_addEdge ha hb]
    change _ ↔ u ∈ g.tasks ∧ t ∈ (g.addEdge a b).neededBy u
    have hsource : ∀ {u}, u ∈ g.tasks → ∀ v ∈ g.neededBy u, v ∈ g.tasks :=
      fun hu v hv => (hg.both.2 ⟨hu, hv⟩).1
    rw [neededBy_addEdge]
    split
    · next hs =>
      refine ⟨?_, fun ⟨hu, ht⟩ => ?_⟩
      · rintro (h | ⟨rfl, rfl⟩)
        · obtain ⟨hu, ht⟩ := hg.both.1 h
          exact ⟨hu, (mem_add_iff (hsource hu) ha).2 (.inl ht)⟩
        · exact ⟨hb, (mem_add_iff (hsource hb) ha).2 (.inr rfl)⟩
      · rw [mem_add_iff (hsource hu) ha] at ht
        exact ht.imp (fun ht => hg.both.2 ⟨hu, ht⟩) fun ht => ⟨ht, (eq_of_same hb hu hs).symm⟩
    · next hs =>
      rw [hg.both]
      refine ⟨?_, .inl⟩
      rintro (h | ⟨rfl, rfl⟩)
      · exact h
      · exact absurd rfl hs
  fresh {t} ht := by
    have hne : ∀ {c}, c ∈ g.tasks → ¬ c.Same t := by
      intro c hc hs
      have hcontains : g.added.contains t = true := FirstSeen.contains_iff.2 ⟨c, hc, hs⟩
      exact absurd (ht.symm.trans hcontains) (by simp)
    rw [needs_addEdge, if_neg (hne ha), neededBy_addEdge, if_neg (hne hb)]
    exact hg.fresh ht

theorem tasks_addTask : (g.addTask t).tasks = if g.added.contains t then g.tasks else g.tasks ++ [t] :=
  FirstSeen.toList_add

/-- A task that is added has no edges. -/
theorem Sane.edge_addTask (hg : g.Sane) : (g.addTask v).Edge t u ↔ g.Edge t u := by
  change t ∈ (g.addTask v).tasks ∧ u ∈ g.needs t ↔ t ∈ g.tasks ∧ u ∈ g.needs t
  rw [tasks_addTask]
  split
  · rfl
  · next hv =>
    have hnone := (hg.fresh (Bool.eq_false_iff.2 hv)).1
    by_cases he : t = v
    · simp [he, hnone]
    · simp [he]

theorem Sane.addTask (hg : g.Sane) : (g.addTask v).Sane where
  both {t u} := by
    rw [hg.edge_addTask, hg.both]
    change _ ↔ u ∈ (g.addTask v).tasks ∧ t ∈ g.neededBy u
    rw [tasks_addTask]
    split
    · rfl
    · next hv =>
      have hnone := (hg.fresh (Bool.eq_false_iff.2 hv)).2
      by_cases he : u = v
      · simp [he, hnone]
      · simp [he]
  fresh {t} ht := by
    rw [TaskGraph.addTask, FirstSeen.contains_add, Bool.or_eq_false_iff] at ht
    exact hg.fresh ht.2

/-- The ends of an edge that is added become tasks, and the edge leads between the tasks that are the same
    paths. -/
theorem addDependency_eq (t u : Path) : ∃ a b, a ∈ ((g.addTask t).addTask u).tasks ∧
    b ∈ ((g.addTask t).addTask u).tasks ∧ a.Same t ∧ b.Same u ∧
      g.addDependency t u = ((g.addTask t).addTask u).addEdge a b := by
  have hfind : ∀ {g : TaskGraph} {v}, g.added.contains v = true →
      ∃ c ∈ g.tasks, c.Same v ∧ g.find? v = some c := by
    intro g v h
    rw [FirstSeen.contains, PathTable.contains_eq_isSome_spelling?] at h
    obtain ⟨c, hc⟩ := Option.isSome_iff_exists.1 h
    have hs := PathTable.same_of_spelling? hc
    refine ⟨c, FirstSeen.mem_toList_iff.2 ?_, hs, hc⟩
    rw [FirstSeen.spelling?, PathTable.spelling?_congr hs, hc]
  obtain ⟨a, ha, hsa, hfa⟩ := @hfind ((g.addTask t).addTask u) t (by
    simp [TaskGraph.addTask, FirstSeen.contains_add, show t.Same t from rfl])
  obtain ⟨b, hb, hsb, hfb⟩ := @hfind ((g.addTask t).addTask u) u (by
    simp [TaskGraph.addTask, FirstSeen.contains_add, show u.Same u from rfl])
  exact ⟨a, b, ha, hb, hsa, hsb, by simp only [addDependency, hfa, hfb]⟩

theorem Sane.addDependency (hg : g.Sane) (t u : Path) : (g.addDependency t u).Sane := by
  obtain ⟨a, b, ha, hb, -, -, he⟩ := addDependency_eq (g := g) t u
  rw [he]
  exact hg.addTask.addTask.addEdge ha hb

/-- An edge between tasks that is added is an edge, and the others are as they were. -/
theorem Sane.edge_addDependency (hg : g.Sane) (ht : t ∈ g.tasks) (hu : u ∈ g.tasks) (hs : u.Same v) :
    (g.addDependency t v).Edge a b ↔ g.Edge a b ∨ a = t ∧ b = u := by
  obtain ⟨t', u', ht', hu', hst, hsu, he⟩ := addDependency_eq (g := g) t v
  have htasks : ((g.addTask t).addTask v).tasks = g.tasks := by
    have hadd : ∀ {c d}, c ∈ g.tasks → c.Same d → g.addTask d = g := by
      intro c d hc hcd
      have hcontains : g.added.contains d = true := FirstSeen.contains_iff.2 ⟨c, hc, hcd⟩
      simp [TaskGraph.addTask, FirstSeen.add, hcontains]
    rw [hadd ht rfl, hadd hu hs]
  rw [htasks] at ht' hu'
  obtain rfl := eq_of_same ht' ht hst
  obtain rfl := eq_of_same hu' hu (hsu.trans hs.symm)
  rw [he, hg.addTask.addTask.edge_addEdge (htasks ▸ ht') (htasks ▸ hu'), hg.addTask.edge_addTask,
    hg.edge_addTask]

/-! ### The depth-first search -/

/-- The task that a step is about. -/
def Pending.task : Pending → Path
  | visit task => task
  | finish task => task

/-- The tasks that are to be listed when what they need is listed. -/
def finishing (pending : List Pending) : List Path :=
  pending.filterMap fun
    | .visit _ => none
    | .finish task => some task

theorem mem_finishing_iff : t ∈ finishing pending ↔ .finish t ∈ pending := by
  simp only [finishing, List.mem_filterMap]
  constructor
  · rintro ⟨_ | _, h, he⟩
    · cases he
    · exact Option.some.inj he ▸ h
  · exact fun h => ⟨_, h, rfl⟩

theorem finishing_visits (ts : List Path) : finishing (ts.map .visit) = [] := by
  simp [finishing, List.filterMap_map]

/-- What the depth-first search keeps. -/
structure Searching (g : TaskGraph) (pending : List Pending) (seen : FirstSeen) (listed : List Path) :
    Prop where
  /-- All steps are about tasks. -/
  steps : ∀ i ∈ pending, i.task ∈ g.tasks
  /-- Nothing but tasks is listed. -/
  tasks : ∀ t ∈ listed, t ∈ g.tasks
  /-- Tasks that were seen are listed, or they are to be listed. -/
  known : ∀ {t}, t ∈ g.tasks → (seen.contains t = true ↔ t ∈ listed ∨ .finish t ∈ pending)
  /-- No task is listed twice. -/
  nodup : (listed ++ finishing pending).Nodup
  /-- The steps before a task is listed are about tasks that it reaches. -/
  reached : pending.Pairwise fun i j => ∀ t, j = .finish t → Relation.ReflTransGen g.Edge t i.task
  /-- What a task needs that is to be listed is listed, or a step before is about it, or it reaches the
      task. -/
  below : ∀ {t u}, .finish t ∈ pending → g.Edge t u → u ∈ listed ∨
    (∃ i : Pending, i.task = u ∧ [i, .finish t].Sublist pending) ∨ Relation.ReflTransGen g.Edge u t
  /-- What a listed task needs was listed before, or it reaches the task. -/
  order : ∀ {t u}, t ∈ listed → g.Edge t u → [t, u].Sublist listed ∨ Relation.ReflTransGen g.Edge u t
  /-- No task that was seen needs itself. -/
  plain : ∀ {t}, t ∈ g.tasks → seen.contains t = true → ¬ g.Edge t t
  /-- No task is left out. -/
  all : ∀ t ∈ g.tasks, t ∈ listed ∨ ∃ i ∈ pending, i.task = t

namespace Searching

theorem start : g.Searching (g.tasks.map .visit) ∅ [] where
  steps := by simp [Pending.task]
  tasks := by simp
  known := by simp [FirstSeen.contains_iff]
  nodup := by simp [finishing_visits]
  reached := List.pairwise_map.2 (List.pairwise_of_forall fun _ _ _ h => by cases h)
  below := by simp
  order := by simp
  plain _ h := by simp [FirstSeen.contains_iff] at h
  all t ht := by simp [Pending.task, ht]

/-- A task is listed when what it needs is. -/
theorem finish (h : g.Searching (.finish t :: rest) seen listed) : g.Searching rest seen (t :: listed) where
  steps i hi := h.steps i (List.mem_cons_of_mem _ hi)
  tasks := List.forall_mem_cons.2 ⟨h.steps _ List.mem_cons_self, h.tasks⟩
  known hu := by
    rw [h.known hu, List.mem_cons, List.mem_cons, Pending.finish.injEq]
    tauto
  nodup := by
    have hn := h.nodup
    exact (List.perm_middle.nodup_iff).1 hn
  reached := h.reached.of_cons
  below {u v} hu hv := by
    rcases h.below (List.mem_cons_of_mem _ hu) hv with hv | ⟨i, rfl, hi⟩ | hv
    · exact .inl (List.mem_cons_of_mem _ hv)
    · rcases List.cons_sublist_cons'.1 hi with hi | ⟨rfl, -⟩
      · exact .inr (.inl ⟨i, rfl, hi⟩)
      · exact .inl List.mem_cons_self
    · exact .inr (.inr hv)
  order {u v} hu hv := by
    rcases List.mem_cons.1 hu with rfl | hu
    · have hlast : .finish u ∉ rest := fun hmem =>
        (List.nodup_middle.1 h.nodup).notMem (List.mem_append_right _ (mem_finishing_iff.2 hmem))
      rcases h.below List.mem_cons_self hv with hv | ⟨i, rfl, hi⟩ | hv
      · exact .inl (.cons_cons _ (List.singleton_sublist.2 hv))
      · refine absurd ?_ hlast
        rcases List.cons_sublist_cons'.1 hi with hi | ⟨-, hi⟩
        · exact hi.subset (by simp)
        · exact List.singleton_sublist.1 hi
      · exact .inr hv
    · exact (h.order hu hv).imp_left (.cons _)
  plain := h.plain
  all u hu := by
    rcases h.all u hu with hu | ⟨i, hi, rfl⟩
    · exact .inl (List.mem_cons_of_mem _ hu)
    · rcases List.mem_cons.1 hi with rfl | hi
      · exact .inl List.mem_cons_self
      · exact .inr ⟨i, hi, rfl⟩

/-- A task that was seen is not looked at again. -/
theorem skip (h : g.Searching (.visit t :: rest) seen listed) (hseen : seen.contains t = true) :
    g.Searching rest seen listed where
  steps i hi := h.steps i (List.mem_cons_of_mem _ hi)
  tasks := h.tasks
  known hu := by
    rw [h.known hu, List.mem_cons]
    simp
  nodup := h.nodup
  reached := h.reached.of_cons
  below {u v} hu hv := by
    have ht : t ∈ g.tasks := h.steps _ List.mem_cons_self
    rcases h.below (List.mem_cons_of_mem _ hu) hv with hv' | ⟨i, rfl, hi⟩ | hv'
    · exact .inl hv'
    · rcases List.cons_sublist_cons'.1 hi with hi | ⟨rfl, -⟩
      · exact .inr (.inl ⟨i, rfl, hi⟩)
      · -- The task is listed, or it is to be listed: before the one that needs it, or it reaches that one.
        rcases (h.known ht).1 hseen with hl | hf
        · exact .inl hl
        · have hf := (List.mem_cons.1 hf).resolve_left (by simp)
          rcases pair_sublist_of_mem hf hu with he | hs | hs
          · exact .inr (.inr (Pending.finish.inj he ▸ .refl))
          · exact .inr (.inl ⟨.finish t, rfl, hs⟩)
          · exact .inr (.inr (List.pairwise_iff_forall_sublist.1 h.reached.of_cons hs _ rfl))
    · exact .inr (.inr hv')
  order := h.order
  plain := h.plain
  all u hu := by
    rcases h.all u hu with hl | ⟨i, hi, rfl⟩
    · exact .inl hl
    · rcases List.mem_cons.1 hi with rfl | hi
      · rcases (h.known hu).1 hseen with hl | hf
        · exact .inl hl
        · exact .inr ⟨_, (List.mem_cons.1 hf).resolve_left (by simp), rfl⟩
      · exact .inr ⟨i, hi, rfl⟩

/-- A task that was not seen is listed after all that it needs. -/
theorem visit (h : g.Searching (.visit t :: rest) seen listed) (hg : g.Sane)
    (hseen : seen.contains t = false) (hself : t ∉ g.needs t) :
    g.Searching ((g.needs t).map .visit ++ .finish t :: rest) (seen.add t) listed := by
  have ht : t ∈ g.tasks := h.steps _ List.mem_cons_self
  have hnew : t ∉ listed ∧ .finish t ∉ rest := by
    have hnot : ¬ (t ∈ listed ∨ .finish t ∈ Pending.visit t :: rest) := fun hs => by
      simp [(h.known ht).2 hs] at hseen
    exact ⟨fun hl => hnot (.inl hl), fun hf => hnot (.inr (List.mem_cons_of_mem _ hf))⟩
  have hfinish : ∀ {u}, .finish u ∈ (g.needs t).map Pending.visit ++ .finish t :: rest ↔
      u = t ∨ .finish u ∈ rest := by
    simp
  have hcontains : ∀ {u}, u ∈ g.tasks → ((seen.add t).contains u = true ↔
      u = t ∨ seen.contains u = true) := by
    intro u hu
    rw [FirstSeen.contains_add, Bool.or_eq_true, decide_eq_true_iff]
    exact or_congr_left ⟨fun hs => (eq_of_same ht hu hs).symm, fun he => he ▸ rfl⟩
  constructor
  case steps =>
    intro i hi
    rcases List.mem_append.1 hi with hi | hi
    · obtain ⟨u, hu, rfl⟩ := List.mem_map.1 hi
      exact hg.target ⟨ht, hu⟩
    · rcases List.mem_cons.1 hi with rfl | hi
      · exact ht
      · exact h.steps i (List.mem_cons_of_mem _ hi)
  case tasks => exact h.tasks
  case known =>
    intro u hu
    rw [hcontains hu, h.known hu, hfinish, List.mem_cons]
    simp only [reduceCtorEq, false_or]
    tauto
  case nodup =>
    have hnodup : (listed ++ finishing rest).Nodup := h.nodup
    have he : finishing ((g.needs t).map Pending.visit ++ .finish t :: rest) = t :: finishing rest := by
      rw [finishing, List.filterMap_append, ← finishing, finishing_visits]
      rfl
    rw [he, List.nodup_middle, List.nodup_cons, List.mem_append, mem_finishing_iff]
    exact ⟨not_or.2 hnew, hnodup⟩
  case reached =>
    obtain ⟨hfirst, hrest⟩ := List.pairwise_cons.1 h.reached
    refine List.pairwise_append.2 ⟨?_, List.pairwise_cons.2 ⟨hfirst, hrest⟩, ?_⟩
    · exact List.pairwise_map.2 (List.pairwise_of_forall fun _ _ _ h => by cases h)
    · intro i hi j hj u hu
      obtain ⟨v, hv, rfl⟩ := List.mem_map.1 hi
      have hedge : g.Edge t v := ⟨ht, hv⟩
      rcases List.mem_cons.1 hj with rfl | hj
      · obtain rfl := Pending.finish.inj hu
        exact .single hedge
      · exact (hfirst j hj u hu).tail hedge
  case below =>
    intro u v hu hv
    rcases hfinish.1 hu with rfl | hu
    · refine .inr (.inl ⟨.visit v, rfl, ?_⟩)
      have hvisit : Pending.visit v ∈ (g.needs u).map Pending.visit := List.mem_map_of_mem hv.2
      exact List.Sublist.append (List.singleton_sublist.2 hvisit)
        (.cons_cons _ (List.nil_sublist rest))
    · rcases h.below (List.mem_cons_of_mem _ hu) hv with hv | ⟨i, rfl, hi⟩ | hv
      · exact .inl hv
      · rcases List.cons_sublist_cons'.1 hi with hi | ⟨rfl, -⟩
        · exact .inr (.inl ⟨i, rfl, (hi.cons _).trans (List.sublist_append_right _ _)⟩)
        · refine .inr (.inl ⟨.finish t, rfl, .trans ?_ (List.sublist_append_right _ _)⟩)
          exact .cons_cons _ (List.singleton_sublist.2 hu)
      · exact .inr (.inr hv)
  case order => exact h.order
  case plain =>
    intro u hu hs
    rcases (hcontains hu).1 hs with rfl | hs
    · exact fun hedge => hself hedge.2
    · exact h.plain hu hs
  case all =>
    intro u hu
    rcases h.all u hu with hl | ⟨i, hi, rfl⟩
    · exact .inl hl
    · rcases List.mem_cons.1 hi with rfl | hi
      · exact .inr ⟨.finish t, by simp, rfl⟩
      · exact .inr ⟨i, by simp [hi], rfl⟩

/-- The search lists all tasks, or it ends with a task that needs itself. -/
theorem search (h : g.Searching pending seen listed) (hg : g.Sane) :
    match g.search pending seen listed with
    | .ok order => ∃ seen', g.Searching [] seen' order
    | .error t => g.Edge t t := by
  induction pending, seen, listed using TaskGraph.search.induct g with
  | case1 seen listed =>
    rw [TaskGraph.search]
    exact ⟨seen, h⟩
  | case2 seen listed t rest ih =>
    rw [TaskGraph.search]
    exact ih h.finish
  | case3 seen listed t rest hnew hself =>
    rw [TaskGraph.search, dif_pos hnew, if_pos hself]
    exact ⟨h.steps _ List.mem_cons_self, hself⟩
  | case4 seen listed t rest hnew hself ih =>
    rw [TaskGraph.search, dif_pos hnew, if_neg hself]
    exact ih (h.visit hg hnew.2 hself)
  | case5 seen listed t rest hnew ih =>
    rw [TaskGraph.search, dif_neg hnew]
    refine ih (h.skip ?_)
    have hadded : g.added.contains t = true :=
      FirstSeen.contains_iff.2 ⟨t, h.steps _ List.mem_cons_self, rfl⟩
    by_contra hseen
    exact hnew ⟨hadded, Bool.not_eq_true _ ▸ hseen⟩

/-- What the search lists at its end are the tasks. -/
theorem perm (h : g.Searching [] seen listed) : listed.Perm g.tasks := by
  have hnodup : listed.Nodup := by simpa [finishing] using h.nodup
  refine (List.perm_ext_iff_of_nodup hnodup nodup_tasks).2 fun t => ⟨h.tasks t, fun ht => ?_⟩
  exact (h.all t ht).resolve_right (by simp)

end Searching

/-! ### The second pass -/

/-- If no task closes a cycle, every task is needed by tasks passed before it, save by itself. -/
theorem passed_of_backEdge?_eq_none (h : g.backEdge? passed listed = none) {pre post : List Path}
    (hl : listed = pre ++ u :: post) (ht : t ∈ g.neededBy u) (hne : t ≠ u) :
    passed.contains t = true ∨ ∃ v ∈ pre, v.Same t := by
  induction listed generalizing passed pre with
  | nil => simp at hl
  | cons first rest ih =>
    rw [backEdge?] at h
    split at h
    · cases h
    · next hnone =>
      cases pre with
      | nil =>
        obtain ⟨rfl, rfl⟩ : first = u ∧ rest = post := by simpa using hl
        have := List.find?_eq_none.1 hnone t ht
        simp only [decide_eq_true_eq, not_and, Bool.not_eq_true'] at this
        exact .inl (Bool.not_eq_false _ ▸ this hne)
      | cons first' pre =>
        obtain ⟨rfl, hrest⟩ : first = first' ∧ rest = pre ++ u :: post := by simpa using hl
        rcases ih h hrest with hp | ⟨v, hv, hs⟩
        · rw [FirstSeen.contains_add, Bool.or_eq_true, decide_eq_true_iff] at hp
          exact hp.symm.imp_right fun hs => ⟨first, List.mem_cons_self, hs⟩
        · exact .inr ⟨v, List.mem_cons_of_mem _ hv, hs⟩

/-- A task that closes a cycle needs another one and has not been passed before that one. -/
theorem exists_of_backEdge?_eq_some (h : g.backEdge? passed listed = some t) :
    ∃ pre u post, listed = pre ++ u :: post ∧ t ∈ g.neededBy u ∧ t ≠ u ∧
      passed.contains t = false ∧ t ∉ pre := by
  induction listed generalizing passed with
  | nil => cases h
  | cons first rest ih =>
    rw [backEdge?] at h
    split at h
    · next dependent hsome =>
      obtain rfl := Option.some.inj h
      have hfound := List.find?_some hsome
      simp only [decide_eq_true_eq, Bool.not_eq_true'] at hfound
      exact ⟨[], first, rest, rfl, List.mem_of_find?_eq_some hsome, hfound.1, hfound.2, by simp⟩
    · obtain ⟨pre, u, post, rfl, ht, hne, hpassed, hpre⟩ := ih h
      rw [FirstSeen.contains_add, Bool.or_eq_false_iff, decide_eq_false_iff_not] at hpassed
      refine ⟨first :: pre, u, post, rfl, ht, hne, hpassed.2, ?_⟩
      rintro (_ | ⟨_, hmem⟩)
      · exact hpassed.1 rfl
      · exact hpre hmem

/-! ### The build order -/

/-- A build order lists every task once, after all that it needs. -/
theorem order_of_buildOrder_eq_ok (hg : g.Sane) (h : g.buildOrder = .ok order) :
    order.Perm g.tasks ∧ ∀ {t u}, g.Edge t u → [u, t].Sublist order := by
  have hsearch := Searching.start.search hg
  rw [buildOrder] at h
  cases hs : g.search (g.tasks.map .visit) ∅ [] with
  | error t => simp [hs] at h
  | ok listed =>
    rw [hs] at h hsearch
    obtain ⟨seen, hend⟩ := hsearch
    cases hb : g.backEdge? ∅ listed with
    | some t => simp [hb] at h
    | none =>
      obtain rfl : listed.reverse = order := by simpa [hb] using h
      refine ⟨(List.reverse_perm listed).trans hend.perm, fun {t u} hedge => ?_⟩
      have ht : t ∈ listed := hend.perm.mem_iff.2 hedge.1
      have hself : t ≠ u := fun he =>
        hend.plain hedge.1 ((hend.known hedge.1).2 (.inl ht)) (he ▸ hedge)
      obtain ⟨pre, post, hl⟩ := List.append_of_mem (hend.perm.mem_iff.2 (hg.target hedge))
      have hpassed := passed_of_backEdge?_eq_none hb hl (hg.both.1 hedge).2 hself
      obtain ⟨v, hv, hs⟩ := hpassed.resolve_left (by simp [FirstSeen.contains_iff])
      obtain rfl := eq_of_same (hend.tasks v (hl ▸ List.mem_append_left _ hv)) hedge.1 hs
      have hbefore : [v, u].Sublist listed := hl ▸
        List.Sublist.append (List.singleton_sublist.2 hv) (.cons_cons _ (List.nil_sublist post))
      exact List.reverse_sublist.2 hbefore

/-- If there is no build order, the task that is named lies on a cycle. -/
theorem transGen_of_buildOrder_eq_error (hg : g.Sane) (h : g.buildOrder = .error t) :
    Relation.TransGen g.Edge t t := by
  have hsearch := Searching.start.search hg
  rw [buildOrder] at h
  cases hs : g.search (g.tasks.map .visit) ∅ [] with
  | error u =>
    rw [hs] at h hsearch
    obtain rfl := Except.error.inj h
    exact .single hsearch
  | ok listed =>
    rw [hs] at h hsearch
    obtain ⟨seen, hend⟩ := hsearch
    cases hb : g.backEdge? ∅ listed with
    | none => simp [hb] at h
    | some d =>
      obtain rfl : d = t := by simpa [hb] using h
      obtain ⟨pre, u, post, hl, hd, hne, -, hpre⟩ := exists_of_backEdge?_eq_some hb
      have hu : u ∈ g.tasks := hend.tasks u (hl ▸ by simp)
      have hedge : g.Edge d u := hg.both.2 ⟨hu, hd⟩
      -- The task was listed before the one that it needs, which therefore reaches it.
      refine .head' hedge ((hend.order (hend.perm.mem_iff.2 hedge.1) hedge).resolve_left fun hbefore => ?_)
      have hd' : d ∈ post := by
        have hmem : d ∈ pre ++ u :: post := hl ▸ hend.perm.mem_iff.2 hedge.1
        simpa [hpre, hne] using hmem
      have hafter : [u, d].Sublist listed := hl ▸
        (List.Sublist.cons_cons u (List.singleton_sublist.2 hd')).trans (List.sublist_append_right _ _)
      have hnodup : listed.Nodup := hend.perm.nodup_iff.2 nodup_tasks
      exact List.pairwise_iff_forall_sublist.1 hnodup (pair_sublist_trans hnodup hbefore hafter) rfl

/-- A graph whose tasks can be listed, each after all that it needs, has no cycle. -/
theorem not_transGen_of_order (hl : l.Nodup) (h : ∀ {t u}, g.Edge t u → [u, t].Sublist l) :
    ¬ Relation.TransGen g.Edge t t := by
  have hbefore : ∀ {t u}, Relation.TransGen g.Edge t u → [u, t].Sublist l := by
    intro t u ht
    induction ht with
    | single hedge => exact h hedge
    | tail _ hedge ih => exact pair_sublist_trans hl (h hedge) ih
  exact fun ht => List.pairwise_iff_forall_sublist.1 hl (hbefore ht) rfl

/-- A graph whose tasks can be listed, each after all that it needs, has a build order. -/
theorem exists_buildOrder (hg : g.Sane) (hl : l.Nodup) (h : ∀ {t u}, g.Edge t u → [u, t].Sublist l) :
    ∃ order, g.buildOrder = .ok order := by
  cases hb : g.buildOrder with
  | ok order => exact ⟨order, rfl⟩
  | error t => exact absurd (transGen_of_buildOrder_eq_error hg hb) (not_transGen_of_order hl h)

end TaskGraph

end ImportIndex
