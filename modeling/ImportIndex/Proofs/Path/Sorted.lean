import ImportIndex.Path.Order

/-!
# Sorted paths

The order of paths is total, so that sorting lists them in this order. If no two of them are the same, each
comes strictly before the next (`pairwise_sorted`).
-/

namespace ImportIndex.Path

variable {p q r : Path} {l : List Path}

theorem le_trans (hpq : p.le q = true) (hqr : q.le r = true) : p.le r = true :=
  Std.TransCmp.isLE_trans hpq hqr

theorem le_total (p q : Path) : (p.le q || q.le p) = true := by
  have hswap : q.compare p = (p.compare q).swap := Std.OrientedCmp.eq_swap
  rw [le, le, hswap]
  cases p.compare q <;> rfl

/-- A path that does not come after another one comes before it, or is the same. -/
theorem lt_of_le (h : p.le q = true) (hs : ¬ p.Same q) : p.compare q = .lt := by
  rw [← compare_eq_iff] at hs
  rw [le] at h
  cases hc : p.compare q <;> simp_all

theorem mem_sorted : p ∈ l.mergeSort le ↔ p ∈ l := (List.mergeSort_perm l le).mem_iff

/-- Paths no two of which are the same ascend when they are sorted. -/
theorem pairwise_sorted (hl : l.Pairwise fun p q => ¬ p.Same q) :
    (l.mergeSort le).Pairwise fun p q => p.compare q = .lt := by
  have hle : (l.mergeSort le).Pairwise fun p q => p.le q = true :=
    List.pairwise_mergeSort (fun p q r => @le_trans p q r) le_total l
  have hdistinct : (l.mergeSort le).Pairwise fun p q => ¬ p.Same q :=
    (List.mergeSort_perm l le).symm.pairwise hl fun h hs => h hs.symm
  exact (hle.and hdistinct).imp fun h => lt_of_le h.1 h.2

end ImportIndex.Path
