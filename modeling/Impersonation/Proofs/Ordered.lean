import Impersonation.Tree

namespace Impersonation

namespace Component

instance : Std.OrientedCmp compare where
  eq_swap {a b} := by
    cases a <;> cases b <;> simp only [compare]
    case name.name => exact Std.OrientedCmp.eq_swap
    all_goals rfl

instance : Std.TransCmp compare where
  isLE_trans {a b c} hab hbc := by
    cases a <;> cases b <;> cases c <;> simp only [compare] at hab hbc ⊢
    case name.name.name => exact Std.TransCmp.isLE_trans hab hbc
    all_goals simp_all [rank, Nat.isLE_compare]

instance : Std.LawfulEqCmp compare where
  compare_self {a} := by
    cases a <;> simp only [compare]
    case name => exact Std.ReflCmp.compare_self
    all_goals rfl
  eq_of_compare {a b} h := by
    cases a <;> cases b <;> simp only [compare] at h
    case name.name => rw [Std.LawfulEqCmp.eq_of_compare h]
    all_goals simp_all [rank]

end Component

namespace Path

variable {p q r : Path}

def lt (p q : Path) : Prop :=
  List.compareLex Component.compare p.components q.components = .lt

theorem lt_trans (h : p.lt q) (h' : q.lt r) : p.lt r :=
  Std.TransCmp.lt_trans h h'

theorem not_same_of_lt (h : p.lt q) : ¬ p.same q := by
  intro same
  have eq : List.compareLex Component.compare q.components q.components = .eq :=
    Std.ReflCmp.compare_self
  rw [lt, same_iff.mp same, eq] at h
  cases h

theorem lt_of_same_right (same : p.same q) : r.lt p ↔ r.lt q := by
  rw [lt, lt, same_iff.mp same]

theorem lt_of_le (h : p.le q) (apart : ¬ q.same p) : p.lt q := by
  have not_gt : List.compareLex Component.compare p.components q.components ≠ .gt := by
    simpa [le] using h
  have not_eq : List.compareLex Component.compare p.components q.components ≠ .eq := fun eq =>
    apart (same_iff.mpr (Std.LawfulEqCmp.eq_of_compare eq).symm)
  unfold lt
  cases hc : List.compareLex Component.compare p.components q.components with
  | lt => rfl
  | eq => exact absurd hc not_eq
  | gt => exact absurd hc not_gt

theorem lt_of_not_le (h : ¬ p.le q) : q.lt p := by
  have gt : List.compareLex Component.compare p.components q.components = .gt := by
    simpa [le] using h
  exact Std.OrientedCmp.gt_iff_lt.mp gt

theorem not_le_of_lt (h : q.lt p) : ¬ p.le q := by
  have gt : List.compareLex Component.compare p.components q.components = .gt :=
    Std.OrientedCmp.gt_iff_lt.mpr h
  simp [le, gt]

end Path

namespace Nodes

variable {ns : Nodes} {p q : Path} {n m old : Node} {entry : Path × Node}

/-- The nodes are in the order of their paths, and no two have the same path. -/
def Ordered (ns : Nodes) : Prop :=
  ns.Pairwise fun a b => a.1.lt b.1

theorem mem_put (h : entry ∈ ns.put p n) : entry ∈ ns ∨ entry.1.same p ∧ entry.2 = n := by
  induction ns with
  | nil =>
    obtain rfl := List.mem_singleton.mp h
    exact .inr ⟨Path.same_refl p, rfl⟩
  | cons first rest ih =>
    obtain ⟨key, old⟩ := first
    simp only [put] at h
    split at h
    next same =>
      rcases List.mem_cons.mp h with rfl | mem
      · exact .inr ⟨same, rfl⟩
      · exact .inl (List.mem_cons_of_mem _ mem)
    next =>
      split at h
      next =>
        rcases List.mem_cons.mp h with rfl | mem
        · exact .inr ⟨Path.same_refl p, rfl⟩
        · exact .inl mem
      next =>
        rcases List.mem_cons.mp h with rfl | mem
        · exact .inl List.mem_cons_self
        · exact (ih mem).imp_left (List.mem_cons_of_mem _)

theorem mem_put_of_absent (absent : ns.find? p = none) (h : entry ∈ ns.put p n) :
    entry ∈ ns ∨ entry = (p, n) := by
  induction ns with
  | nil => exact .inr (List.mem_singleton.mp h)
  | cons first rest ih =>
    obtain ⟨key, old⟩ := first
    simp only [find?] at absent
    split at absent
    next => cases absent
    next apart =>
      simp only [put, if_neg apart] at h
      split at h
      next => exact (List.mem_cons.mp h).symm
      next =>
        rcases List.mem_cons.mp h with rfl | mem
        · exact .inl List.mem_cons_self
        · exact (ih absent mem).imp_left (List.mem_cons_of_mem _)

theorem Ordered.put (h : Ordered ns) (p : Path) (n : Node) : Ordered (ns.put p n) := by
  induction ns with
  | nil => exact List.pairwise_singleton _ _
  | cons first rest ih =>
    obtain ⟨key, old⟩ := first
    obtain ⟨lower, tail⟩ := List.pairwise_cons.mp h
    simp only [Nodes.put]
    split
    next => exact List.pairwise_cons.mpr ⟨lower, tail⟩
    next apart =>
      split
      next le =>
        have front := Path.lt_of_le le apart
        refine List.pairwise_cons.mpr ⟨fun entry mem => ?_, h⟩
        rcases List.mem_cons.mp mem with rfl | mem
        · exact front
        · exact Path.lt_trans front (lower entry mem)
      next le =>
        refine List.pairwise_cons.mpr ⟨fun entry mem => ?_, ih tail⟩
        rcases mem_put mem with mem | ⟨same, -⟩
        · exact lower entry mem
        · exact (Path.lt_of_same_right same).mpr (Path.lt_of_not_le le)

theorem Ordered.erase (h : Ordered ns) (p : Path) : Ordered (ns.erase p) :=
  h.filter _

theorem mem_of_find? (h : ns.find? p = some n) : ∃ key, key.same p ∧ (key, n) ∈ ns := by
  induction ns with
  | nil => cases h
  | cons first rest ih =>
    obtain ⟨key, old⟩ := first
    simp only [find?] at h
    split at h
    next same =>
      obtain rfl := Option.some.inj h
      exact ⟨key, same, List.mem_cons_self⟩
    next =>
      obtain ⟨key, same, mem⟩ := ih h
      exact ⟨key, same, List.mem_cons_of_mem _ mem⟩

theorem Ordered.put_eq_map (h : Ordered ns) (found : ns.find? p = some m) (n : Node) :
    ns.put p n = ns.map fun entry => if entry.1.same p then (entry.1, n) else entry := by
  induction ns with
  | nil => cases found
  | cons first rest ih =>
    obtain ⟨key, old⟩ := first
    obtain ⟨lower, tail⟩ := List.pairwise_cons.mp h
    by_cases same : key.same p
    · have others : ∀ entry ∈ rest, ¬ entry.1.same p := by
        intro entry mem other
        refine Path.not_same_of_lt (lower entry mem) (Path.same_iff.mpr ?_)
        rw [Path.same_iff.mp same, Path.same_iff.mp other]
      have kept : (rest.map fun entry => if entry.1.same p then (entry.1, n) else entry) = rest :=
        (List.map_congr_left fun entry mem => if_neg (others entry mem)).trans (List.map_id _)
      simp only [Nodes.put, if_pos same, List.map_cons, kept]
    · rw [find?, if_neg same] at found
      obtain ⟨later, there, mem⟩ := mem_of_find? found
      have before : key.lt p := (Path.lt_of_same_right there).mp (lower _ mem)
      simp only [Nodes.put, if_neg same, if_neg (Path.not_le_of_lt before), List.map_cons,
        ih tail found]

theorem Ordered.put_congr (h : Ordered ns) (found : ns.find? p = some old) (same : p.same q)
    (n : Node) : ns.put p n = ns.put q n := by
  have key (r : Path) : r.same q = r.same p := by simp only [Path.same, Path.same_iff.mp same]
  have found' : ns.find? q = some old := (find?_congr same ns).symm.trans found
  simp only [h.put_eq_map found, h.put_eq_map found', key]

theorem Ordered.put_put (h : Ordered ns) (found : ns.find? p = some old) (n m : Node) :
    (ns.put p n).put p m = ns.put p m := by
  have found' : (ns.put p n).find? p = some n := by rw [find?_put, if_pos (Path.same_refl p)]
  rw [(h.put p n).put_eq_map found', h.put_eq_map found, h.put_eq_map found, List.map_map]
  refine List.map_congr_left fun entry _ => ?_
  by_cases here : entry.1.same p <;> simp [here]

end Nodes

end Impersonation
