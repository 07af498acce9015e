import Impersonation.Proofs.Accord
import Impersonation.Tree

namespace Impersonation

variable {p q : Path} {who : Ids}

namespace Nodes

/-- The same nodes in the same order, under paths that are spelled in two ways. -/
def Respells (ns ns' : Nodes) : Prop :=
  List.Forall₂ (fun entry entry' => entry.1.Respells entry'.1 ∧ entry'.2 = entry.2) ns ns'

variable {ns ns' : Nodes}

theorem Respells.refl (ns : Nodes) : ns.Respells ns :=
  List.forall₂_same.mpr fun entry _ => ⟨.refl entry.1, rfl⟩

theorem Respells.find? (h : ns.Respells ns') (hp : p.Respells q) : ns'.find? q = ns.find? p := by
  induction h with
  | nil => rfl
  | cons first _ ih =>
    obtain ⟨key, same⟩ := first
    simp only [Nodes.find?, key.same hp, same, ih]

/-- Such nodes are the same ones, node for node, under equal paths. -/
theorem Respells.same (h : ns.Respells ns') :
    List.Forall₂ (fun entry entry' => entry.1.same entry'.1 ∧ entry'.2 = entry.2) ns ns' :=
  List.Forall₂.imp (fun _ _ both => ⟨Path.same_iff.mpr both.1.components.symm, both.2⟩) h

theorem Respells.put (h : ns.Respells ns') (hp : p.Respells q) (n : Node) :
    (ns.put p n).Respells (ns'.put q n) := by
  induction h with
  | nil => exact .cons ⟨hp, rfl⟩ .nil
  | cons first rest ih =>
    obtain ⟨key, same⟩ := first
    simp only [Nodes.put, key.same hp, hp.le key]
    split
    · exact .cons ⟨key, rfl⟩ rest
    · split
      · exact .cons ⟨hp, rfl⟩ (.cons ⟨key, same⟩ rest)
      · exact .cons ⟨key, same⟩ ih

theorem Respells.erase (h : ns.Respells ns') (hp : p.Respells q) :
    (ns.erase p).Respells (ns'.erase q) := by
  induction h with
  | nil => exact .nil
  | cons first _ ih =>
    have hit := first.1.same hp
    simp only [Nodes.erase, List.filter_cons, hit]
    split
    · exact .cons first ih
    · exact ih

end Nodes

namespace Tree

structure Respells (t t' : Tree) : Prop where
  nodes : t.nodes.Respells t'.nodes
  statFailures : t'.statFailures = t.statFailures
  stuck : t'.stuck = t.stuck

variable {t t' : Tree}

theorem Respells.refl (t : Tree) : t.Respells t :=
  ⟨.refl t.nodes, rfl, rfl⟩

namespace Respells

theorem find? (h : t.Respells t') (hp : p.Respells q) : t'.find? q = t.find? p :=
  h.nodes.find? hp

theorem node? (h : t.Respells t') (same : p.same q) : t'.node? q = t.node? p := by
  have found : t'.find? q = t.find? p :=
    (Nodes.find?_congr same t'.nodes).symm.trans (h.find? (.refl p))
  rw [Tree.node?, Tree.node?, h.stuck, found]

theorem unlocked (h : t.Respells t') : t'.unlocked = t.unlocked := by
  rw [Tree.unlocked, Tree.unlocked, h.stuck]

theorem checkDirectory (h : t.Respells t') (hp : p.Respells q) (who : Ids) :
    t'.checkDirectory who q = t.checkDirectory who p := by
  rw [Tree.checkDirectory, Tree.checkDirectory, h.find? hp]

theorem checkSearch (h : t.Respells t') (hp : p.Respells q) (who : Ids) :
    t'.checkSearch who q = t.checkSearch who p := by
  have walk := hp.above
  unfold Tree.checkSearch
  generalize p.above = ps, q.above = qs at walk ⊢
  induction walk with
  | nil => rfl
  | cons first _ ih => rw [List.forM, List.forM, h.checkDirectory first who, ih]

theorem reach (h : t.Respells t') (hp : p.Respells q) (who : Ids) :
    t'.reach who q = t.reach who p := by
  rw [Tree.reach, Tree.reach, h.checkSearch hp, h.find? hp]

theorem holder (h : t.Respells t') (hp : p.Respells q) (who : Ids) :
    t'.holder who q = t.holder who p := by
  rw [Tree.holder, Tree.holder, h.checkSearch hp]
  rcases hp.parent? with ⟨top, top'⟩ | ⟨above, above', eq, eq', up⟩
  · rw [top, top']
  · simp only [eq, eq', h.find? up]

theorem stat (h : t.Respells t') (hp : p.Respells q) (who : Ids) :
    t'.stat who q = t.stat who p := by
  have planted : t'.statFailures.find? (·.1.same q) = t.statFailures.find? (·.1.same p) := by
    rw [h.statFailures]
    exact congrArg (List.find? · t.statFailures) (funext fun f => (Path.Respells.refl f.1).same hp)
  rw [Tree.stat, Tree.stat, planted, h.unlocked, h.reach hp]

/-- Whether a node is directly below a path does not depend on how either is spelled. -/
theorem below {key key' : Path} (hk : key.Respells key') (hp : p.Respells q) :
    (!key'.same q && key'.parent?.any (·.same q)) = (!key.same p && key.parent?.any (·.same p)) := by
  rw [hk.same hp]
  rcases hk.parent? with ⟨top, top'⟩ | ⟨above, above', eq, eq', up⟩
  · rw [top, top']
    rfl
  · simp only [eq, eq', Option.any_some, up.same hp]

theorem children (h : t.Respells t') (hp : p.Respells q) : t'.children q = t.children p := by
  have nodes : List.Forall₂ _ t.nodes t'.nodes := h.nodes
  unfold Tree.children
  generalize t.nodes = ns, t'.nodes = ns' at nodes ⊢
  induction nodes with
  | nil => rfl
  | cons first _ ih =>
    simp only [List.filter_cons, below first.1 hp]
    split
    · simp only [List.filterMap_cons, first.1.fileName?, ih]
    · exact ih

theorem readDir (h : t.Respells t') (hp : p.Respells q) (who : Ids) :
    t'.readDir who q = t.readDir who p := by
  rw [Tree.readDir, Tree.readDir, h.unlocked, h.reach hp, h.children hp]

theorem writable (h : t.Respells t') (hp : p.Respells q) (who : Ids) :
    t'.writable who q = t.writable who p := by
  rw [Tree.writable, Tree.writable, h.unlocked, h.reach hp]

theorem put (h : t.Respells t') (hp : p.Respells q) (n : Node) :
    Respells { t with nodes := t.nodes.put p n } { t' with nodes := t'.nodes.put q n } :=
  ⟨h.nodes.put hp n, h.statFailures, h.stuck⟩

theorem make (h : t.Respells t') (hp : p.Respells q) (who : Ids) (kind mode : UInt32) :
    Accord Eq Respells (t.make who p kind mode) (t'.make who q kind mode) := by
  rw [Tree.make, Tree.make, h.unlocked, h.holder hp, h.find? hp]
  refine .after _ fun _ => .after _ fun above => ?_
  split
  · exact .error rfl
  · exact .ok (h.put hp _)

theorem unlink (h : t.Respells t') (hp : p.Respells q) (who : Ids) :
    Accord Eq Respells (t.unlink who p) (t'.unlink who q) := by
  rw [Tree.unlink, Tree.unlink, h.unlocked, h.holder hp, h.find? hp]
  refine .after _ fun _ => .after _ fun _ => ?_
  split
  · exact .error rfl
  · exact .ok ⟨h.nodes.erase hp, h.statFailures, h.stuck⟩

theorem chown (h : t.Respells t') (hp : p.Respells q) (who : Ids) (uid gid : Option UInt32) :
    Accord Eq Respells (t.chown who p uid gid) (t'.chown who q uid gid) := by
  rw [Tree.chown, Tree.chown, h.unlocked, h.reach hp]
  refine .after _ fun _ => .after _ fun n => ?_
  split
  · exact .error rfl
  · exact .ok (h.put hp _)

theorem write (h : t.Respells t') (hp : p.Respells q) (who : Ids) (offset : UInt64) (data : Bytes) :
    (t'.write who q offset data).1 = (t.write who p offset data).1 ∧
      (t.write who p offset data).2.Respells (t'.write who q offset data).2 := by
  rw [Tree.write, Tree.write, h.writable hp]
  split
  · exact ⟨rfl, h⟩
  · split
    · exact ⟨rfl, h.nodes, h.statFailures, rfl⟩
    · exact ⟨rfl, h.put hp _⟩

theorem settle (h : t.Respells t') {next next' : Except Fault Tree}
    (accord : Accord Eq Respells next next') :
    (t'.settle next').1 = (t.settle next).1 ∧ (t.settle next).2.Respells (t'.settle next').2 := by
  cases accord with
  | ok later => exact ⟨rfl, later⟩
  | error same =>
    subst same
    exact ⟨rfl, h⟩

/-- A request in two spellings gets one response from two such trees, and they stay alike. -/
theorem perform {r r' : Request} (h : t.Respells t') (asked : r.Respells r') (who : Ids) :
    (t'.perform who r').1 = (t.perform who r).1 ∧
      (t.perform who r).2.Respells (t'.perform who r').2 := by
  cases asked with
  | stat hp =>
    rw [Tree.perform, Tree.perform, h.stat hp]
    exact ⟨rfl, h⟩
  | mkdir mode hp | create mode hp => exact h.settle (h.make hp who _ mode)
  | unlink hp => exact h.settle (h.unlink hp who)
  | readDir hp =>
    rw [Tree.perform, Tree.perform, h.readDir hp]
    exact ⟨rfl, h⟩
  | @write p q offset data hp =>
    obtain ⟨same, later⟩ := h.write hp who offset data
    simp only [Tree.perform]
    generalize t.write who p offset data = written at *
    generalize t'.write who q offset data = written' at *
    obtain ⟨o, next⟩ := written
    obtain ⟨_, next'⟩ := written'
    cases same
    cases o <;> exact ⟨rfl, later⟩
  | rmdir _ | rename _ _ | truncate _ _ | chmod _ _ | read _ _ _ => exact ⟨rfl, h⟩

end Respells

end Tree

end Impersonation
