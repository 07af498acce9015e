import Impersonation.Proofs.Ancestors
import Impersonation.Tree

namespace Impersonation

namespace Path

variable {p q a dir : Path}

def isBelow (p dir : Path) : Prop :=
  dir.components <+: p.components ∧ p.components ≠ dir.components

theorem not_isBelow_of_mem_ancestors (same : q.same dir) (h : a ∈ q.ancestors) :
    ¬ a.isBelow dir := by
  intro ⟨below, ne⟩
  have up := components_of_mem_ancestors h
  rw [same_iff.mp same] at up
  exact ne (up.eq_of_length_le below.length_le)

theorem mem_ancestors_of_mem_above (h : a ∈ p.above) : a ∈ p.ancestors :=
  List.mem_of_mem_tail (List.mem_reverse.mp h)

/-- What is at or above a path is at or above a given ancestor, or below it. -/
theorem mem_ancestors_or_above (hq : q ∈ p.above) (ha : a ∈ p.ancestors) :
    a ∈ q.ancestors ∨ q ∈ a.above := by
  have self (b : Path) : b ∈ b.ancestors := mem_ancestors.mpr (.inl rfl)
  have upper := ancestors_of_mem (mem_ancestors_of_mem_above hq)
  rcases List.suffix_or_suffix_of_suffix (ancestors_of_mem ha) upper with higher | lower
  · exact .inl (higher.subset (self a))
  · have mem := lower.subset (self q)
    rw [ancestors_eq_cons a] at mem
    rcases List.mem_cons.mp mem with rfl | mem
    · exact .inl (self q)
    · exact .inr (List.mem_reverse.mpr mem)

end Path

namespace Tree

variable {t t₁ t₂ : Tree} {who : Ids} {p q a dir : Path} {f : Fault} {n : Node}

/-- The trees differ in what is below a directory and in nothing else. -/
structure AgreesOutside (dir : Path) (t₁ t₂ : Tree) : Prop where
  nodes : ∀ p, ¬ p.isBelow dir → t₁.find? p = t₂.find? p
  statFailures : t₁.statFailures = t₂.statFailures
  stuck : t₁.stuck = t₂.stuck

def Passable (t : Tree) (p : Path) : Prop :=
  ∀ a ∈ p.above, ∃ n, t.find? a = some n ∧ n.stat.isDir

theorem checkSearch_eq_ok_iff :
    t.checkSearch who p = .ok () ↔ ∀ a ∈ p.above, t.checkDirectory who a = .ok () := by
  unfold checkSearch
  generalize p.above = dirs
  induction dirs with
  | nil => simp [List.forM, pure, Except.pure]
  | cons a rest ih =>
    cases h : t.checkDirectory who a with
    | error f => simp [List.forM, bind, Except.bind, h]
    | ok _ => simpa [List.forM, bind, Except.bind, h] using ih

theorem checkSearch_congr (h : ∀ a ∈ p.above, t₁.find? a = t₂.find? a) (who : Ids) :
    t₁.checkSearch who p = t₂.checkSearch who p := by
  unfold checkSearch
  generalize p.above = dirs at h
  induction dirs with
  | nil => rfl
  | cons a rest ih =>
    have head : t₁.checkDirectory who a = t₂.checkDirectory who a := by
      simp only [checkDirectory, h a List.mem_cons_self]
    rw [List.forM, List.forM, head, ih fun b hb => h b (List.mem_cons_of_mem _ hb)]

/-- The way to a path leads over everything above it. -/
theorem checkSearch_of_mem (t : Tree) (who : Ids) (h : q ∈ p.above) :
    ∃ lower : Except Fault Unit, t.checkSearch who p =
      (t.checkSearch who q >>= fun _ => t.checkDirectory who q >>= fun _ => lower) := by
  obtain ⟨below, eq⟩ := Path.above_of_mem h
  refine ⟨below.forM (t.checkDirectory who), ?_⟩
  rw [checkSearch, eq, List.forM_eq_forM, List.forM_append]
  rfl

theorem checkSearch_of_unreached (h : q ∈ p.above) (unreached : t.checkSearch who q = .error f) :
    t.checkSearch who p = .error f := by
  obtain ⟨lower, eq⟩ := t.checkSearch_of_mem who h
  rw [eq, unreached]
  rfl

/-- Where there are directories, a user may be stopped by their permissions only. -/
theorem Passable.checkSearch_cases (h : t.Passable p) (who : Ids) :
    t.checkSearch who p = .ok () ∨ t.checkSearch who p = .error (.os .accessDenied) := by
  unfold Passable at h
  unfold checkSearch
  generalize p.above = dirs at h
  induction dirs with
  | nil => exact .inl rfl
  | cons a rest ih =>
    obtain ⟨n, node, dir⟩ := h a List.mem_cons_self
    have further := ih fun b hb => h b (List.mem_cons_of_mem _ hb)
    cases allowed : n.stat.allows who .search with
    | false =>
      right
      simp [List.forM, bind, Except.bind, checkDirectory, node, dir, allowed, refuse]
    | true => simpa [List.forM, bind, Except.bind, checkDirectory, node, dir, allowed] using further

theorem checkDirectory_eq_ok_iff {dir : Path} : t.checkDirectory who dir = .ok () ↔
    ∃ n, t.find? dir = some n ∧ n.stat.isDir ∧ n.stat.allows who .search := by
  unfold checkDirectory refuse
  cases t.find? dir with
  | none => simp
  | some n => cases hd : n.stat.isDir <;> cases ha : n.stat.allows who .search <;> simp [hd, ha]

theorem passable_of_checkSearch (h : t.checkSearch who p = .ok ()) : t.Passable p := by
  intro a ha
  obtain ⟨n, node, dir, -⟩ := checkDirectory_eq_ok_iff.mp (checkSearch_eq_ok_iff.mp h a ha)
  exact ⟨n, node, dir⟩

/-- User id 0 gets to all that lies in directories. -/
theorem Passable.checkSearch_root (h : t.Passable p) : t.checkSearch {} p = .ok () := by
  refine checkSearch_eq_ok_iff.mpr fun a ha => ?_
  obtain ⟨n, node, dir⟩ := h a ha
  exact checkDirectory_eq_ok_iff.mpr ⟨n, node, dir, rfl⟩

theorem unreached_of_not_passable (h : ¬ t.Passable p) (who : Ids) :
    ∃ f, t.checkSearch who p = .error f := by
  cases hs : t.checkSearch who p with
  | error f => exact ⟨f, rfl⟩
  | ok _ => exact absurd (passable_of_checkSearch hs) h

theorem Passable.checkSearch_denied (above : t.Passable q) (h : q ∈ p.above)
    (node : t.find? q = some n) (isDir : n.stat.isDir)
    (barred : n.stat.allows who .search = false) :
    t.checkSearch who p = .error (.os .accessDenied) := by
  rcases above.checkSearch_cases who with ok | denied
  · obtain ⟨lower, eq⟩ := t.checkSearch_of_mem who h
    have closed : t.checkDirectory who q = .error (.os .accessDenied) := by
      simp [checkDirectory, node, isDir, barred, refuse]
    rw [eq, ok, closed]
    rfl
  · exact checkSearch_of_unreached h denied

/-- The failure that shows: a tree that is stuck has another one. -/
def failure (t : Tree) (f : Fault) : Fault :=
  if t.stuck then .os .inputOutput else f

def statFailure (t : Tree) (p : Path) (f : Fault) : Fault :=
  match t.statFailures.find? (·.1.same p) with
  | some (_, e) => .os e
  | none => t.failure f

def refusal (t : Tree) (f : Fault) : Request → Response
  | .stat p => .ofFault (t.statFailure p f)
  | .mkdir .. | .create .. | .unlink _ | .readDir _ | .write .. => .ofFault (t.failure f)
  | .rmdir _ | .rename .. | .truncate .. | .chmod .. | .read .. => .error .notImplemented

theorem unlocked_error {α : Type} (t : Tree) (f : Fault) :
    (t.unlocked >>= fun _ => (.error f : Except Fault α)) = .error (t.failure f) := by
  unfold unlocked failure
  split <;> rfl

theorem reach_of_unreached (h : t.checkSearch who p = .error f) : t.reach who p = .error f := by
  rw [reach, h]
  rfl

theorem holder_of_unreached (h : t.checkSearch who p = .error f) : t.holder who p = .error f := by
  rw [holder, h]
  rfl

theorem stat_of_unreached (h : t.checkSearch who p = .error f) :
    t.stat who p = .error (t.statFailure p f) := by
  rw [stat, statFailure, reach_of_unreached h]
  cases t.statFailures.find? (·.1.same p) with
  | some planted => rfl
  | none => exact t.unlocked_error f

theorem make_of_unreached {kind mode : UInt32} (h : t.checkSearch who p = .error f) :
    t.make who p kind mode = .error (t.failure f) := by
  rw [make, holder_of_unreached h]
  exact t.unlocked_error f

theorem unlink_of_unreached (h : t.checkSearch who p = .error f) :
    t.unlink who p = .error (t.failure f) := by
  rw [unlink, holder_of_unreached h]
  exact t.unlocked_error f

theorem readDir_of_unreached (h : t.checkSearch who p = .error f) :
    t.readDir who p = .error (t.failure f) := by
  rw [readDir, reach_of_unreached h]
  exact t.unlocked_error f

theorem writable_of_unreached (h : t.checkSearch who p = .error f) :
    t.writable who p = .error (t.failure f) := by
  rw [writable, reach_of_unreached h]
  exact t.unlocked_error f

theorem chown_of_unreached {uid gid : Option UInt32} (h : t.checkSearch who p = .error f) :
    t.chown who p uid gid = .error (t.failure f) := by
  rw [chown, reach_of_unreached h]
  exact t.unlocked_error f

/-- A request whose path is out of reach is refused and changes nothing. -/
theorem perform_of_unreached {r : Request} (h : t.checkSearch who r.path = .error f) :
    t.perform who r = (.finished (t.refusal f r), t) := by
  cases r <;> dsimp only [Request.path] at h
  case stat p =>
    rw [perform, stat_of_unreached h]
    rfl
  case mkdir p mode =>
    rw [perform, make_of_unreached h]
    rfl
  case create p mode =>
    rw [perform, make_of_unreached h]
    rfl
  case unlink p =>
    rw [perform, unlink_of_unreached h]
    rfl
  case readDir p =>
    rw [perform, readDir_of_unreached h]
    rfl
  case write p offset data =>
    rw [perform, write, writable_of_unreached h]
    rfl
  all_goals rfl

theorem stat_congr (failures : t₁.statFailures = t₂.statFailures) (stuck : t₁.stuck = t₂.stuck)
    (h : t₁.reach who p = t₂.reach who p) : t₁.stat who p = t₂.stat who p := by
  simp only [stat, unlocked, failures, stuck, h]

namespace AgreesOutside

theorem refl (dir : Path) (t : Tree) : AgreesOutside dir t t :=
  ⟨fun _ _ => rfl, rfl, rfl⟩

theorem plant (t : Tree) (below : p.isBelow dir) (mode uid gid : UInt32) :
    AgreesOutside dir t (t.plant p mode uid gid) := by
  refine ⟨fun q hq => ?_, rfl, rfl⟩
  have apart : ¬ p.same q := by
    intro same
    rw [Path.isBelow, Path.same_iff.mp same] at below
    exact hq below
  simp only [find?, Tree.plant, Nodes.find?_put, if_neg apart]

variable (agree : AgreesOutside dir t₁ t₂)
include agree

theorem failure_eq (f : Fault) : t₁.failure f = t₂.failure f := by
  rw [failure, failure, agree.stuck]

theorem refusal_eq (f : Fault) (r : Request) : t₁.refusal f r = t₂.refusal f r := by
  cases r <;> simp only [refusal, statFailure, failure, agree.statFailures, agree.stuck]

variable (same : q.same dir)
include same

theorem find?_eq (h : a ∈ q.ancestors) : t₁.find? a = t₂.find? a :=
  agree.nodes a (Path.not_isBelow_of_mem_ancestors same h)

theorem checkSearch_eq (h : a ∈ q.ancestors) (who : Ids) :
    t₁.checkSearch who a = t₂.checkSearch who a :=
  checkSearch_congr (fun _ hb => agree.find?_eq same
    ((Path.ancestors_of_mem h).subset (Path.mem_ancestors_of_mem_above hb))) who

theorem passable_iff : t₁.Passable q ↔ t₂.Passable q := by
  have eq (a : Path) (ha : a ∈ q.above) := agree.find?_eq same (Path.mem_ancestors_of_mem_above ha)
  constructor
  · intro h a ha
    rw [← eq a ha]
    exact h a ha
  · intro h a ha
    rw [eq a ha]
    exact h a ha

/-- If nobody gets to the directory, all looks at the paths above a path below it are alike. -/
theorem stat_eq (blocked : ¬ t₁.Passable q) (hq : q ∈ p.above) (ha : a ∈ p.ancestors)
    (who : Ids) : t₁.stat who a = t₂.stat who a := by
  refine stat_congr agree.statFailures agree.stuck ?_
  rcases Path.mem_ancestors_or_above hq ha with higher | lower
  · simp only [reach, agree.find?_eq same higher, agree.checkSearch_eq same higher who]
  · obtain ⟨f, unreached⟩ := unreached_of_not_passable blocked who
    have unreached₂ := unreached
    rw [agree.checkSearch_eq same (Path.mem_ancestors.mpr (.inl rfl))] at unreached₂
    rw [reach_of_unreached (checkSearch_of_unreached lower unreached),
      reach_of_unreached (checkSearch_of_unreached lower unreached₂)]

/-- A directory closed to some users denies them what is below it in both trees; or nobody gets to
the directory, and then all that happens below it is alike in both trees. -/
theorem closed_cases (node : t₁.find? q = some n) (isDir : n.stat.isDir) (hq : q ∈ p.above) :
    (∀ who, n.stat.allows who .search = false →
      t₁.checkSearch who p = .error (.os .accessDenied) ∧
        t₂.checkSearch who p = .error (.os .accessDenied)) ∨
    ∀ who, (∃ f, t₁.checkSearch who p = .error f ∧ t₂.checkSearch who p = .error f) ∧
      ∀ a ∈ p.ancestors, t₁.stat who a = t₂.stat who a := by
  have self : q ∈ q.ancestors := Path.mem_ancestors.mpr (.inl rfl)
  by_cases passable : t₁.Passable q
  · left
    intro who barred
    have node₂ : t₂.find? q = some n := (agree.find?_eq same self).symm.trans node
    exact ⟨passable.checkSearch_denied hq node isDir barred,
      ((agree.passable_iff same).mp passable).checkSearch_denied hq node₂ isDir barred⟩
  · right
    intro who
    obtain ⟨f, unreached⟩ := unreached_of_not_passable passable who
    have unreached₂ := unreached
    rw [agree.checkSearch_eq same self] at unreached₂
    exact ⟨⟨f, checkSearch_of_unreached hq unreached, checkSearch_of_unreached hq unreached₂⟩,
      fun a ha => agree.stat_eq same passable hq ha who⟩

end AgreesOutside

end Tree

end Impersonation
