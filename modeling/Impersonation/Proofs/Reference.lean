import Impersonation.Proofs.Creation

namespace Impersonation

namespace Tree

/-- Goes down a list of paths as far as there are directories, from a node `last`. The last node on
the way is the result, but a file in the place of a directory leads nowhere. -/
def descend (t : Tree) (last : Option FileStat) : List Path → Option FileStat
  | [] => last
  | p :: below =>
    match t.find? p with
    | none => last
    | some n => if n.stat.isDir || below.isEmpty then t.descend (some n.stat) below else none

/-- The node that governs a path: the nearest one at or above it that can be come to from the top. -/
def governing (t : Tree) (p : Path) : Option FileStat :=
  t.descend none (p.above ++ [p])

/-- The nearest node at or above a path, whatever lies between it and the path. -/
def nearestNode (t : Tree) (p : Path) : Option FileStat :=
  p.ancestors.findSome? fun q => (t.find? q).map (·.stat)

variable {t next : Tree} {who : Ids} {p : Path} {r : Request}

theorem checkDirectory_root (t : Tree) (dir : Path) :
    t.checkDirectory {} dir =
      match t.find? dir with
      | none => .error (.os .noEntry)
      | some n => if n.stat.isDir then .ok () else .error (.os .notDirectory) := by
  unfold checkDirectory refuse
  cases t.find? dir with
  | none => rfl
  | some n => cases hd : n.stat.isDir <;> simp [hd, @allows_root {} n.stat rfl]

/-- Going down to one path more: past directories only, and to no further node past a missing one. -/
theorem descend_concat (t : Tree) (last : Option FileStat) (dirs : List Path) (p : Path) :
    t.descend last (dirs ++ [p]) =
      match dirs.forM (t.checkDirectory {}) with
      | .ok _ =>
        match t.find? p with
        | some n => some n.stat
        | none => t.descend last dirs
      | .error f => if f.isNotFound then t.descend last dirs else none := by
  -- The node that the way has come to is another one at each step.
  induction dirs generalizing last with
  | nil => cases hp : t.find? p <;> simp [descend, hp, List.forM, pure, Except.pure]
  | cons dir below ih =>
    rw [List.cons_append, descend, List.forM, checkDirectory_root]
    cases node : t.find? dir with
    | none => simp [descend, node, bind, Except.bind, Fault.isNotFound]
    | some n =>
      cases isDir : n.stat.isDir with
      | false =>
        have file : (Fault.os .notDirectory).isNotFound = false := rfl
        simp [isDir, bind, Except.bind, file]
      | true => simpa [descend, node, isDir, bind, Except.bind] using ih (some n.stat)

/-- The looks with user id 0, from the path upwards, end at the node that governs it. -/
theorem nearest_ancestors (statFailures : t.statFailures = []) (free : t.stuck = false) (p : Path) :
    t.nearest p.ancestors = t.governing p := by
  have look (p : Path) : t.stat {} p = (t.reach {} p).map (·.stat) :=
    stat_eq_reach statFailures free {} p
  induction p using Path.ancestors.induct with
  | case1 p ih =>
    -- Looking on above a path is looking at its parent, where the way down ends one step earlier.
    have further : t.nearest p.ancestors.tail = t.descend none p.above := by
      cases hp : p.parent? with
      | none =>
        rw [Path.above, Path.ancestors_of_no_parent hp]
        rfl
      | some above =>
        rw [Path.above_of_parent hp, Path.ancestors_of_parent hp]
        exact ih above hp
    rw [Path.ancestors_eq_cons, nearest, further, look, governing, descend_concat, reach, checkSearch]
    cases p.above.forM (t.checkDirectory {}) with
    | error f => rfl
    | ok _ => cases t.find? p <;> rfl

theorem perform_stuck (statFailures : t.statFailures = []) (stuck : t.stuck = true) :
    (t.perform who r).1 = .finished (.error .inputOutput) ∨
      (t.perform who r).1 = .finished (.error .notImplemented) := by
  have locked : t.unlocked = .error (.os .inputOutput) := by simp [unlocked, stuck, refuse]
  cases r with
  | rmdir _ | rename _ _ | truncate _ _ | chmod _ _ | read _ _ _ => exact .inr rfl
  | stat p =>
    rw [perform, stat, statFailures, locked]
    exact .inl rfl
  | mkdir p mode | create p mode =>
    rw [perform, make, locked]
    exact .inl rfl
  | unlink p =>
    rw [perform, unlink, locked]
    exact .inl rfl
  | readDir p =>
    rw [perform, readDir, locked]
    exact .inl rfl
  | write p offset data =>
    rw [perform, write, writable, locked]
    exact .inl rfl

/-- A tree that is stuck denies nobody: it fails otherwise. -/
theorem free_of_denied (statFailures : t.statFailures = [])
    (denied : (t.perform who r).1 = .finished .denied) : t.stuck = false := by
  cases stuck : t.stuck with
  | false => rfl
  | true =>
    rcases perform_stuck statFailures stuck with other | other <;>
      exact absurd (other.symm.trans denied) (by decide)

theorem userTurn_nearest (statFailures : t.statFailures = []) (retries : Bool) (i : Identity)
    (r : Request) : t.userTurn retries i (t.nearest r.path.ancestors) r =
      t.userTurn retries i (t.governing r.path) r := by
  by_cases denied : (t.perform i.ids r).1 = .finished .denied
  · rw [nearest_ancestors statFailures (free_of_denied statFailures denied)]
  · rw [userTurn_of_not_denied denied, userTurn_of_not_denied denied]

theorem perform_statFailures (t : Tree) (who : Ids) (r : Request) :
    (t.perform who r).2.statFailures = t.statFailures := by
  rcases performed : t.perform who r with ⟨y | reason, next⟩
  · exact (perform_finished performed).sameBut.statFailures
  · -- Only a write crashes, and all that it does then is to leave the tree stuck.
    cases r with
    | write p offset data =>
      rw [perform, write] at performed
      cases hn : t.writable who p with
      | error f => simp [hn] at performed
      | ok n =>
        rw [hn] at performed
        cases hc : writeCrash? (offset.toNat + data.length) with
        | none => simp [hc] at performed
        | some reason =>
          simp only [hc, Prod.mk.injEq] at performed
          rw [← performed.2]
    | mkdir p mode | create p mode | unlink p =>
      simp only [perform, settle] at performed
      split at performed <;> simp at performed
    | stat _ | readDir _ | rmdir _ | rename _ _ | truncate _ _ | chmod _ _ | read _ _ _ =>
      simp [perform] at performed

theorem take_statFailures (t : Tree) (turn : Turn) (r : Request) :
    (t.take turn r).2.statFailures = t.statFailures := by
  have performed := t.perform_statFailures turn.who r
  rcases taken : t.take turn r with ⟨y | reason, next⟩
  · exact (take_finished taken).1.sameBut.statFailures
  · unfold take at taken
    split at taken
    · simp at taken
    next crashed =>
      rw [crashed] at performed
      rw [← (Prod.mk.inj taken).2]
      exact performed

end Tree

namespace Gateway

variable {t next : Tree} {site : Site} {base : Ids} {governs : Tree → Path → Option FileStat}

/-- Serves a request on a tree. It depends on nothing but the tree, the users of a site and the
daemon's own ids; `governs` finds the node that governs a path. -/
def serveOn (g : Gateway) (site : Site) (base : Ids) (governs : Tree → Path → Option FileStat)
    (t : Tree) (e : Option Envelope) (request : Request) : Outcome Response × Tree :=
  let r := g.adjust request
  match g.turn? site base t (governs t r.path) e r with
  | some turn => t.take turn r
  | none => (.finished .denied, t)

def serveAllOn (g : Gateway) (site : Site) (base : Ids) (governs : Tree → Path → Option FileStat) :
    Tree → List (Option Envelope × Request) → List (Outcome Response) × Tree
  | t, [] => ([], t)
  | t, (e, r) :: rest =>
    let (o, next) := g.serveOn site base governs t e r
    let (os, last) := g.serveAllOn site base governs next rest
    (o :: os, last)

theorem serveOn_statFailures (g : Gateway) (site : Site) (base : Ids)
    (governs : Tree → Path → Option FileStat) (t : Tree) (e : Option Envelope) (r : Request) :
    (g.serveOn site base governs t e r).2.statFailures = t.statFailures := by
  unfold serveOn
  dsimp only
  split
  · exact t.take_statFailures _ _
  · rfl

/-- The daemon's further groups have no say. -/
theorem serveOn_groups (g : Gateway) (groups : List UInt32) (e : Option Envelope) (r : Request) :
    g.serveOn site { base with groups } governs t e r = g.serveOn site base governs t e r := by
  have own (who : Ids) : t.take ⟨{ who with groups }, none⟩ (g.adjust r) =
      t.take ⟨who, none⟩ (g.adjust r) := by
    rw [Tree.take_of_not_handBack, Tree.take_of_not_handBack, Tree.perform_groups]
  unfold serveOn turn? ownIds
  rcases e with _ | e
  · dsimp only
    split
    · exact own { base with fsuid := 0 }
    · exact own base
  · dsimp only
    cases e.principal with
    | error refusal => rfl
    | ok who =>
      cases who with
      | anonymous => exact own base
      | user user => rfl

theorem serveOn_nearest (statFailures : t.statFailures = []) (g : Gateway) (e : Option Envelope)
    (r : Request) : g.serveOn site base (fun t p => t.nearest p.ancestors) t e r =
      g.serveOn site base Tree.governing t e r := by
  have same : g.turn? site base t (t.nearest (g.adjust r).path.ancestors) e (g.adjust r) =
      g.turn? site base t (t.governing (g.adjust r).path) e (g.adjust r) := by
    unfold turn?
    simp only [Tree.userTurn_nearest statFailures]
  simp only [serveOn, same]

variable {σ : Type} {m : Program.Machine σ} {v : View σ} {s : σ} {calls : List (Moment σ)}

/-- What nothing hinders is served as the reference serves it. -/
theorem serveOn_of_unhindered {g : Gateway} {e : Option Envelope} {r : Request}
    {o : Outcome Response} (served : ServedOn m v site g e (g.adjust r) t s calls o next)
    (unhindered : ¬ Hindered m v s calls) :
    (o, next) = g.serveOn site (v.standing s).ids (fun t p => t.nearest p.ancestors) t e r := by
  unfold serveOn
  dsimp only
  cases served with
  | refused why =>
    rcases why with hindered | ⟨rfl, never⟩
    · exact absurd hindered unhindered
    · rw [never]
      rfl
  | took chosen nearest called taken =>
    rcases nearest with rfl | ⟨-, hindered⟩
    · rw [chosen]
      exact taken.symm
    · exact absurd hindered unhindered

end Gateway

end Impersonation
