import Impersonation.Proofs.Ordered
import Impersonation.Proofs.Turn

namespace Impersonation.Tree

inductive Operation where
  | request (r : Request)
  | setOwner (p : Path) (uid gid : Option UInt32)

/-- The tree after an operation of a user, whatever that came to. -/
def after (t : Tree) (who : Ids) : Operation → Tree
  | .request r => (t.perform who r).2
  | .setOwner p uid gid => t.leave (t.chown who p uid gid)

def afterAll (t : Tree) (ops : List (Ids × Operation)) : Tree :=
  ops.foldl (fun t act => t.after act.1 act.2) t

/-- The trees that are built before anything is done to them. -/
inductive Planted : Tree → Prop where
  | bare : Planted {}
  | dir {t : Tree} (h : Planted t) (p : Path) (uid gid mode : UInt32) :
    Planted (t.dir p uid gid mode)
  | file {t : Tree} (h : Planted t) (p : Path) (uid gid mode : UInt32) :
    Planted (t.file p uid gid mode)
  | failStat {t : Tree} (h : Planted t) (p : Path) (e : Errno) : Planted (t.failStat p e)

/-- Every node but the root has a parent that is a directory. -/
def Rooted (t : Tree) : Prop :=
  ∀ entry ∈ t.nodes, ¬ entry.1.same .root →
    ∃ above holder, entry.1.parent? = some above ∧ t.find? above = some holder ∧ holder.stat.isDir

def Measured (t : Tree) : Prop :=
  ∀ entry ∈ t.nodes, entry.2.stat.size = entry.2.data.length

/-- What is a directory, a regular file or another kind of node in one tree is not another kind in
the next one. -/
def KeepsKinds (t next : Tree) : Prop :=
  ∀ p n m, t.find? p = some n → next.find? p = some m →
    m.stat.mode &&& Mode.kindMask = n.stat.mode &&& Mode.kindMask

/-- Whether an operation takes away the parent of another node. -/
def orphans (t : Tree) (who : Ids) : Operation → Bool
  | .request (.unlink p) => (t.unlink who p).isOk &&
    t.nodes.any fun entry => !entry.1.same .root && !entry.1.same p && entry.1.parent?.any p.same
  | _ => false

def spares (t : Tree) : List (Ids × Operation) → Bool
  | [] => true
  | (who, op) :: acts => !t.orphans who op && (t.after who op).spares acts

/-- What an operation may do to the nodes of a tree. -/
inductive Changes (t : Tree) (who : Ids) (op : Operation) (next : Tree) : Prop where
  | kept (nodes : next.nodes = t.nodes)
  | made {p above : Path} {holder n : Node} (parent : p.parent? = some above)
      (found : t.find? above = some holder) (isDir : holder.stat.isDir) (absent : t.find? p = none)
      (empty : n.stat.size = n.data.length) (nodes : next.nodes = t.nodes.put p n)
  | replaced {p : Path} {n m : Node} (found : t.find? p = some n) (mode : m.stat.mode = n.stat.mode)
      (size : n.stat.size = n.data.length → m.stat.size = m.data.length)
      (nodes : next.nodes = t.nodes.put p m)
  | erased {p : Path} (unlinks : op = .request (.unlink p)) (unlinked : t.unlink who p = .ok next)
      (nodes : next.nodes = t.nodes.erase p)

variable {t next : Tree} {who : Ids} {p : Path} {n : Node} {op : Operation}

theorem reach_eq_ok (h : t.reach who p = .ok n) : t.find? p = some n := by
  obtain ⟨_, -, h⟩ := bind_eq_ok h
  split at h
  next => cases h
  next found =>
    cases h
    exact found

theorem writable_eq_ok (h : t.writable who p = .ok n) :
    t.stuck = false ∧ t.reach who p = .ok n ∧ n.stat.allows who .write := by
  obtain ⟨_, free, h⟩ := bind_eq_ok h
  obtain ⟨n, reached, h⟩ := bind_eq_ok h
  split at h
  next may =>
    cases h
    exact ⟨of_unlocked free, reached, may⟩
  next => cases h

theorem newNode_empty (who : Ids) (holder : FileStat) (kind mode : UInt32) :
    (newNode who holder kind mode).stat.size = (newNode who holder kind mode).data.length := by
  unfold newNode
  dsimp only
  split <;> rfl

theorem make_changes {kind mode : UInt32} :
    t.Changes who op (t.settle (t.make who p kind mode)).2 := by
  cases made : t.make who p kind mode with
  | error f => exact .kept rfl
  | ok next =>
    obtain ⟨above, holder, makes⟩ := make_eq_ok made
    have mem : above ∈ p.above := by
      rw [Path.above_of_parent makes.parent]
      exact List.mem_append_right _ List.mem_cons_self
    obtain ⟨n, found, isDir⟩ := passable_of_checkSearch makes.reached above mem
    obtain rfl : n = holder := Option.some.inj (found.symm.trans makes.found)
    have nodes := congrArg Tree.nodes makes.next_eq
    exact .made makes.parent found isDir makes.absent (newNode_empty who n.stat kind mode) nodes

theorem unlink_nodes (h : t.unlink who p = .ok next) : next.nodes = t.nodes.erase p := by
  obtain ⟨_, -, h⟩ := bind_eq_ok h
  obtain ⟨_, -, h⟩ := bind_eq_ok h
  split at h
  next => cases h
  next =>
    cases h
    rfl

theorem unlink_changes : t.Changes who (.request (.unlink p)) (t.settle (t.unlink who p)).2 := by
  cases unlinked : t.unlink who p with
  | error f => exact .kept rfl
  | ok next => exact .erased rfl unlinked (unlink_nodes unlinked)

theorem chown_changes {uid gid : Option UInt32} :
    t.Changes who op (t.leave (t.chown who p uid gid)) := by
  cases given : t.chown who p uid gid with
  | error f => exact .kept rfl
  | ok next =>
    obtain ⟨_, -, h⟩ := bind_eq_ok given
    obtain ⟨n, reached, h⟩ := bind_eq_ok h
    split at h
    next => cases h
    next =>
      cases h
      refine .replaced (reach_eq_ok reached) ?_ ?_ rfl
      · rfl
      · exact id

theorem write_changes {offset : UInt64} {data : Bytes} :
    t.Changes who op (t.perform who (.write p offset data)).2 := by
  simp only [perform, write]
  cases found : t.writable who p with
  | error f => exact .kept rfl
  | ok n =>
    obtain ⟨-, reached, -⟩ := writable_eq_ok found
    cases writeCrash? (offset.toNat + data.length) with
    | some reason => exact .kept rfl
    | none =>
      refine .replaced (reach_eq_ok reached) ?_ ?_ rfl
      · rfl
      · exact fun _ => rfl

theorem after_changes (t : Tree) (who : Ids) (op : Operation) :
    t.Changes who op (t.after who op) := by
  cases op with
  | setOwner p uid gid => exact chown_changes
  | request r =>
    cases r with
    | mkdir p mode | create p mode => exact make_changes
    | unlink p => exact unlink_changes
    | write p offset data => exact write_changes
    | _ => exact .kept rfl

theorem Changes.ordered (h : t.Changes who op next) (ordered : t.nodes.Ordered) :
    next.nodes.Ordered := by
  cases h with
  | kept nodes => exact nodes ▸ ordered
  | made _ _ _ _ _ nodes | replaced _ _ _ nodes => exact nodes ▸ ordered.put _ _
  | erased _ _ nodes => exact nodes ▸ ordered.erase _

theorem Changes.measured (h : t.Changes who op next) (measured : t.Measured) : next.Measured := by
  intro entry mem
  cases h with
  | kept nodes => exact measured entry (nodes ▸ mem)
  | made _ _ _ _ empty nodes =>
    rcases Nodes.mem_put (nodes ▸ mem) with mem | ⟨-, rfl⟩
    · exact measured entry mem
    · exact empty
  | replaced found _ size nodes =>
    rcases Nodes.mem_put (nodes ▸ mem) with mem | ⟨-, rfl⟩
    · exact measured entry mem
    · obtain ⟨key, -, mem⟩ := Nodes.mem_of_find? found
      exact size (measured _ mem)
  | erased _ _ nodes => exact measured entry (List.mem_filter.mp (nodes ▸ mem) |>.1)

theorem Changes.keepsKinds (h : t.Changes who op next) : t.KeepsKinds next := by
  intro q n m before later
  cases h with
  | kept nodes =>
    rw [find?, nodes] at later
    rw [Option.some.inj (later.symm.trans before)]
  | made parent found isDir absent empty nodes =>
    rw [find?, nodes, Nodes.find?_put] at later
    split at later
    next same =>
      rw [← find?_congr same, absent] at before
      cases before
    next => rw [Option.some.inj (later.symm.trans before)]
  | replaced found mode size nodes =>
    rw [find?, nodes, Nodes.find?_put] at later
    split at later
    next same =>
      rw [← find?_congr same, found] at before
      cases before
      cases later
      rw [mode]
    next => rw [Option.some.inj (later.symm.trans before)]
  | erased _ _ nodes =>
    rw [find?, nodes, Nodes.find?_erase] at later
    split at later
    next => cases later
    next => rw [Option.some.inj (later.symm.trans before)]

theorem orphans_iff : t.orphans who (.request (.unlink p)) ↔
    (∃ next, t.unlink who p = .ok next) ∧
      ∃ entry ∈ t.nodes, ¬ entry.1.same .root ∧ ¬ entry.1.same p ∧
      ∃ above, entry.1.parent? = some above ∧ p.same above := by
  cases hu : t.unlink who p with
  | error f => simp [orphans, hu, Except.isOk, Except.toBool]
  | ok next => simp [orphans, hu, Except.isOk, Except.toBool, Option.any_eq_true, and_assoc]

/-- Every node keeps its parent, unless that is taken away. -/
theorem Changes.rooted (h : t.Changes who op next) (ordered : t.nodes.Ordered) (rooted : t.Rooted)
    (spared : t.orphans who op = false) : next.Rooted := by
  intro entry mem other
  cases h with
  | kept nodes =>
    rw [nodes] at mem
    obtain ⟨above, holder, parent, found, isDir⟩ := rooted entry mem other
    exact ⟨above, holder, parent, by rwa [find?, nodes], isDir⟩
  | @made p above holder n parent found isDir absent empty nodes =>
    -- A path that had no node so far is the parent of none.
    have later {q : Path} {m : Node} (hq : t.find? q = some m) : next.find? q = some m := by
      have apart : ¬ p.same q := by
        intro same
        rw [← find?_congr same, absent] at hq
        cases hq
      rwa [find?, nodes, Nodes.find?_put, if_neg apart]
    rw [nodes] at mem
    rcases Nodes.mem_put_of_absent absent mem with mem | rfl
    · obtain ⟨above, holder, parent, found, isDir⟩ := rooted entry mem other
      exact ⟨above, holder, parent, later found, isDir⟩
    · exact ⟨above, holder, parent, later found, isDir⟩
  | @replaced p n m found mode size nodes =>
    rw [nodes, ordered.put_eq_map found] at mem
    obtain ⟨old, there, rfl⟩ := List.mem_map.mp mem
    have key : (if old.1.same p then (old.1, m) else old).1 = old.1 := by split <;> rfl
    rw [key] at other ⊢
    obtain ⟨above, holder, parent, found', isDir⟩ := rooted old there other
    by_cases same : p.same above
    · have eq : n = holder := by
        rw [← find?_congr same] at found'
        exact Option.some.inj (found.symm.trans found')
      refine ⟨above, m, parent, ?_, ?_⟩
      · rw [find?, nodes, Nodes.find?_put, if_pos same]
      · rwa [FileStat.isDir, mode, eq]
    · refine ⟨above, holder, parent, ?_, isDir⟩
      rwa [find?, nodes, Nodes.find?_put, if_neg same]
  | @erased p unlinks unlinked nodes =>
    subst unlinks
    obtain ⟨mem, apart⟩ := List.mem_filter.mp (nodes ▸ mem)
    obtain ⟨above, holder, parent, found, isDir⟩ := rooted entry mem other
    have kept : ¬ p.same above := by
      intro same
      have lost := orphans_iff.mpr
        ⟨⟨next, unlinked⟩, entry, mem, other, by simpa using apart, above, parent, same⟩
      rw [spared] at lost
      cases lost
    refine ⟨above, holder, parent, ?_, isDir⟩
    rwa [find?, nodes, Nodes.find?_erase, if_neg kept]

theorem not_rooted_of_orphans (lost : t.orphans who op) : ¬ (t.after who op).Rooted := by
  intro rooted
  unfold orphans at lost
  split at lost
  next p =>
    obtain ⟨⟨next, unlinked⟩, entry, mem, other, apart, above, parent, same⟩ := orphans_iff.mp lost
    have nodes := unlink_nodes unlinked
    have later : t.after who (.request (.unlink p)) = next := by
      rw [after, perform, unlinked, settle]
    rw [later] at rooted
    have stays : entry ∈ next.nodes := by
      rw [nodes]
      exact List.mem_filter.mpr ⟨mem, by simpa using apart⟩
    obtain ⟨above', holder, parent', found, -⟩ := rooted entry stays other
    obtain rfl : above = above' := Option.some.inj (parent.symm.trans parent')
    rw [find?, nodes, Nodes.find?_erase, if_pos same] at found
    cases found
  next => cases lost

theorem rooted_after_iff (ordered : t.nodes.Ordered) (rooted : t.Rooted) (who : Ids)
    (op : Operation) : (t.after who op).Rooted ↔ t.orphans who op = false := by
  constructor
  · intro later
    cases lost : t.orphans who op with
    | false => rfl
    | true => exact absurd later (not_rooted_of_orphans lost)
  · exact (t.after_changes who op).rooted ordered rooted

theorem Planted.ordered (h : t.Planted) : t.nodes.Ordered := by
  induction h with
  | bare => exact List.Pairwise.nil
  | dir _ p uid gid mode ih | file _ p uid gid mode ih => exact ih.put p _
  | failStat _ _ _ ih => exact ih

theorem Planted.measured (h : t.Planted) : t.Measured := by
  induction h with
  | bare => exact fun entry mem => nomatch mem
  | dir _ p uid gid mode ih | file _ p uid gid mode ih =>
    intro entry mem
    rcases Nodes.mem_put mem with mem | ⟨-, eq⟩
    · exact ih entry mem
    · rw [eq]
      rfl
  | failStat _ _ _ ih => exact ih

variable {acts : List (Ids × Operation)}

theorem ordered_afterAll (ordered : t.nodes.Ordered) : (t.afterAll acts).nodes.Ordered := by
  induction acts generalizing t with
  | nil => exact ordered
  | cons act acts ih => exact ih ((t.after_changes act.1 act.2).ordered ordered)

theorem measured_afterAll (measured : t.Measured) : (t.afterAll acts).Measured := by
  induction acts generalizing t with
  | nil => exact measured
  | cons act acts ih => exact ih ((t.after_changes act.1 act.2).measured measured)

theorem rooted_afterAll (ordered : t.nodes.Ordered) (rooted : t.Rooted) (spared : t.spares acts) :
    (t.afterAll acts).Rooted := by
  induction acts generalizing t with
  | nil => exact rooted
  | cons act acts ih =>
    simp only [spares, Bool.and_eq_true, Bool.not_eq_true'] at spared
    obtain ⟨first, rest⟩ := spared
    have changes := t.after_changes act.1 act.2
    exact ih (changes.ordered ordered) (changes.rooted ordered rooted first) rest

/-- Whatever is done to a tree, the size of a node is the length of its contents and no operation
makes a node one of another kind. The nodes keep their parents as long as none is taken away from
below which there are nodes, and an operation that does so is the only one that leaves a node
without its parent. -/
theorem structure_kept (planted : t.Planted) (rooted : t.Rooted) (acts : List (Ids × Operation)) :
    let now := t.afterAll acts
    now.Measured ∧ (∀ who op, now.KeepsKinds (now.after who op)) ∧
      (t.spares acts → now.Rooted) ∧
      ∀ who op, now.Rooted → ((now.after who op).Rooted ↔ now.orphans who op = false) := by
  intro now
  have ordered : now.nodes.Ordered := ordered_afterAll planted.ordered
  refine ⟨measured_afterAll planted.measured, fun who op => ?_,
    rooted_afterAll planted.ordered rooted, fun who op => ?_⟩
  · exact (now.after_changes who op).keepsKinds
  · exact fun still => rooted_after_iff ordered still who op

def stocked : Tree :=
  ((Tree.dir {} .root 0 0 0o755).dir (.ofString "/data") 0 800 0o770).file
    (.ofString "/data/out") 0 0 0o644

theorem stocked_planted : stocked.Planted :=
  .file (.dir (.dir .bare _ _ _ _) _ _ _ _) _ _ _ _

theorem stocked_rooted : stocked.Rooted := by
  have nodes : stocked.nodes = [(.root, .ofStat (Mode.directory ||| 0o755) 0 0),
      (.ofString "/data", .ofStat (Mode.directory ||| 0o770) 0 800),
      (.ofString "/data/out", .ofStat (Mode.regular ||| 0o644) 0 0)] := by decide +kernel
  intro entry mem other
  rw [nodes] at mem
  simp only [List.mem_cons, List.not_mem_nil, or_false] at mem
  rcases mem with rfl | rfl | rfl
  · exact absurd (Path.same_refl _) other
  · exact ⟨.root, .ofStat (Mode.directory ||| 0o755) 0 0, by decide +kernel⟩
  · exact ⟨.ofString "/data", .ofStat (Mode.directory ||| 0o770) 0 800, by decide +kernel⟩

/-- A file is replaced by a directory of the same name, below a directory that stays. -/
theorem structure_kept_replaced :
    let acts := [({}, .request (.write (.ofString "/data/out") 2 [7])),
      ({}, .request (.unlink (.ofString "/data/out"))),
      (⟨1001, 800, []⟩, .request (.mkdir (.ofString "/data/out") 0o755))]
    stocked.Planted ∧ stocked.Rooted ∧ stocked.spares acts ∧
      (stocked.afterAll acts).nodes.length = 3 ∧ (stocked.afterAll acts).Measured ∧
      (stocked.afterAll acts).Rooted := by
  intro acts
  have spared : stocked.spares acts := by decide +kernel
  obtain ⟨measured, -, rooted, -⟩ := structure_kept stocked_planted stocked_rooted acts
  exact ⟨stocked_planted, stocked_rooted, spared, by decide +kernel, measured, rooted spared⟩

/-- A directory can be unlinked while there is a file in it. -/
theorem structure_lost_unlinked :
    let acts := [({}, .request (.unlink (.ofString "/data")))]
    stocked.Planted ∧ stocked.Rooted ∧ ¬ (stocked.afterAll acts).Rooted := by
  intro acts
  have lost : stocked.orphans {} (.request (.unlink (.ofString "/data"))) := by decide +kernel
  exact ⟨stocked_planted, stocked_rooted, not_rooted_of_orphans lost⟩

end Impersonation.Tree
