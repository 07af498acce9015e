import Impersonation.Proofs.Membership
import Impersonation.Proofs.Once

namespace Impersonation

namespace Mode

theorem or_and (a b mask : UInt32) : (a ||| b) &&& mask = a &&& mask ||| b &&& mask :=
  UInt32.toBitVec_inj.mp (BitVec.and_or_distrib_right ..)

theorem permissions_and_kindMask (mode : UInt32) : mode &&& permissions &&& kindMask = 0 := by
  rw [UInt32.and_assoc, show permissions &&& kindMask = 0 from rfl, UInt32.and_zero]

theorem permissions_and_permissions (mode : UInt32) :
    mode &&& permissions &&& permissions = mode &&& permissions := by
  rw [UInt32.and_assoc, UInt32.and_self]

end Mode

def Request.creation? : Request → Option (UInt32 × UInt32)
  | .mkdir _ mode => some (Mode.directory, mode)
  | .create _ mode => some (Mode.regular, mode)
  | _ => none

theorem Request.kind_of_creation? {r : Request} {kind mode : UInt32}
    (h : r.creation? = some (kind, mode)) : kind = Mode.directory ∨ kind = Mode.regular := by
  cases r with
  | mkdir p m =>
    cases h
    exact .inl rfl
  | create p m =>
    cases h
    exact .inr rfl
  | _ => simp [creation?] at h

theorem Request.createsNode_of_creation? {r : Request} {kind mode : UInt32}
    (h : r.creation? = some (kind, mode)) : r.createsNode := by
  cases r with
  | mkdir _ _ | create _ _ => rfl
  | _ => simp [creation?] at h

namespace Tree

variable {t next : Tree} {who : Ids} {p above : Path} {r : Request} {kind mode : UInt32}
  {holder : Node}

theorem newNode_uid (who : Ids) (holder : FileStat) (kind mode : UInt32) :
    (newNode who holder kind mode).stat.uid = who.fsuid := by
  unfold newNode
  dsimp only
  split <;> rfl

theorem newNode_gid (who : Ids) (holder : FileStat) (kind mode : UInt32) :
    (newNode who holder kind mode).stat.gid =
      if holder.isSetgid then holder.gid else who.fsgid := by
  unfold newNode
  dsimp only
  split <;> rfl

theorem newNode_mode (who : Ids) (holder : FileStat) (kind mode : UInt32) :
    (newNode who holder kind mode).stat.mode = kind ||| (mode &&& Mode.permissions) |||
      (if kind = Mode.directory ∧ holder.isSetgid then Mode.setgid else 0) := by
  unfold newNode
  dsimp only
  by_cases sticky : holder.isSetgid
  · by_cases dir : kind = Mode.directory
    · simp [sticky, dir, Node.ofStat]
    · simp [sticky, dir, Node.ofStat]
  · simp [sticky, Node.ofStat]

/-- The bits of a new node: its kind, the permissions that were asked for, and the set-group-id bit
for a directory in a set-group-id directory. -/
theorem newNode_bits (who : Ids) (holder : FileStat) (mode : UInt32)
    (hkind : kind = Mode.directory ∨ kind = Mode.regular) :
    (newNode who holder kind mode).stat.mode &&& Mode.kindMask = kind ∧
      (newNode who holder kind mode).stat.mode &&& Mode.permissions =
        mode &&& Mode.permissions |||
          (if kind = Mode.directory ∧ holder.isSetgid then Mode.setgid else 0) := by
  have own : kind &&& Mode.kindMask = kind ∧ kind &&& Mode.permissions = 0 := by
    rcases hkind with rfl | rfl <;> exact ⟨rfl, rfl⟩
  have handed (c : Prop) [Decidable c] :
      (if c then Mode.setgid else 0) &&& Mode.kindMask = 0 ∧
        (if c then Mode.setgid else 0) &&& Mode.permissions = if c then Mode.setgid else 0 := by
    split <;> exact ⟨rfl, rfl⟩
  rw [newNode_mode]
  simp only [Mode.or_and, Mode.permissions_and_kindMask, Mode.permissions_and_permissions, own,
    handed, UInt32.or_zero, UInt32.zero_or, and_self]

theorem perform_creation (who : Ids) (creates : r.creation? = some (kind, mode)) :
    t.perform who r = t.settle (t.make who r.path kind mode) := by
  cases r with
  | mkdir _ _ | create _ _ =>
    cases creates
    rfl
  | _ => simp [Request.creation?] at creates

theorem stat_eq_reach (statFailures : t.statFailures = []) (free : t.stuck = false) (who : Ids)
    (p : Path) : t.stat who p = (t.reach who p).map (·.stat) := by
  have unlocked : t.unlocked = .ok () := by simp [unlocked, free]
  rw [stat, statFailures, unlocked]
  rfl

theorem Makes.apart (makes : Makes t who p kind mode above holder next) :
    ∀ a ∈ p.above, ¬ p.same a := by
  intro a ha same
  obtain ⟨n, node, -⟩ := passable_of_checkSearch makes.reached a ha
  have absent := makes.absent
  rw [find?_congr same, node] at absent
  cases absent

/-- Where a node can be made the directory that is to hold it is the nearest existing node. -/
theorem Makes.nearest_eq (makes : Makes t who p kind mode above holder next)
    (statFailures : t.statFailures = []) : t.nearest p.ancestors = some holder.stat := by
  have passable := passable_of_checkSearch makes.reached
  have passable_above : t.Passable above := fun a ha =>
    passable a (by rw [Path.above_of_parent makes.parent]; exact List.mem_append_left _ ha)
  have missing : t.stat {} p = .error (.os .noEntry) := by
    rw [stat_eq_reach statFailures makes.stuck, reach, passable.checkSearch_root, makes.absent]
    rfl
  have seen : t.stat {} above = .ok holder.stat := by
    rw [stat_eq_reach statFailures makes.stuck, reach, passable_above.checkSearch_root, makes.found]
    rfl
  rw [Path.ancestors_of_parent makes.parent, nearest, missing, Path.ancestors_eq_cons above, nearest,
    seen]
  rfl

theorem chown_of_reach {n : Node} {uid gid : Option UInt32} (free : t.stuck = false)
    (reached : t.reach who p = .ok n) (may : mayChown who n.stat uid gid) :
    let stat := { n.stat with uid := uid.getD n.stat.uid, gid := gid.getD n.stat.gid }
    t.chown who p uid gid = .ok { t with nodes := t.nodes.put p { n with stat } } := by
  intro stat
  have unlocked : t.unlocked = .ok () := by simp [unlocked, free]
  rw [chown, unlocked, reached]
  simp [bind, Except.bind, pure, Except.pure, may, stat]

/-- The new node of a user who makes it with one of the further groups, once it was handed back, is
the one that the primary group would have given. -/
theorem Makes.handedBack (makes : Makes t who p kind mode above holder next) {i : Identity}
    (who_eq : who = (i.withGid holder.stat.gid).ids) (primary : i.gid ∈ i.groups) :
    (next.handedBack ⟨who, if holder.stat.isSetgid then none else some i.gid⟩ p).find? p =
      some (newNode i.ids holder.stat kind mode) := by
  have made : next.find? p = some (newNode who holder.stat kind mode) := by
    rw [makes.next_eq, find?_put]
  subst who_eq
  cases sticky : holder.stat.isSetgid with
  | true =>
    change next.find? p = _
    rw [made]
    simp [newNode, sticky, Identity.ids, Identity.withGid]
  | false =>
    have free : next.stuck = false := by rw [makes.next_eq, makes.stuck]
    have same : SameBut p t next := makes.next_eq ▸ .put p _ t
    have reached : next.reach (i.withGid holder.stat.gid).ids p =
        .ok (newNode (i.withGid holder.stat.gid).ids holder.stat kind mode) := by
      rw [reach, same.checkSearch_eq makes.apart, makes.reached, made]
      rfl
    have may : mayChown (i.withGid holder.stat.gid).ids
        (newNode (i.withGid holder.stat.gid).ids holder.stat kind mode).stat none (some i.gid) := by
      simp [mayChown, newNode_uid, Identity.ids, Identity.withGid, primary]
    have given : newNode i.ids holder.stat kind mode =
        let node := newNode (i.withGid holder.stat.gid).ids holder.stat kind mode
        { node with stat := { node.stat with gid := i.gid } } := by
      simp [newNode, sticky, Node.ofStat, Identity.ids, Identity.withGid]
    simp [Tree.handedBack, chown_of_reach free reached may, leave, find?_put, given]

/-- What a user's turn comes to that has made a node: a directory holds the path, the user got to it
with the primary group or with the directory's own, and the node is the one that the primary group
gives. -/
structure Created (t : Tree) (i : Identity) (p : Path) (kind mode : UInt32) (above : Path)
    (holder : Node) (next : Tree) : Prop where
  made : (∃ made, Makes t i.ids p kind mode above holder made) ∨
    holder.stat.gid ∈ i.groups ∧ holder.stat.gid ≠ i.gid ∧
      ∃ made, Makes t (i.withGid holder.stat.gid).ids p kind mode above holder made
  node : next.find? p = some (newNode i.ids holder.stat kind mode)
  sameBut : SameBut p t next

theorem take_creation {retries : Bool} {i : Identity} {governs : Option FileStat}
    (creates : r.creation? = some (kind, mode)) (statFailures : t.statFailures = [])
    (primary : i.gid ∈ i.groups)
    (nearest : governs = t.nearest r.path.ancestors ∨ governs = none)
    (taken : t.take (t.userTurn retries i governs r) r = (.finished .ok, next)) :
    ∃ above holder, Created t i r.path kind mode above holder next := by
  obtain ⟨⟨-, sameBut⟩, made, performed, -⟩ := take_finished taken
  rw [take_of_finished performed] at taken
  have creates' : ((Response.isOk .ok) && r.createsNode) = true := by
    rw [Request.createsNode_of_creation? creates]
    rfl
  rw [if_pos creates'] at taken
  obtain rfl := (Prod.mk.inj taken).2
  rw [perform_creation _ creates] at performed
  have performed : t.make (t.userTurn retries i governs r).who r.path kind mode = .ok made := by
    cases hmake : t.make (t.userTurn retries i governs r).who r.path kind mode with
    | error f => simp [hmake, settle, Response.ofFault] at performed
    | ok next =>
      rw [hmake] at performed
      obtain ⟨-, rfl⟩ := Prod.mk.inj performed
      rfl
  obtain ⟨above, holder, makes⟩ := make_eq_ok performed
  refine ⟨above, holder, ?_⟩
  rcases t.userTurn_cases retries i governs r with own | further
  · rw [own] at makes sameBut ⊢
    refine ⟨.inl ⟨_, makes⟩, ?_, sameBut⟩
    change made.find? r.path = _
    rw [makes.next_eq, find?_put]
  · obtain ⟨s, governs_eq, member, other, turn_eq⟩ := Identity.furtherTurn?_eq_some further
    -- The node that governs the path is the directory in which the node was made.
    obtain rfl : s = holder.stat := by
      rw [makes.nearest_eq statFailures, governs_eq] at nearest
      simpa using nearest
    rw [turn_eq] at makes sameBut ⊢
    exact ⟨.inr ⟨member, other, _, makes⟩, makes.handedBack rfl primary, sameBut⟩

end Tree

theorem mem_ledBy (primary : UInt32) (gids : List UInt32) : primary ∈ ledBy primary gids :=
  List.mem_cons_self

/-- Whichever directory a site has, the primary group of a user is among those listed. -/
theorem Site.primary_mem {site : Site} {user : String} {primary : UInt32} {groups : List UInt32}
    (h : site.listGroups user primary = .ok groups) : primary ∈ groups := by
  unfold listGroups Station.listGroups at h
  dsimp only at h
  split at h
  next => cases h
  next =>
    split at h
    next d =>
      obtain rfl := Except.ok.inj h
      unfold Directory.groupsOf
      split
      · exact mem_ledBy ..
      · exact List.mem_singleton_self primary
    next host _ =>
      dsimp only at h
      by_cases plain : HostDatabase.isPlain user
      · rw [host.groupsOf_plain plain] at h
        obtain rfl := Except.ok.inj h
        exact mem_ledBy ..
      · rw [host.groupsOf_not_plain plain] at h
        cases h

theorem ServedOn.created {σ : Type} {m : Program.Machine σ} {v : View σ} {site : Site} {g : Gateway}
    {envelope : Envelope} {user : String} {r : Request} {t next : Tree} {s : σ}
    {calls : List (Moment σ)} {kind mode : UInt32}
    (served : ServedOn m v site g (some envelope) r t s calls (.finished .ok) next)
    (statFailures : t.statFailures = []) (named : envelope.principal = .ok (.user user))
    (creates : r.creation? = some (kind, mode)) :
    ∃ i above holder, site.identity? g.config user = some i ∧
      Tree.Created t i r.path kind mode above holder next := by
  cases served with
  | @took governs turn chosen nearest called _ _ taken =>
    unfold Gateway.turn? at chosen
    simp only [named, Option.map_eq_some_iff] at chosen
    obtain ⟨i, known, rfl⟩ := chosen
    obtain ⟨-, listed⟩ := Site.identity?_listed known
    obtain ⟨above, holder, created⟩ := Tree.take_creation creates statFailures
      (Site.primary_mem listed) (nearest.imp id (·.1)) taken
    exact ⟨i, above, holder, known, created⟩

namespace Process

variable {p : Process} {g : Gateway} {t : Tree} {errand : Errand} {envelope : Envelope}
  {user : String} {entry : UserEntry} {kind mode : UInt32}

theorem serve_created (simulated : p.site.credentials = .simulated)
    (storage : p.site.storage = .tree t) (statFailures : t.statFailures = [])
    (sent : errand.envelope = some envelope) (named : envelope.principal = .ok (.user user))
    (found : p.site.findUser user = .ok (some entry))
    (creates : (g.adjust errand.request).creation? = some (kind, mode))
    (answered : (p.serve g errand).1.outcome = .finished .ok) :
    ∃ i above holder next, p.site.identity? g.config user = some i ∧ entry = ⟨i.uid, i.gid⟩ ∧
      (p.serve g errand).2.site.storage = .tree next ∧
      Tree.Created t i errand.request.path kind mode above holder next := by
  obtain ⟨next, after, served⟩ := p.serve_onTree simulated storage g errand
  rw [answered, sent] at served
  obtain ⟨i, above, holder, known, created⟩ := served.created statFailures named creates
  obtain ⟨found', -⟩ := Site.identity?_listed known
  rw [found] at found'
  rw [g.adjust_path] at created
  exact ⟨i, above, holder, next, known, Option.some.inj (Except.ok.inj found'), after, created⟩

end Process

end Impersonation
