import Impersonation.Gateway
import Impersonation.Proofs.Barrier

namespace Impersonation

def Identity.ids (i : Identity) : Ids :=
  ⟨i.uid, i.gid, i.groups⟩

/-- How a request is carried out: as whom, and to which group a new node is handed back. -/
structure Turn where
  who : Ids
  handBack : Option UInt32 := none
deriving DecidableEq

/-- The turn of a user whose request was denied, by the node that governs its path: one of the user's
further groups opens the way, or the refusal stands. -/
def Identity.furtherTurn? (i : Identity) (governs : Option FileStat) : Option Turn :=
  match governs with
  | some s =>
    if s.gid ∈ i.groups ∧ s.gid ≠ i.gid then
      some ⟨(i.withGid s.gid).ids, if s.isSetgid then none else some i.gid⟩
    else none
  | none => none

theorem Identity.furtherTurn?_eq_some {i : Identity} {governs : Option FileStat} {turn : Turn}
    (h : i.furtherTurn? governs = some turn) :
    ∃ s, governs = some s ∧ s.gid ∈ i.groups ∧ s.gid ≠ i.gid ∧
      turn = ⟨(i.withGid s.gid).ids, if s.isSetgid then none else some i.gid⟩ := by
  unfold furtherTurn? at h
  split at h
  next s =>
    split at h
    next opens =>
      cases h
      exact ⟨s, rfl, opens.1, opens.2, rfl⟩
    next => cases h
  next => cases h

namespace Tree

/-- The tree that an operation leaves, whether it takes effect or fails. -/
def leave (t : Tree) : Except Fault Tree → Tree
  | .ok next => next
  | .error _ => t

/-- Gives a new node to the group that is to have it; whether that works has no say in the response. -/
def handedBack (t : Tree) (turn : Turn) (p : Path) : Tree :=
  match turn.handBack with
  | some gid => t.leave (t.chown turn.who p none (some gid))
  | none => t

/-- Carries out a request in a turn. -/
def take (t : Tree) (turn : Turn) (r : Request) : Outcome Response × Tree :=
  match t.perform turn.who r with
  | (.finished y, next) =>
    (.finished y, if y.isOk && r.createsNode then next.handedBack turn r.path else next)
  | (.crashed reason, next) => (.crashed reason, next)

/-- The first of the paths that exists, as user id 0 sees it. -/
def nearest (t : Tree) : List Path → Option FileStat
  | [] => none
  | p :: above =>
    match t.stat {} p with
    | .ok stat => some stat
    | .error f => if f.isNotFound then t.nearest above else none

/-- The turn of a user: with the primary group, unless that is denied and a further group is to be
tried. -/
def userTurn (t : Tree) (retries : Bool) (i : Identity) (governs : Option FileStat) (r : Request) :
    Turn :=
  if (t.perform i.ids r).1 = .finished .denied ∧ retries then
    (i.furtherTurn? governs).getD ⟨i.ids, none⟩
  else ⟨i.ids, none⟩

structure SameBut (p : Path) (t next : Tree) : Prop where
  elsewhere : ∀ q, ¬ p.same q → next.find? q = t.find? q
  statFailures : next.statFailures = t.statFailures
  stuck : next.stuck = t.stuck

variable {t next : Tree} {who : Ids} {p q : Path} {r : Request} {y : Response} {n : Node}

theorem SameBut.refl (p : Path) (t : Tree) : SameBut p t t :=
  ⟨fun _ _ => rfl, rfl, rfl⟩

theorem SameBut.trans {last : Tree} (h : SameBut p t next) (h' : SameBut p next last) :
    SameBut p t last :=
  ⟨fun q hq => (h'.elsewhere q hq).trans (h.elsewhere q hq),
    h'.statFailures.trans h.statFailures, h'.stuck.trans h.stuck⟩

theorem SameBut.put (p : Path) (n : Node) (t : Tree) :
    SameBut p t { t with nodes := t.nodes.put p n } :=
  ⟨fun q hq => by simp only [find?, Nodes.find?_put, if_neg hq], rfl, rfl⟩

theorem SameBut.erase (p : Path) (t : Tree) : SameBut p t { t with nodes := t.nodes.erase p } :=
  ⟨fun q hq => by simp only [find?, Nodes.find?_erase, if_neg hq], rfl, rfl⟩

theorem find?_put (t : Tree) (p : Path) (n : Node) :
    { t with nodes := t.nodes.put p n }.find? p = some n := by
  simp only [find?, Nodes.find?_put, Path.same_refl, if_true]

theorem find?_congr (h : p.same q) (t : Tree) : t.find? p = t.find? q :=
  Nodes.find?_congr h t.nodes

theorem SameBut.checkSearch_eq (h : SameBut p t next) (apart : ∀ a ∈ q.above, ¬ p.same a)
    (who : Ids) : next.checkSearch who q = t.checkSearch who q :=
  checkSearch_congr (fun a ha => h.elsewhere a (apart a ha)) who

theorem bind_eq_ok {α β : Type} {x : Except Fault α} {f : α → Except Fault β} {b : β}
    (h : x >>= f = .ok b) : ∃ a, x = .ok a ∧ f a = .ok b := by
  cases x with
  | error e => cases h
  | ok a => exact ⟨a, rfl, h⟩

theorem of_unlocked (h : t.unlocked = .ok ()) : t.stuck = false := by
  unfold unlocked refuse at h
  split at h
  next => cases h
  next free => simpa using free

/-- What it takes to make a node: a way to its path, a directory that the user may change, and no
such node so far. -/
structure Makes (t : Tree) (who : Ids) (p : Path) (kind mode : UInt32) (above : Path) (holder : Node)
    (next : Tree) : Prop where
  parent : p.parent? = some above
  reached : t.checkSearch who p = .ok ()
  found : t.find? above = some holder
  changes : holder.stat.allows who .change
  absent : t.find? p = none
  stuck : t.stuck = false
  next_eq : next = { t with nodes := t.nodes.put p (newNode who holder.stat kind mode) }

theorem holder_eq_ok (h : t.holder who p = .ok n) :
    t.checkSearch who p = .ok () ∧ n.stat.allows who .change ∧
      ∃ above, p.parent? = some above ∧ t.find? above = some n := by
  obtain ⟨_, reached, h⟩ := bind_eq_ok h
  split at h
  next => cases h
  next above parent =>
    split at h
    next => cases h
    next found =>
      split at h
      next changes =>
        cases h
        exact ⟨reached, changes, above, parent, found⟩
      next => cases h

theorem make_eq_ok {kind mode : UInt32} (h : t.make who p kind mode = .ok next) :
    ∃ above holder, Makes t who p kind mode above holder next := by
  obtain ⟨_, free, h⟩ := bind_eq_ok h
  obtain ⟨holder, held, h⟩ := bind_eq_ok h
  obtain ⟨reached, changes, above, parent, found⟩ := holder_eq_ok held
  split at h
  next => cases h
  next absent =>
    cases h
    exact ⟨above, holder, parent, reached, found, changes, by simpa using absent, of_unlocked free,
      rfl⟩

theorem chown_eq_ok {uid gid : Option UInt32} (h : t.chown who p uid gid = .ok next) :
    SameBut p t next := by
  obtain ⟨_, -, h⟩ := bind_eq_ok h
  obtain ⟨n, -, h⟩ := bind_eq_ok h
  split at h
  next => cases h
  next =>
    cases h
    exact .put p _ t

theorem unlink_eq_ok (h : t.unlink who p = .ok next) : SameBut p t next := by
  obtain ⟨_, -, h⟩ := bind_eq_ok h
  obtain ⟨_, -, h⟩ := bind_eq_ok h
  split at h
  next => cases h
  next =>
    cases h
    exact .erase p t

/-- An operation changes the tree at its own path only, and not at all if it fails. -/
structure OnceAt (p : Path) (t : Tree) (y : Response) (next : Tree) : Prop where
  failed : y.isOk = false → next = t
  sameBut : SameBut p t next

theorem OnceAt.same (p : Path) (t : Tree) (y : Response) : OnceAt p t y t :=
  ⟨fun _ => rfl, .refl p t⟩

theorem settle_onceAt {result : Except Fault Tree}
    (sameBut : ∀ changed, result = .ok changed → SameBut p t changed)
    (h : t.settle result = (.finished y, next)) : OnceAt p t y next := by
  cases result with
  | error f =>
    obtain ⟨-, rfl⟩ := Prod.mk.inj h
    exact .same p t y
  | ok changed =>
    obtain ⟨hy, rfl⟩ := Prod.mk.inj h
    obtain rfl := Outcome.finished.inj hy
    exact ⟨by simp [Response.isOk, Response.errno?], sameBut _ rfl⟩

theorem perform_finished (h : t.perform who r = (.finished y, next)) : OnceAt r.path t y next := by
  cases r <;> dsimp only [Request.path]
  case stat p | readDir p =>
    obtain ⟨-, rfl⟩ := Prod.mk.inj h
    exact .same p t y
  case mkdir p mode | create p mode =>
    refine settle_onceAt (fun changed made => ?_) h
    obtain ⟨above, holder, makes⟩ := make_eq_ok made
    rw [makes.next_eq]
    exact .put p _ t
  case unlink p => exact settle_onceAt (fun changed => unlink_eq_ok) h
  case write p offset data =>
    rw [perform, write] at h
    cases hn : t.writable who p with
    | error f =>
      rw [hn] at h
      obtain ⟨-, rfl⟩ := Prod.mk.inj h
      exact .same p t y
    | ok n =>
      rw [hn] at h
      dsimp only at h
      cases hc : writeCrash? (offset.toNat + data.length) with
      | some reason => simp [hc] at h
      | none =>
        rw [hc] at h
        obtain ⟨hy, rfl⟩ := Prod.mk.inj h
        obtain rfl := Outcome.finished.inj hy
        exact ⟨by simp [Response.ofResult, Except.map, Response.isOk, Response.errno?],
          .put p _ t⟩
  all_goals
    obtain ⟨-, rfl⟩ := Prod.mk.inj h
    exact .same _ t y

/-- An operation that was denied leaves the tree on which a second attempt is made. -/
theorem perform_of_denied (denied : (t.perform who r).1 = .finished .denied) :
    (t.perform who r).2 = t :=
  (perform_finished (Prod.ext denied rfl)).failed rfl

theorem handedBack_cases (t : Tree) (turn : Turn) (p : Path) :
    t.handedBack turn p = t ∨
      ∃ gid, turn.handBack = some gid ∧
        t.chown turn.who p none (some gid) = .ok (t.handedBack turn p) := by
  unfold handedBack
  cases turn.handBack with
  | none => exact .inl rfl
  | some gid =>
    dsimp only
    cases hc : t.chown turn.who p none (some gid) with
    | error f => exact .inl rfl
    | ok next => exact .inr ⟨gid, rfl, hc⟩

/-- In a turn the request is carried out once; a node that it made may get another group. -/
theorem take_finished {turn : Turn} (h : t.take turn r = (.finished y, next)) :
    OnceAt r.path t y next ∧ ∃ made, t.perform turn.who r = (.finished y, made) ∧
      (next = made ∨ y.isOk ∧ r.createsNode ∧ ∃ gid, turn.handBack = some gid ∧
        made.chown turn.who r.path none (some gid) = .ok next) := by
  unfold take at h
  split at h
  next y' made performed =>
    obtain ⟨hy, hnext⟩ := Prod.mk.inj h
    obtain rfl := Outcome.finished.inj hy
    have once := perform_finished performed
    split at hnext
    next creates =>
      simp only [Bool.and_eq_true] at creates
      rcases made.handedBack_cases turn r.path with same | ⟨gid, given, back⟩
      · obtain rfl : made = next := same.symm.trans hnext
        exact ⟨once, made, performed, .inl rfl⟩
      · rw [hnext] at back
        refine ⟨⟨fun failed => absurd creates.1 (by simp [failed]),
          once.sameBut.trans (chown_eq_ok back)⟩, made, performed, .inr ⟨creates.1, creates.2, gid,
          given, back⟩⟩
    next =>
      subst hnext
      exact ⟨once, made, performed, .inl rfl⟩
  next => simp at h

theorem userTurn_cases (t : Tree) (retries : Bool) (i : Identity) (governs : Option FileStat)
    (r : Request) :
    t.userTurn retries i governs r = ⟨i.ids, none⟩ ∨
      i.furtherTurn? governs = some (t.userTurn retries i governs r) := by
  unfold userTurn
  split
  · cases further : i.furtherTurn? governs with
    | none => exact .inl rfl
    | some turn => exact .inr rfl
  · exact .inl rfl

theorem userTurn_of_denied {i : Identity} {governs : Option FileStat}
    (denied : (t.perform i.ids r).1 = .finished .denied) :
    t.userTurn true i governs r = (i.furtherTurn? governs).getD ⟨i.ids, none⟩ :=
  if_pos ⟨denied, rfl⟩

theorem userTurn_of_not_denied {retries : Bool} {i : Identity} {governs : Option FileStat}
    (other : (t.perform i.ids r).1 ≠ .finished .denied) :
    t.userTurn retries i governs r = ⟨i.ids, none⟩ :=
  if_neg fun h => other h.1

theorem take_of_finished {turn : Turn} (h : t.perform turn.who r = (.finished y, next)) :
    t.take turn r =
      (.finished y, if y.isOk && r.createsNode then next.handedBack turn r.path else next) := by
  rw [take, h]

theorem take_of_crashed {turn : Turn} {reason : String}
    (h : t.perform turn.who r = (.crashed reason, next)) : t.take turn r = (.crashed reason, next) := by
  rw [take, h]

theorem take_of_not_handBack (t : Tree) (who : Ids) (r : Request) :
    t.take ⟨who, none⟩ r = t.perform who r := by
  unfold take handedBack
  split <;> simp_all

theorem take_of_not_createsNode (h : r.createsNode = false) (t : Tree) (turn : Turn) :
    t.take turn r = t.perform turn.who r := by
  unfold take
  split <;> simp_all

/-- A tree judges a user by the user id and one group. -/
theorem perform_groups (t : Tree) (who : Ids) (groups : List UInt32) (r : Request) :
    t.perform { who with groups } r = t.perform who r := by
  cases r <;> rfl

theorem allows_root (s : FileStat) (root : who.fsuid = 0) (want : Access) :
    s.allows who want = true := by
  simp [FileStat.allows, root]

theorem checkSearch_root (t : Tree) (root : who.fsuid = 0) (p : Path) :
    t.checkSearch who p = t.checkSearch {} p := by
  have alike : t.checkDirectory who = t.checkDirectory {} := by
    funext dir
    simp [checkDirectory, allows_root _ root, @allows_root {} _ rfl]
  rw [checkSearch, checkSearch, alike]

theorem stat_root (t : Tree) (root : who.fsuid = 0) (p : Path) : t.stat who p = t.stat {} p := by
  rw [stat, stat, reach, reach, checkSearch_root t root]

end Tree

end Impersonation
