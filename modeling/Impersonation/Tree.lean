import Impersonation.Program
import Impersonation.Path.Components

namespace Impersonation

structure Node where
  stat : FileStat
  data : Bytes := []
deriving DecidableEq

namespace Node

def ofStat (mode uid gid : UInt32) : Node :=
  { stat := { mode, uid, gid, size := 0 } }

end Node

inductive Access where
  | search
  | list
  | write
  | change
deriving DecidableEq

def Access.bits : Access → UInt32
  | search => 1
  | list => 4
  | write => 2
  | change => 3

/-- The permission bits of a node for a user: those of the owner, of the group, or of all others. -/
def FileStat.bitsFor (s : FileStat) (who : Ids) : UInt32 :=
  if who.fsuid = s.uid then s.mode >>> 6
  else if who.fsgid = s.gid then s.mode >>> 3
  else s.mode

/-- Whether a user may access a node. User id 0 may do everything. -/
def FileStat.allows (s : FileStat) (who : Ids) (want : Access) : Bool :=
  who.fsuid = 0 || s.bitsFor who &&& want.bits = want.bits

/-- Nodes by path, in the order of the paths' components. -/
abbrev Nodes := List (Path × Node)

namespace Nodes

def find? (p : Path) : Nodes → Option Node
  | [] => none
  | (q, n) :: rest => if q.same p then some n else find? p rest

/-- Puts a node in its place; a node that is replaced keeps the spelling of its path. -/
def put (p : Path) (n : Node) : Nodes → Nodes
  | [] => [(p, n)]
  | (q, old) :: rest =>
    if q.same p then (q, n) :: rest
    else if p.le q then (p, n) :: (q, old) :: rest
    else (q, old) :: put p n rest

def erase (p : Path) (ns : Nodes) : Nodes :=
  ns.filter fun entry => !entry.1.same p

theorem find?_congr {p q : Path} (h : p.same q) (ns : Nodes) : find? p ns = find? q ns := by
  induction ns with
  | nil => rfl
  | cons entry rest ih =>
    have hs : entry.1.same p = entry.1.same q := by
      simp only [Path.same_iff] at h
      simp [Path.same, h]
    simp [find?, hs, ih]

theorem find?_put (p q : Path) (n : Node) (ns : Nodes) :
    find? q (put p n ns) = if p.same q then some n else find? q ns := by
  induction ns with
  | nil => simp [put, find?]
  | cons entry rest ih =>
    obtain ⟨r, old⟩ := entry
    by_cases hr : r.same p
    · have hs : r.same q = p.same q := by
        simp only [Path.same_iff] at hr
        simp [Path.same, hr]
      by_cases hq : p.same q <;> simp [put, find?, hr, hs, hq]
    · by_cases hle : p.le r
      · simp [put, find?, hr, hle]
      · by_cases hq : p.same q
        · have hs : ¬ r.same q := by
            simp only [Path.same_iff] at hr hq ⊢
            exact fun h => hr (h.trans hq.symm)
          simp [put, find?, hr, hle, hs, ih, hq]
        · simp [put, find?, hr, hle, ih, hq]

theorem find?_erase (p q : Path) (ns : Nodes) :
    find? q (erase p ns) = if p.same q then none else find? q ns := by
  induction ns with
  | nil => simp [erase, find?]
  | cons entry rest ih =>
    obtain ⟨r, old⟩ := entry
    simp only [erase] at ih
    by_cases hr : r.same p
    · have hs : r.same q = p.same q := by
        simp only [Path.same_iff] at hr
        simp [Path.same, hr]
      by_cases hq : p.same q <;> simp [erase, find?, hr, hs, hq, ih]
    · by_cases hq : p.same q
      · have hs : ¬ r.same q := by
          simp only [Path.same_iff] at hr hq ⊢
          exact fun h => hr (h.trans hq.symm)
        simp [erase, find?, hr, hs, ih, hq]
      · simp [erase, find?, hr, ih, hq]

end Nodes

/-- A storage in memory that sees a single group of its user. Paths are the same node when their
components agree, while what is above a path is read off its bytes. -/
structure Tree where
  nodes : Nodes := []
  /-- Paths that cannot be looked at, with the failure each gives. -/
  statFailures : List (Path × Errno) := []
  /-- A crash in the middle of an operation leaves the nodes out of reach for good. -/
  stuck : Bool := false
deriving DecidableEq

namespace Tree

def find? (t : Tree) (p : Path) : Option Node :=
  t.nodes.find? p

/-- The node as it is seen from outside, unless the tree is stuck. -/
def node? (t : Tree) (p : Path) : Option Node :=
  if t.stuck then none else t.find? p

def plant (t : Tree) (p : Path) (mode uid gid : UInt32) : Tree :=
  { t with nodes := t.nodes.put p (.ofStat mode uid gid) }

def dir (t : Tree) (p : Path) (uid gid mode : UInt32) : Tree :=
  t.plant p (Mode.directory ||| mode) uid gid

def file (t : Tree) (p : Path) (uid gid mode : UInt32) : Tree :=
  t.plant p (Mode.regular ||| mode) uid gid

def failStat (t : Tree) (p : Path) (e : Errno) : Tree :=
  { t with statFailures := (p, e) :: t.statFailures }

def refuse {α : Type} (e : Errno) : Except Fault α :=
  .error (.os e)

def checkDirectory (t : Tree) (who : Ids) (dir : Path) : Except Fault Unit :=
  match t.find? dir with
  | none => refuse .noEntry
  | some n =>
    if !n.stat.isDir then refuse .notDirectory
    else if !n.stat.allows who .search then refuse .accessDenied
    else .ok ()

def checkSearch (t : Tree) (who : Ids) (p : Path) : Except Fault Unit :=
  p.above.forM (t.checkDirectory who)

def reach (t : Tree) (who : Ids) (p : Path) : Except Fault Node := do
  t.checkSearch who p
  match t.find? p with
  | none => refuse .noEntry
  | some n => return n

/-- The directory that holds a path, if the user may change it. -/
def holder (t : Tree) (who : Ids) (p : Path) : Except Fault Node := do
  t.checkSearch who p
  match p.parent? with
  | none => refuse .invalidArgument
  | some above =>
    match t.find? above with
    | none => refuse .noEntry
    | some n => if n.stat.allows who .change then return n else refuse .accessDenied

/-- The nodes as an operation sees them. -/
def unlocked (t : Tree) : Except Fault Unit :=
  if t.stuck then refuse .inputOutput else .ok ()

/-- Looks at a node. A planted failure counts even where the path is out of reach. -/
def stat (t : Tree) (who : Ids) (p : Path) : Except Fault FileStat := do
  match t.statFailures.find? (·.1.same p) with
  | some (_, e) => refuse e
  | none =>
    t.unlocked
    return (← t.reach who p).stat

/-- The node that a user makes in a directory: a set-group-id directory hands down its group, and to
a directory the bit too. -/
def newNode (who : Ids) (holder : FileStat) (kind mode : UInt32) : Node :=
  let mode := kind ||| (mode &&& Mode.permissions)
  if holder.isSetgid then
    .ofStat (if kind = Mode.directory then mode ||| Mode.setgid else mode) who.fsuid holder.gid
  else .ofStat mode who.fsuid who.fsgid

def make (t : Tree) (who : Ids) (p : Path) (kind mode : UInt32) : Except Fault Tree := do
  t.unlocked
  let above ← t.holder who p
  if (t.find? p).isSome then refuse .fileExists
  return { t with nodes := t.nodes.put p (newNode who above.stat kind mode) }

def unlink (t : Tree) (who : Ids) (p : Path) : Except Fault Tree := do
  t.unlocked
  discard (t.holder who p)
  if (t.find? p).isNone then refuse .noEntry
  return { t with nodes := t.nodes.erase p }

/-- Whether a user may give a node another owner and group: only the owner, who keeps it and hands it
to a group of their own. -/
def mayChown (who : Ids) (s : FileStat) (uid gid : Option UInt32) : Bool :=
  who.fsuid = 0 ||
    (s.uid = who.fsuid && uid.all (· = s.uid) && gid.all (· ∈ who.groups))

def chown (t : Tree) (who : Ids) (p : Path) (uid gid : Option UInt32) : Except Fault Tree := do
  t.unlocked
  let n ← t.reach who p
  if !mayChown who n.stat uid gid then refuse .notPermitted
  let stat := { n.stat with uid := uid.getD n.stat.uid, gid := gid.getD n.stat.gid }
  return { t with nodes := t.nodes.put p { n with stat } }

def children (t : Tree) (p : Path) : List String :=
  (t.nodes.filter fun (q, _) => !q.same p && q.parent?.any (·.same p)).filterMap
    fun (q, _) => q.fileName?.map Bytes.lossy

def readDir (t : Tree) (who : Ids) (p : Path) : Except Fault (List String) := do
  t.unlocked
  let n ← t.reach who p
  if !n.stat.allows who .list then refuse .accessDenied
  return t.children p

/-- Contents with `data` written at `offset`; a gap before it is filled with zeros. -/
def overwrite (contents : Bytes) (offset : Nat) (data : Bytes) : Bytes :=
  contents.take offset ++ List.replicate (offset - contents.length) 0 ++ data ++
    contents.drop (offset + data.length)

def writable (t : Tree) (who : Ids) (p : Path) : Except Fault Node := do
  t.unlocked
  let n ← t.reach who p
  if n.stat.allows who .write then return n else refuse .accessDenied

def written (t : Tree) (p : Path) (n : Node) (offset : Nat) (data : Bytes) : Tree :=
  let contents := overwrite n.data offset data
  let stat := { n.stat with size := contents.length }
  { t with nodes := t.nodes.put p { stat, data := contents } }

/-- The crash of a write that ends beyond all 64-bit numbers, or beyond the longest contents. -/
def writeCrash? (stop : Nat) : Option String :=
  if UInt64.size ≤ stop then some "attempt to add with overflow"
  else if UInt64.size / 2 ≤ stop then some "capacity overflow"
  else none

/-- Writes to a node. A crash leaves the tree stuck. -/
def write (t : Tree) (who : Ids) (p : Path) (offset : UInt64) (data : Bytes) :
    Outcome (Except Fault Nat) × Tree :=
  match t.writable who p with
  | .error f => (.finished (.error f), t)
  | .ok n =>
    match writeCrash? (offset.toNat + data.length) with
    | some reason => (.crashed reason, { t with stuck := true })
    | none => (.finished (.ok data.length), t.written p n offset.toNat data)

def settle (t : Tree) : Except Fault Tree → Outcome Response × Tree
  | .ok next => (.finished .ok, next)
  | .error f => (.finished (.ofFault f), t)

/-- Carries out a request for a user. Some operations are not offered. -/
def perform (t : Tree) (who : Ids) : Request → Outcome Response × Tree
  | .stat p => (.finished (.ofResult ((t.stat who p).map .attr)), t)
  | .mkdir p mode => t.settle (t.make who p Mode.directory mode)
  | .create p mode => t.settle (t.make who p Mode.regular mode)
  | .unlink p => t.settle (t.unlink who p)
  | .readDir p => (.finished (.ofResult ((t.readDir who p).map .entries)), t)
  | .write p offset data =>
    match t.write who p offset data with
    | (.finished count, next) => (.finished (.ofResult (count.map .written)), next)
    | (.crashed reason, next) => (.crashed reason, next)
  | .rmdir _ | .rename .. | .truncate .. | .chmod .. | .read .. =>
    (.finished (.error .notImplemented), t)

end Tree

end Impersonation
