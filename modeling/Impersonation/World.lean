import Impersonation.Directory.Host
import Impersonation.Host.Mount
import Impersonation.Thread.Kernel
import Impersonation.Thread.Simulated
import Impersonation.Tree

namespace Impersonation

inductive Credentials where
  | simulated
  | kernel
deriving DecidableEq

/-- A thread and what it carries from request to request. -/
structure Thread where
  simulated : SimulatedThread := {}
  kernel : KernelThread := .fresh
  flags : ScopeFlags := {}

def Thread.ids (t : Thread) : Credentials → Ids
  | .simulated => t.simulated.ids
  | .kernel => t.kernel.ids

inductive CapabilityRule where
  | held (set : CapabilitySet) (cap : Capability) (answer : Except Errno Bool)
  | raised (cap : Capability) (errno : Errno)

namespace CapabilityRule

def held? (set : CapabilitySet) (cap : Capability) :
    CapabilityRule → Option (Except Fault Bool)
  | held s c answer => if s = set ∧ c = cap then some (answer.mapError .os) else none
  | raised .. => none

def raised? (cap : Capability) : CapabilityRule → Option Fault
  | raised c e => if c = cap then some (.os e) else none
  | held .. => none

end CapabilityRule

inductive Users where
  | directory (d : Directory)
  | host (h : HostDatabase)

inductive Storage where
  | tree (t : Tree)
  | statOnly (t : Tree)
  | mount (m : Mount) (fs : Filesystem)

structure Visits where
  stats : List Path := []
  /-- The user and group of each attempt at a change. -/
  changes : List (UInt32 × UInt32) := []
deriving DecidableEq

namespace Visits

def look (v : Visits) (p : Path) : Visits :=
  { v with stats := v.stats ++ [p] }

def change (v : Visits) (who : Ids) : Visits :=
  { v with changes := v.changes ++ [(who.fsuid, who.fsgid)] }

/-- Notes a request; reading and what a tree does not offer leave no trace. -/
def request (v : Visits) (who : Ids) : Request → Visits
  | .stat p => v.look p
  | .mkdir .. | .create .. | .unlink _ | .write .. => v.change who
  | _ => v

end Visits

/-- What the threads of a process share. -/
structure Site where
  credentials : Credentials := .simulated
  rules : List CapabilityRule := []
  users : Users := .directory {}
  /-- Users that cannot be looked up, with the failure each gives. -/
  lookupFailures : List (String × Errno) := []
  /-- Users whose groups cannot be looked up. -/
  groupFailures : List (String × Errno) := []
  lookups : Nat := 0
  storage : Storage := .tree {}
  visits : Visits := {}
  umask : UInt32 := 0o022
  /-- Switching identities was given up. -/
  switchingDisabled : Bool := false

structure Station where
  thread : Thread := {}
  site : Site := {}

namespace Station

variable (s : Station)

def setSimulated {α : Type} (r : Except Fault α × SimulatedThread) : Except Fault α × Station :=
  (r.1, { s with thread := { s.thread with simulated := r.2 } })

def setKernel {α : Type} (r : Except Fault α × KernelThread) : Except Fault α × Station :=
  (r.1, { s with thread := { s.thread with kernel := r.2 } })

def ids : Ids :=
  s.thread.ids s.site.credentials

def setFsuid (uid : UInt32) : Except Fault UInt32 × Station :=
  match s.site.credentials with
  | .simulated => s.setSimulated (s.thread.simulated.setFsuid uid)
  | .kernel => s.setKernel (s.thread.kernel.setFsuid uid)

def setFsgid (gid : UInt32) : Except Fault UInt32 × Station :=
  match s.site.credentials with
  | .simulated => s.setSimulated (s.thread.simulated.setFsgid gid)
  | .kernel => s.setKernel (s.thread.kernel.setFsgid gid)

def setGroups (gids : List UInt32) : Except Fault Unit × Station :=
  match s.site.credentials with
  | .simulated => s.setSimulated (s.thread.simulated.setGroups gids)
  | .kernel => s.setKernel (s.thread.kernel.setGroups gids)

/-- The first rule that answers counts; without one the thread answers. -/
def holds (set : CapabilitySet) (cap : Capability) : Except Fault Bool :=
  match s.site.rules.findSome? (·.held? set cap) with
  | some answer => answer
  | none =>
    match s.site.credentials with
    | .simulated => .ok (s.thread.simulated.holds set)
    | .kernel => .ok (s.thread.kernel.holds set cap)

def raise (cap : Capability) : Except Fault Unit × Station :=
  match s.site.rules.findSome? (·.raised? cap) with
  | some f => (.error f, s)
  | none =>
    match s.site.credentials with
    | .simulated => s.setSimulated s.thread.simulated.raise
    | .kernel => s.setKernel (s.thread.kernel.raise cap)

def findUser (name : String) : Except Fault (Option UserEntry) :=
  match s.site.lookupFailures.lookup name with
  | some e => .error (.os e)
  | none =>
    match s.site.users with
    | .directory d => .ok (d.find? name)
    | .host h => .ok (h.find? name)

/-- Only questions that reach the directory are counted. -/
def listGroups (name : String) (primary : UInt32) : Except Fault (List UInt32) × Station :=
  match s.site.groupFailures.lookup name with
  | some e => (.error (.os e), s)
  | none =>
    match s.site.users with
    | .directory d =>
      (.ok (d.groupsOf name primary), { s with site := { s.site with lookups := s.site.lookups + 1 } })
    | .host h => (h.groupsOf name primary, s)

/-- The ids by which a tree judges access. -/
def treeIds : Ids :=
  s.thread.simulated.ids

/-- The ids by which the host judges access. -/
def hostIds : Ids :=
  s.thread.kernel.ids

def withStorage (storage : Storage) (visits : Visits) : Station :=
  { s with site := { s.site with storage, visits } }

def probe (p : Path) : Outcome (Except Fault FileStat) × Station :=
  let v := s.site.visits
  match s.site.storage with
  | .tree t => (.finished (t.stat s.treeIds p), s.withStorage (.tree t) (v.look p))
  | .statOnly t => (.finished (t.stat s.treeIds p), s.withStorage (.statOnly t) (v.look p))
  | .mount m fs => (.finished (m.stat fs s.hostIds p), s)

def perform (r : Request) : Outcome Response × Station :=
  let v := s.site.visits
  match s.site.storage with
  | .tree t =>
    let (response, t) := t.perform s.treeIds r
    (response, s.withStorage (.tree t) (v.request s.treeIds r))
  | .statOnly t =>
    match r with
    | .stat p =>
      (.finished (.ofResult ((t.stat s.treeIds p).map .attr)),
        s.withStorage (.statOnly t) (v.look p))
    | _ => (.finished (.error .notImplemented), s)
  | .mount m fs =>
    let (response, fs) := m.perform fs s.site.umask s.hostIds r
    (.finished response, s.withStorage (.mount m fs) v)

def setOwner (p : Path) (uid gid : Option UInt32) : Outcome (Except Fault Unit) × Station :=
  let v := s.site.visits
  match s.site.storage with
  | .tree t =>
    match t.chown s.treeIds p uid gid with
    | .ok next => (.finished (.ok ()), s.withStorage (.tree next) (v.change s.treeIds))
    | .error f => (.finished (.error f), s.withStorage (.tree t) (v.change s.treeIds))
  | .statOnly _ => (.finished (.error (.os .notImplemented)), s)
  | .mount m fs =>
    match m.chown fs s.hostIds p uid gid with
    | .ok next => (.finished (.ok ()), s.withStorage (.mount m next) v)
    | .error f => (.finished (.error f), s)

def setFlags (flags : ScopeFlags) : Station :=
  { s with thread := { s.thread with flags } }

def answer : Program.Machine Station
  | .ids, s => (s.ids, s)
  | .setFsuid uid, s => s.setFsuid uid
  | .setFsgid gid, s => s.setFsgid gid
  | .setGroups gids, s => s.setGroups gids
  | .hasCapability set cap, s => (s.holds set cap, s)
  | .raiseCapability cap, s => s.raise cap
  | .scopeFlags, s => (s.thread.flags, s)
  | .setActive active, s => ((), s.setFlags { s.thread.flags with active })
  | .poison, s => ((), s.setFlags { s.thread.flags with poisoned := true })
  | .switchingDisabled, s => (s.site.switchingDisabled, s)
  | .disableSwitching, s => ((), { s with site := { s.site with switchingDisabled := true } })
  | .setUmask umask, s =>
    (s.site.umask, { s with site := { s.site with umask := umask &&& Mode.maskable } })
  | .findUser name, s => (s.findUser name, s)
  | .listGroups name primary, s => s.listGroups name primary
  | .perform r, s => s.perform r
  | .probe p, s => s.probe p
  | .setOwner p uid gid, s => s.setOwner p uid gid

end Station

end Impersonation
