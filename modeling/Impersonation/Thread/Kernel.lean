import Impersonation.Program

namespace Impersonation

/-- The id that stands for none: asked for, it changes nothing. -/
def noId : UInt32 := 4294967295

inductive IdKind where
  | user
  | group
deriving DecidableEq

namespace Ids

def get (i : Ids) : IdKind → UInt32
  | .user => i.fsuid
  | .group => i.fsgid

def put (i : Ids) (id : UInt32) : IdKind → Ids
  | .user => { i with fsuid := id }
  | .group => { i with fsgid := id }

end Ids

/-- The calls of a kernel for the ids of a thread. What it keeps of a thread is a `σ`. -/
structure Kernel (σ : Type) where
  ids : σ → Ids
  /-- The order in which a group list is kept. -/
  keep : List UInt32 → List UInt32
  /-- Asks for an id. The answer is the one before, whether or not the new one is in force. -/
  ask : IdKind → UInt32 → σ → UInt32 × σ
  /-- Asks for a group list. The answer is the number of the failure, if it failed. -/
  askGroups : List UInt32 → σ → Option Errno × σ

namespace Kernel

variable {σ : Type} (k : Kernel σ)

/-- Asks for an id and then which one is in force; unless it is the one asked for, the thread goes
back to the one before. -/
def switch (kind : IdKind) (id : UInt32) (t : σ) : Except Fault UInt32 × σ :=
  let (previous, t) := k.ask kind id t
  let (current, t) := k.ask kind noId t
  if current ≠ id then (.error (.os .notPermitted), (k.ask kind previous t).2)
  else (.ok previous, t)

def switchGroups (gids : List UInt32) (t : σ) : Except Fault Unit × σ :=
  match k.askGroups gids t with
  | (some e, t) => (.error (.os e), t)
  | (none, t) => (.ok (), t)

end Kernel

/-- What the kernel keeps of a thread. No thread ever has `noId`. -/
structure KernelThread where
  fsuid : UInt32 := 0
  fsgid : UInt32 := 0
  groups : List UInt32 := []
  /-- The user ids that the thread may take on without privilege. -/
  ownUids : List UInt32 := [0]
  /-- The group ids that the thread may take on without privilege. -/
  ownGids : List UInt32 := [0]
  holds : CapabilitySet → Capability → Bool := fun _ _ => true
  fsuid_ne : fsuid ≠ noId := by decide
  fsgid_ne : fsgid ≠ noId := by decide

namespace KernelThread

def fresh : KernelThread := {}

variable (t : KernelThread)

def ids : Ids :=
  ⟨t.fsuid, t.fsgid, t.groups⟩

def mayTakeUid (uid : UInt32) : Bool :=
  t.holds .effective .setuid || uid = t.fsuid || uid ∈ t.ownUids

def mayTakeGid (gid : UInt32) : Bool :=
  t.holds .effective .setgid || gid = t.fsgid || gid ∈ t.ownGids

/-- The kernel's call: the id before, and the new one in force if it is one the thread may have. -/
def rawSetFsuid (uid : UInt32) : UInt32 × KernelThread :=
  (t.fsuid,
    if h : uid ≠ noId ∧ t.mayTakeUid uid then { t with fsuid := uid, fsuid_ne := h.1 } else t)

def rawSetFsgid (gid : UInt32) : UInt32 × KernelThread :=
  (t.fsgid,
    if h : gid ≠ noId ∧ t.mayTakeGid gid then { t with fsgid := gid, fsgid_ne := h.1 } else t)

def maxGroups : Nat := 65536

/-- The kernel takes a group list as a whole or not at all, and keeps it in order. -/
def rawSetGroups (gids : List UInt32) : Option Errno × KernelThread :=
  if !t.holds .effective .setgid then (some .notPermitted, t)
  else if maxGroups < gids.length ∨ noId ∈ gids then (some .invalidArgument, t)
  else (none, { t with groups := gids.mergeSort (· ≤ ·) })

/-- The kernel that keeps such threads. -/
def kernel : Kernel KernelThread where
  ids := ids
  keep := (·.mergeSort (· ≤ ·))
  ask
    | .user, uid, t => t.rawSetFsuid uid
    | .group, gid, t => t.rawSetFsgid gid
  askGroups gids t := t.rawSetGroups gids

def setFsuid (uid : UInt32) : Except Fault UInt32 × KernelThread :=
  kernel.switch .user uid t

def setFsgid (gid : UInt32) : Except Fault UInt32 × KernelThread :=
  kernel.switch .group gid t

def setGroups (gids : List UInt32) : Except Fault Unit × KernelThread :=
  kernel.switchGroups gids t

def raise (cap : Capability) : Except Fault Unit × KernelThread :=
  if t.holds .permitted cap then
    (.ok (), { t with
      holds := fun set c => t.holds set c || (set = .effective && c = cap) })
  else (.error (.os .notPermitted), t)

end KernelThread

end Impersonation
