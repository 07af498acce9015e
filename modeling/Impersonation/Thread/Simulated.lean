import Impersonation.Program

namespace Impersonation

inductive Switch where
  | fsuid (uid : UInt32)
  | fsgid (gid : UInt32)
  | groups (gids : List UInt32)
deriving DecidableEq

def Switch.text : Switch → String
  | fsuid uid => "setfsuid(" ++ toString uid ++ ")"
  | fsgid gid => "setfsgid(" ++ toString gid ++ ")"
  | groups gids => "setgroups([" ++ ", ".intercalate (gids.map toString) ++ "])"

/-- A thread whose ids are kept in memory. Changes can be made to fail, and all that were asked for
are on record. -/
structure SimulatedThread where
  ids : Ids := {}
  permitted : Bool := true
  effective : Bool := true
  /-- The id that cannot become the user id. -/
  refusedUid : Option UInt32 := none
  /-- The id that cannot become the group id. -/
  refusedGid : Option UInt32 := none
  /-- The list that cannot become the further groups. -/
  refusedGroups : Option (List UInt32) := none
  /-- The changes asked for, oldest first. -/
  switches : List Switch := []
deriving DecidableEq

inductive Control where
  | reset
  | setCapabilities (permitted effective : Bool)
  | setIds (uid gid : UInt32)
  | refuseUid (uid : UInt32)
  | refuseGid (gid : UInt32)
  | refuseGroups (gids : List UInt32)
deriving DecidableEq

namespace SimulatedThread

variable (t : SimulatedThread)

def record (s : Switch) : SimulatedThread :=
  { t with switches := t.switches ++ [s] }

/-- Without the privilege only the present id can be taken on. -/
def setFsuid (uid : UInt32) : Except Fault UInt32 × SimulatedThread :=
  let t := t.record (.fsuid uid)
  if t.refusedUid = some uid ∨ (!t.effective ∧ uid ≠ t.ids.fsuid) then
    (.error (.os .notPermitted), t)
  else (.ok t.ids.fsuid, { t with ids := { t.ids with fsuid := uid } })

def setFsgid (gid : UInt32) : Except Fault UInt32 × SimulatedThread :=
  let t := t.record (.fsgid gid)
  if t.refusedGid = some gid ∨ (!t.effective ∧ gid ≠ t.ids.fsgid) then
    (.error (.os .notPermitted), t)
  else (.ok t.ids.fsgid, { t with ids := { t.ids with fsgid := gid } })

def setGroups (gids : List UInt32) : Except Fault Unit × SimulatedThread :=
  let t := t.record (.groups gids)
  if !t.effective ∨ t.refusedGroups = some gids then (.error (.os .notPermitted), t)
  else (.ok (), { t with ids := { t.ids with groups := gids } })

/-- Both privileges are held or missed together. -/
def holds : CapabilitySet → Bool
  | .permitted => t.permitted
  | .effective => t.effective

/-- Raising one privilege raises both. -/
def raise : Except Fault Unit × SimulatedThread :=
  if t.permitted then (.ok (), { t with effective := true }) else (.error (.os .notPermitted), t)

def apply : Control → SimulatedThread
  | .reset => {}
  | .setCapabilities permitted effective => { t with permitted, effective }
  | .setIds uid gid => { t with ids := { t.ids with fsuid := uid, fsgid := gid } }
  | .refuseUid uid => { t with refusedUid := some uid }
  | .refuseGid gid => { t with refusedGid := some gid }
  | .refuseGroups gids => { t with refusedGroups := some gids }

end SimulatedThread

end Impersonation
