import Impersonation.Identity

namespace Impersonation

open Program

def succeeds {α : Type} (x : Program (Except Fault α)) : Program Bool := do
  return (← x).isOk

/-- An open identity scope, with the ids that were in force before it. -/
inductive IdentityScope where
  | switched (savedUid savedGid : UInt32)
  /-- The scope of an anonymous client: the thread keeps its own ids. -/
  | unswitched
deriving DecidableEq

namespace IdentityScope

/-- An identity scope is refused on a poisoned thread and inside another one. -/
def checkThread : Attempt IdentityError Unit := do
  let flags ← ask .scopeFlags
  if flags.poisoned then throw .threadPoisoned
  if flags.active then throw .nested

/-- Puts ids back and leaves no groups. Each step is tried whatever became of the others; one that
fails poisons the thread. -/
def restore (uid : Option UInt32) (gid : UInt32) : Program Unit := do
  let uidBack ←
    match uid with
    | some uid => succeeds (ask (.setFsuid uid))
    | none => pure true
  let gidBack ← succeeds (ask (.setFsgid gid))
  let groupsCleared ← succeeds (ask (.setGroups []))
  unless uidBack && gidBack && groupsCleared do
    ask .poison

/-- Takes on an identity: the group first, since it needs the privileges of the old user. -/
def enter (i : Identity) : Attempt IdentityError IdentityScope := do
  checkThread
  Capability.ensure.adapt .capabilities
  match ← ask (.setFsgid i.gid) with
  | .error f => throw (.switch f)
  | .ok gid =>
    match ← ask (.setFsuid i.uid) with
    | .error f =>
      restore none gid
      throw (.switch f)
    | .ok uid =>
      match ← ask (.setGroups i.groups) with
      | .error f =>
        restore (some uid) gid
        throw (.switch f)
      | .ok () =>
        ask (.setActive true)
        return switched uid gid

def enterAnonymous : Attempt IdentityError IdentityScope := do
  checkThread
  ask (.setActive true)
  return unswitched

def enterPrincipal (c : Config) : Principal → Attempt IdentityError IdentityScope
  | .anonymous => enterAnonymous
  | .user name => do enter (← Identity.resolve c name)

def leave (s : IdentityScope) : Program Unit := do
  match s with
  | switched uid gid => restore (some uid) gid
  | unswitched => pure ()
  ask (.setActive false)

def within {α ε : Type} (entering : Attempt ε IdentityScope) (body : Program α) : Attempt ε α := do
  let scope ← entering
  body.closing scope.leave

end IdentityScope

/-- An open scope with user id 0, for looking at what the user may not see. -/
structure RootScope where
  savedUid : UInt32
deriving DecidableEq

namespace RootScope

def enter : Attempt Fault RootScope :=
  mk <$> ExceptT.mk (ask (.setFsuid 0))

def leave (s : RootScope) : Program Unit := do
  unless ← succeeds (ask (.setFsuid s.savedUid)) do
    ask .poison

/-- Runs a program with user id 0 and puts the id back in any case. -/
def within {α : Type} (body : Program α) : Attempt Fault α := do
  let scope ← enter
  body.closing scope.leave

end RootScope

end Impersonation
