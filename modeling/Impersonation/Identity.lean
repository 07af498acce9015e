import Impersonation.Capability
import Impersonation.Client
import Impersonation.Config

namespace Impersonation

structure Identity where
  uid : UInt32
  gid : UInt32
  groups : List UInt32
deriving DecidableEq

inductive IdentityError where
  | noPrincipal
  | unknownUser (user : String)
  | lookup (user : String) (fault : Fault)
  | systemUid (user : String) (uid : UInt32)
  | systemGid (user : String) (gid : UInt32)
  | capabilities (cause : CapabilityError)
  | switch (fault : Fault)
  | nested
  | threadPoisoned
deriving DecidableEq

namespace IdentityError

def message : IdentityError → String
  | noPrincipal => "no security entity provided"
  | unknownUser user => "request mapped to username that does not exist: " ++ user
  | lookup user f => "failure looking up " ++ user ++ ": " ++ f.message
  | systemUid user uid => "username " ++ user ++ " maps to a system UID " ++ toString uid
  | systemGid user gid => "username " ++ user ++ " maps to a system GID " ++ toString gid
  | capabilities cause => "capability check failed: " ++ cause.message
  | switch f => "failed to switch fs credentials: " ++ f.message
  | nested => "an identity is already active on this thread"
  | threadPoisoned =>
    "thread credentials could not be restored earlier; refusing to impersonate"

def errno (_ : IdentityError) : Errno :=
  .accessDenied

end IdentityError

namespace Envelope

def principal (e : Envelope) : Except IdentityError Principal :=
  match e.client with
  | some c => .ok c.principal
  | none => .error .noPrincipal

end Envelope

namespace Identity

open Program

def withGid (i : Identity) (gid : UInt32) : Identity :=
  { i with gid }

def isMember (i : Identity) (gid : UInt32) : Bool :=
  i.gid = gid || gid ∈ i.groups

/-- The identity of a user, if the settings let it be impersonated. -/
def resolve (c : Config) (user : String) : Attempt IdentityError Identity := do
  match ← ask (.findUser user) with
  | .error f => throw (.lookup user f)
  | .ok none => throw (.unknownUser user)
  | .ok (some entry) =>
    if entry.uid < c.minUid then
      throw (.systemUid user entry.uid)
    else if entry.gid < c.minGid then
      throw (.systemGid user entry.gid)
    else
      match ← ask (.listGroups user entry.gid) with
      | .error f => throw (.lookup user f)
      | .ok groups => return ⟨entry.uid, entry.gid, groups⟩

end Identity

end Impersonation
