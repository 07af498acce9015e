import Impersonation.Program

namespace Impersonation

namespace Capability

def name : Capability → String
  | setuid => "CAP_SETUID"
  | setgid => "CAP_SETGID"

/-- The privileges that changing identity takes, in the order they are looked up. -/
def required : List Capability := [setuid, setgid]

end Capability

inductive CapabilityError where
  | notPermitted (cap : Capability)
  /-- Switching was given up earlier. -/
  | disabled
  | query (fault : Fault)
  | raise (cap : Capability) (fault : Fault)
deriving DecidableEq

namespace CapabilityError

def message : CapabilityError → String
  | notPermitted cap => cap.name ++ " not in the daemon's permitted set"
  | disabled => "identity switching disabled: required capabilities are not permitted"
  | query f => "failed to query thread capabilities: " ++ f.message
  | raise cap f => "failed to raise " ++ cap.name ++ " into the effective set: " ++ f.message

def errno (_ : CapabilityError) : Errno :=
  .accessDenied

def isFatal : CapabilityError → Bool
  | notPermitted _ | disabled => true
  | query _ | raise .. => false

end CapabilityError

structure CapabilityReport where
  setuidPermitted : Bool
  setgidPermitted : Bool
  setuidEffective : Bool
  setgidEffective : Bool
deriving DecidableEq

namespace CapabilityReport

def canSwitch (r : CapabilityReport) : Bool :=
  r.setuidEffective && r.setgidEffective

def isPermitted (r : CapabilityReport) : Bool :=
  r.setuidPermitted && r.setgidPermitted

end CapabilityReport

/-- Work that ends in a value or in a failure of its own kind. -/
abbrev Attempt (ε α : Type) := ExceptT ε Program α

namespace Capability

open Program

def isHeld (set : CapabilitySet) (cap : Capability) : Attempt CapabilityError Bool := do
  match ← ask (.hasCapability set cap) with
  | .ok held => return held
  | .error f => throw (.query f)

def requirePermitted (cap : Capability) : Attempt CapabilityError Unit := do
  unless ← isHeld .permitted cap do
    ask .disableSwitching
    throw (.notPermitted cap)

def requireEffective (cap : Capability) : Attempt CapabilityError Unit := do
  unless ← isHeld .effective cap do
    match ← ask (.raiseCapability cap) with
    | .ok () => pure ()
    | .error f => throw (.raise cap f)

/-- The check that a thread may change its ids. Privileges become effective for one thread alone, so
each scope is checked anew; one that is not even permitted ends the switching of the process. -/
def ensure : Attempt CapabilityError Unit := do
  if ← ask .switchingDisabled then
    throw .disabled
  required.forM requirePermitted
  required.forM requireEffective

def inspect : Attempt CapabilityError CapabilityReport := do
  let setuidPermitted ← isHeld .permitted setuid
  let setgidPermitted ← isHeld .permitted setgid
  let setuidEffective ← isHeld .effective setuid
  let setgidEffective ← isHeld .effective setgid
  return { setuidPermitted, setgidPermitted, setuidEffective, setgidEffective }

end Capability

end Impersonation
