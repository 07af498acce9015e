import Impersonation.GroupSearch

namespace Impersonation

open Program

inductive StartError where
  | config (cause : ConfigError)
  | capabilities (cause : CapabilityError)
deriving DecidableEq

def StartError.message : StartError → String
  | config cause => "invalid configuration: " ++ cause.message
  | capabilities cause => "multiuser support disabled: " ++ cause.message

structure Gateway where
  config : Config

namespace Gateway

/-- Starts a gateway: settings and privileges are checked before the umask is applied. -/
def start (c : Config) : Attempt StartError Gateway := do
  match c.validate with
  | .error e => throw (.config e)
  | .ok () =>
    Capability.ensure.adapt .capabilities
    if let some mask := c.umask then
      discard (ask (.setUmask (mask &&& Mode.permissions)))
    return ⟨c⟩

/-- The mode of a new directory: a private one is opened up, so that the umask decides. -/
def mkdirMode (mode : UInt32) (umask : Option UInt32) : UInt32 :=
  if umask.isSome ∧ mode &&& 0o777 = 0o700 then mode ||| 0o777 else mode

def adjust (g : Gateway) : Request → Request
  | .mkdir p mode => .mkdir p (mkdirMode mode g.config.umask)
  | r => r

def handleInternal (g : Gateway) (r : Request) : Program Response := do
  if g.config.clusterManager && r.isStat then
    match ← (RootScope.within (perform r)).run with
    | .ok response => return response
    | .error f => return .ofFault f
  else perform r

def handleAnonymous (r : Request) : Program Response := do
  match ← (IdentityScope.within IdentityScope.enterAnonymous (perform r)).run with
  | .ok response => return response
  | .error e => return .error e.errno

/-- Gives a new node the user's primary group; whether that works has no say in the response. -/
def handBack (r : Request) (gid : UInt32) : Program Unit := do
  discard (setOwner r.path none (some gid))

def runWithGroup (i : Identity) (found : GroupMatch) (r : Request) : Program Response := do
  let second : Program Response := do
    let response ← perform r
    if response.isOk && r.createsNode && !found.stickyGid then
      handBack r i.gid
    return response
  match ← (IdentityScope.within (IdentityScope.enter (i.withGid found.gid)) second).run with
  | .ok response => return response
  | .error e => return .error e.errno

/-- Tries a refused request with a further group; without one, `refusal` stands. -/
def retry (user : String) (i : Identity) (r : Request) (refusal : Response) :
    Program Response := do
  match ← (GroupSearch.run user i.gid r.path).run with
  | .error _ => return refusal
  | .ok found => if found.gid = i.gid then return refusal else runWithGroup i found r

def handleUser (g : Gateway) (user : String) (r : Request) : Program Response := do
  match ← (Identity.resolve g.config user).run with
  | .error e => return .error e.errno
  | .ok i =>
    match ← (IdentityScope.within (IdentityScope.enter i) (perform r)).run with
    | .error e => return .error e.errno
    | .ok response =>
      if response = .denied ∧ g.config.groupRetry then retry user i r response
      else return response

/-- Runs a request; one without an envelope is the daemon's own. -/
def handle (g : Gateway) (envelope : Option Envelope) (request : Request) : Program Response :=
  let r := g.adjust request
  match envelope with
  | none => g.handleInternal r
  | some e =>
    match e.principal with
    | .error refusal => return .error refusal.errno
    | .ok .anonymous => handleAnonymous r
    | .ok (.user name) => g.handleUser name r

end Gateway

end Impersonation
