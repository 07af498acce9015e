import Impersonation.Gateway
import Impersonation.World

namespace Impersonation

inductive OpenScope where
  | identity (s : IdentityScope)
  | root (s : RootScope)
deriving DecidableEq

def OpenScope.leave : OpenScope → Program Unit
  | identity s => s.leave
  | root s => s.leave

structure ScopedWork where
  principal : Principal
  /-- Whether the request runs with user id 0. -/
  asRoot : Bool
  request : Option Request
  /-- The crash that ends the work. -/
  crash : Option String

structure RootReport where
  standing : Standing
  response : Option Response
deriving DecidableEq

structure ScopedReport where
  inside : Standing
  root : Option (Except Fault RootReport)
  response : Option Response

inductive Step where
  | control (c : Control)
  | setFsuid (uid : UInt32)
  | setFsgid (gid : UInt32)
  | setGroups (gids : List UInt32)
  | ensure
  | inspect
  | identity (user : String)
  | enter (p : Principal)
  | enterIdentity (i : Identity)
  | enterRoot
  | leave (place : Option Nat)
  | within (w : ScopedWork)
  | resolve (user : String) (gid : UInt32) (p : Path)
  | request (r : Request)
  | chown (p : Path) (uid gid : Option UInt32)
  | handle (e : Option Envelope) (r : Request)
  | dispatch (e : Option Envelope) (r : Request)
  | controlWorker (c : Control)
  | nodes (ps : List Path)

inductive Answer where
  | nothing
  | crashed (reason : String)
  | previous (r : Except Fault UInt32)
  | done (r : Except Fault Unit)
  | ensured (r : Except CapabilityError Unit)
  | inspected (r : Except CapabilityError CapabilityReport)
  | identity (r : Except IdentityError Identity)
  | entered (r : Except IdentityError IdentityScope)
  | enteredRoot (r : Except Fault RootScope)
  /-- The scope that was left, if there was one. -/
  | left (scope : Option OpenScope)
  | within (r : Except IdentityError ScopedReport)
  | resolved (r : Except GroupSearchError GroupMatch)
  | response (r : Response)
  | dispatched (r : Response)
  | nodes (ns : List (Option Node))

/-- A thread with its open scopes, beside a second thread in the same process. -/
structure Session where
  thread : Thread := {}
  worker : Thread := {}
  site : Site := {}
  gateway : Gateway := ⟨{}⟩
  /-- The scopes opened so far; the place of one that was left is empty. -/
  scopes : List (Option OpenScope) := []

namespace Session

open Program

variable (s : Session)

def run {α : Type} (x : Program α) : Outcome α × Session :=
  let (outcome, station) := x.run Station.answer ⟨s.thread, s.site⟩
  (outcome, { s with thread := station.thread, site := station.site })

def runWorker {α : Type} (x : Program α) : Outcome α × Session :=
  let (outcome, station) := x.run Station.answer ⟨s.worker, s.site⟩
  (outcome, { s with worker := station.thread, site := station.site })

def perform {α : Type} (answer : α → Answer) (x : Program α) : Answer × Session :=
  match s.run x with
  | (.finished a, s) => (answer a, s)
  | (.crashed reason, s) => (.crashed reason, s)

def opening {ε σ : Type} (answer : Except ε σ → Answer) (scope : σ → OpenScope)
    (x : Attempt ε σ) : Answer × Session :=
  match s.run x.run with
  | (.finished (.ok opened), s) =>
    (answer (.ok opened), { s with scopes := s.scopes ++ [some (scope opened)] })
  | (.finished (.error e), s) => (answer (.error e), s)
  | (.crashed reason, s) => (.crashed reason, s)

def trimScopes (scopes : List (Option OpenScope)) : List (Option OpenScope) :=
  (scopes.reverse.dropWhile (·.isNone)).reverse

def leave (place : Option Nat) : Answer × Session :=
  let place := place.getD (s.scopes.length - 1)
  match s.scopes[place]? with
  | some (some scope) =>
    let (_, s) := s.run scope.leave
    (.left (some scope), { s with scopes := trimScopes (s.scopes.set place none) })
  | _ => (.left none, { s with scopes := trimScopes s.scopes })

def standing : Program Standing := do
  return ⟨← ask .ids, ← ask .scopeFlags⟩

def performOptional : Option Request → Program (Option Response)
  | some r => do return some (← Program.perform r)
  | none => pure none

def requestAsRoot (r : Option Request) : Program RootReport := do
  let response ← performOptional r
  return ⟨← standing, response⟩

def scopedReport (w : ScopedWork) : Program ScopedReport := do
  let inside ← standing
  if w.asRoot then
    return ⟨inside, some (← (RootScope.within (requestAsRoot w.request)).run), none⟩
  else return ⟨inside, none, ← performOptional w.request⟩

def scopedWork (w : ScopedWork) : Program ScopedReport := do
  let report ← scopedReport w
  match w.crash with
  | some reason => crash reason
  | none => return report

/-- Serves a request on the second thread; a crash there is an input/output error. -/
def dispatch (e : Option Envelope) (r : Request) : Answer × Session :=
  match s.runWorker (s.gateway.handle e r) with
  | (.finished response, s) => (.dispatched response, s)
  | (.crashed _, s) => (.dispatched (.error .inputOutput), s)

def node? (p : Path) : Option Node :=
  match s.site.storage with
  | .tree t | .statOnly t => t.node? p
  | .mount .. => none

def controlThread (c : Control) : Session :=
  { s with thread := { s.thread with simulated := s.thread.simulated.apply c } }

def step : Step → Answer × Session
  | .control c => (.nothing, s.controlThread c)
  | .setFsuid uid => s.perform .previous (ask (.setFsuid uid))
  | .setFsgid gid => s.perform .previous (ask (.setFsgid gid))
  | .setGroups gids => s.perform .done (ask (.setGroups gids))
  | .ensure => s.perform .ensured Capability.ensure.run
  | .inspect => s.perform .inspected Capability.inspect.run
  | .identity user => s.perform .identity (Identity.resolve s.gateway.config user).run
  | .enter p =>
    s.opening .entered .identity (IdentityScope.enterPrincipal s.gateway.config p)
  | .enterIdentity i => s.opening .entered .identity (IdentityScope.enter i)
  | .enterRoot => s.opening .enteredRoot .root RootScope.enter
  | .leave place => s.leave place
  | .within w =>
    s.perform .within
      (IdentityScope.within (IdentityScope.enterPrincipal s.gateway.config w.principal)
        (scopedWork w)).run
  | .resolve user gid p => s.perform .resolved (GroupSearch.run user gid p).run
  | .request r => s.perform .response (Program.perform r)
  | .chown p uid gid => s.perform .done (setOwner p uid gid)
  | .handle e r => s.perform .response (s.gateway.handle e r)
  | .dispatch e r => s.dispatch e r
  | .controlWorker c =>
    (.nothing, { s with worker := { s.worker with simulated := s.worker.simulated.apply c } })
  | .nodes ps => (.nodes (ps.map s.node?), s)

def start (c : Config) : Outcome (Except StartError Gateway) × Session :=
  match s.run (Gateway.start c).run with
  | (.finished (.ok g), s) => (.finished (.ok g), { s with gateway := g })
  | r => r

/-- Leaves all scopes that are still open, the last first. -/
def close : Session :=
  s.scopes.reverse.foldl (fun s scope =>
    match scope with
    | some scope => (s.run scope.leave).2
    | none => s) { s with scopes := [] }

end Session

end Impersonation
