import Impersonation.Scope

namespace Impersonation

open Program

inductive GroupSearchError where
  | noMatch (governing : Path) (gid : UInt32)
  | invalidPath (path : Path)
  | probe (path : Path) (fault : Fault)
  | rootSwitch (fault : Fault)
  | groupLookup (user : String) (fault : Fault)
deriving DecidableEq

namespace GroupSearchError

def message : GroupSearchError → String
  | noMatch p gid => "no group of the user owns " ++ p.text ++ " (group " ++ toString gid ++ ")"
  | invalidPath p => "no existing ancestor for " ++ p.text
  | probe p f => "stat of " ++ p.text ++ " failed: " ++ f.message
  | rootSwitch f => "failed to switch fsuid to root for probing: " ++ f.message
  | groupLookup user f =>
    "failure looking up supplementary groups for " ++ user ++ ": " ++ f.message

def errno : GroupSearchError → Errno
  | noMatch .. | rootSwitch _ => .accessDenied
  | invalidPath _ => .invalidArgument
  | probe _ f => f.errno
  | groupLookup .. => .inputOutput

def kind : GroupSearchError → String
  | noMatch .. | rootSwitch _ => "no-match"
  | invalidPath _ => "invalid-path"
  | probe .. | groupLookup .. => "io-error"

end GroupSearchError

structure GroupMatch where
  gid : UInt32
  /-- New nodes take the group by themselves. -/
  stickyGid : Bool
  governing : Path
  /-- How many paths below the governing one do not exist. -/
  steps : Nat
deriving DecidableEq

namespace GroupSearch

/-- The first of the paths that exists, after `steps` that do not. `target` is the path searched
for. -/
def firstExisting (target : Path) :
    List Path → Nat → Attempt GroupSearchError (Path × FileStat × Nat)
  | [], _ => throw (.invalidPath target)
  | p :: above, steps => do
    match ← probe p with
    | .ok stat => return (p, stat, steps)
    | .error f =>
      if f.isNotFound then firstExisting target above (steps + 1)
      else throw (.probe p f)

/-- The nearest existing node at or above a path, looked for with user id 0. -/
def nearestExisting (p : Path) : Attempt GroupSearchError (Path × FileStat × Nat) := do
  match ← (RootScope.within (firstExisting p p.ancestors 0).run).run with
  | .ok found => liftExcept found
  | .error f => throw (.rootSwitch f)

/-- Searches the group of a user, whose primary group is given, for a path. Nothing above the nearest
existing node is considered. -/
def run (user : String) (primary : UInt32) (p : Path) :
    Attempt GroupSearchError GroupMatch := do
  let (governing, stat, steps) ← nearestExisting p
  match ← ask (.listGroups user primary) with
  | .error f => throw (.groupLookup user f)
  | .ok groups =>
    if stat.gid ∈ groups then
      return { gid := stat.gid, stickyGid := stat.isSetgid, governing, steps }
    else throw (.noMatch governing stat.gid)

end GroupSearch

end Impersonation
