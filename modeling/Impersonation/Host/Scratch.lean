import Impersonation.Host.Filesystem

namespace Impersonation

structure Seed where
  isDir : Bool
  path : Path
  uid : UInt32
  gid : UInt32
  mode : UInt32
  data : Bytes := []

inductive SeedError where
  | create (fault : Fault)
  | chown (fault : Fault)
  | chmod (fault : Fault)

namespace Filesystem

def superuser : Ids := {}

def create (fs : Filesystem) (l : Location) (s : Seed) : Except Fault Filesystem := do
  if s.isDir then fs.make superuser l Mode.directory 0o700
  else
    let fs ← fs.make superuser l Mode.regular 0o600
    return (← fs.write superuser l 0 s.data).2

/-- Makes one node below a directory; the directory itself is there already. -/
def seed (fs : Filesystem) (top : Location) (s : Seed) : Except SeedError Filesystem := do
  let l := top ++ s.path.segments.filter (· ≠ Path.dot)
  let fs ← if l = top then pure fs else (fs.create l s).mapError .create
  let fs ← (fs.chown superuser l (some s.uid) (some s.gid)).mapError .chown
  (fs.chmod superuser l s.mode).mapError .chmod

def seeds (fs : Filesystem) (top : Location) (ss : List Seed) : Except SeedError Filesystem :=
  ss.foldlM (fun fs s => fs.seed top s) fs

end Filesystem

end Impersonation
