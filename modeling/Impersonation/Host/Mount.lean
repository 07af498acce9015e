import Impersonation.Host.Filesystem

namespace Impersonation

/-- A directory of the host that serves requests. -/
structure Mount where
  root : Path

namespace Mount

def join (base name : Bytes) : Bytes :=
  if base = [] ∨ base.getLast? = some slash then base ++ name else base ++ slash :: name

/-- Continues a host path by the components of a request path. -/
def extend (base : Bytes) : List Component → Except Fault Bytes
  | [] => .ok base
  | .name s :: rest => extend (join base s) rest
  | .root :: rest | .here :: rest => extend base rest
  | .up :: _ => .error (.os .invalidArgument)

def resolve (m : Mount) (p : Path) : Except Fault Path :=
  (extend m.root.bytes p.components).map Path.mk

def nulFault : Fault :=
  .other "file name contained an unexpected NUL byte"

/-- The length of path at which the system stops reading. -/
def maxPath : Nat := 4096

/-- The place that a host path names. `nul` is the failure of one that holds a zero byte. -/
def locate (nul : Fault) (p : Path) : Except Fault Location :=
  if 0 ∈ p.bytes then .error nul
  else if maxPath ≤ p.bytes.length then .error (.os .nameTooLong)
  else .ok (p.segments.filter (· ≠ Path.dot))

def place (m : Mount) (p : Path) (nul : Fault := nulFault) : Except Fault Location := do
  locate nul (← m.resolve p)

def answered (fs : Filesystem) : Except Fault Filesystem → Response × Filesystem
  | .ok next => (.ok, next)
  | .error f => (.ofFault f, fs)

variable (m : Mount) (fs : Filesystem) (umask : UInt32) (who : Ids)

def stat (p : Path) : Except Fault FileStat := do
  fs.stat who (← m.place p)

def chown (p : Path) (uid gid : Option UInt32) : Except Fault Filesystem := do
  let given (id : Option UInt32) := id.filter (· ≠ 4294967295)
  fs.chown who (← m.place p (.os .invalidArgument)) (given uid) (given gid)

def places (source target : Path) : Except Fault (Location × Location) := do
  let source ← m.resolve source
  let target ← m.resolve target
  return (← locate nulFault source, ← locate nulFault target)

def write (p : Path) (offset : UInt64) (data : Bytes) : Except Fault (Nat × Filesystem) := do
  fs.write who (← m.place p) offset.toNat data

def perform : Request → Response × Filesystem
  | .stat p => (.ofResult ((m.stat fs who p).map .attr), fs)
  | .mkdir p mode => answered fs do
    fs.make who (← m.place p) Mode.directory (mode &&& Mode.forMkdir &&& ~~~umask)
  | .create p mode => answered fs do
    fs.make who (← m.place p) Mode.regular (mode &&& Mode.permissions &&& ~~~umask)
  | .rmdir p => answered fs do fs.rmdir who (← m.place p)
  | .unlink p => answered fs do fs.unlink who (← m.place p)
  | .rename source target => answered fs do
    let (source, target) ← m.places source target
    fs.rename who source target
  | .truncate p size => answered fs do fs.truncate who (← m.place p) size.toNat
  | .chmod p mode => answered fs do fs.chmod who (← m.place p) mode
  | .readDir p =>
    (.ofResult ((do fs.readDir who (← m.place p) : Except Fault _).map .entries), fs)
  | .read p offset size =>
    (.ofResult ((do fs.read who (← m.place p) offset.toNat size.toNat : Except Fault _).map .data),
      fs)
  | .write p offset data =>
    match m.write fs who p offset data with
    | .ok (count, next) => (.written count, next)
    | .error f => (.ofFault f, fs)

end Mount

end Impersonation
