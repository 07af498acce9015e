import Impersonation.Errno
import Impersonation.Outcome
import Impersonation.Path

namespace Impersonation

namespace Mode

/-- The bit that hands a directory's group down to what is made in it. -/
def setgid : UInt32 := 0o2000

def permissions : UInt32 := 0o7777

/-- The permission bits that a umask can take away. -/
def maskable : UInt32 := 0o777

/-- The bits that tell the kind of a node. -/
def kindMask : UInt32 := 0o170000

def directory : UInt32 := 0o040000

def regular : UInt32 := 0o100000

end Mode

/-- What is known of a node: mode, owner, group, and length in bytes. -/
structure FileStat where
  mode : UInt32
  uid : UInt32
  gid : UInt32
  size : Nat
deriving DecidableEq

namespace FileStat

def isSetgid (s : FileStat) : Bool :=
  s.mode &&& Mode.setgid ≠ 0

def isDir (s : FileStat) : Bool :=
  s.mode &&& Mode.kindMask = Mode.directory

end FileStat

inductive Request where
  | stat (path : Path)
  | mkdir (path : Path) (mode : UInt32)
  | create (path : Path) (mode : UInt32)
  | rmdir (path : Path)
  | unlink (path : Path)
  | rename (source target : Path)
  | truncate (path : Path) (size : UInt64)
  | chmod (path : Path) (mode : UInt32)
  | readDir (path : Path)
  | read (path : Path) (offset : UInt64) (size : UInt32)
  | write (path : Path) (offset : UInt64) (data : Bytes)
deriving DecidableEq

namespace Request

/-- The path that decides about access; for a renaming it is the source. -/
def path : Request → Path
  | stat p | mkdir p _ | create p _ | rmdir p | unlink p | rename p _ | truncate p _ | chmod p _
  | readDir p | read p _ _ | write p _ _ => p

def createsNode : Request → Bool
  | mkdir .. | create .. => true
  | _ => false

def isStat : Request → Bool
  | stat _ => true
  | _ => false

def opName : Request → String
  | stat _ => "stat"
  | mkdir .. => "mkdir"
  | create .. => "create"
  | rmdir _ => "rmdir"
  | unlink _ => "unlink"
  | rename .. => "rename"
  | truncate .. => "truncate"
  | chmod .. => "chmod"
  | readDir _ => "readdir"
  | read .. => "read"
  | write .. => "write"

end Request

inductive Response where
  | ok
  | attr (stat : FileStat)
  | entries (names : List String)
  | data (bytes : Bytes)
  | written (count : Nat)
  | error (errno : Errno)
deriving DecidableEq

namespace Response

def ofFault (f : Fault) : Response :=
  error f.errno

def ofResult : Except Fault Response → Response
  | .ok r => r
  | .error f => ofFault f

def errno? : Response → Option Errno
  | error e => some e
  | _ => none

def isOk (r : Response) : Bool :=
  r.errno?.isNone

/-- The result code of a response: zero, or the number of the failure turned around. The least
number has no opposite. -/
def code (r : Response) : Outcome Int32 :=
  match r.errno? with
  | none => .finished 0
  | some e =>
    if e = Int32.minValue then .crashed "attempt to negate with overflow" else .finished (-e)

def denied : Response :=
  error .accessDenied

end Response

end Impersonation
