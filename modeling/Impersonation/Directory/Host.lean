import Impersonation.Directory
import Impersonation.Errno

namespace Impersonation

/-- What a call for a group list leaves behind. -/
structure GroupListCall where
  fitted : Bool
  buffer : List UInt32
  /-- The length of the list, written whether it fitted or not. -/
  count : Nat
deriving DecidableEq

def GroupListCall.list? (c : GroupListCall) : Option (List UInt32) :=
  if c.fitted then some (c.buffer.take c.count) else none

/-- A system's call for the groups of a name, led by the given one. It may fill as much of the buffer
as it is told there is room. -/
abbrev GroupLister :=
  (name : String) → (primary : UInt32) → (buffer : List UInt32) → (room : Nat) → GroupListCall

namespace GroupList

def fill (groups buffer : List UInt32) (room : Nat) : GroupListCall :=
  { fitted := groups.length ≤ room
    buffer := groups.take room ++ buffer.drop (min room groups.length)
    count := groups.length }

def initialLength : Nat := 16

/-- A buffer of another length: cut off, or filled up with zeros. -/
def resize (buffer : List UInt32) (length : Nat) : List UInt32 :=
  buffer.take length ++ List.replicate (length - buffer.length) 0

/-- Fetches a group list. `call n` is call number `n`, which is given a buffer and the room in it; the
second component counts the calls. -/
def fetch (call : Nat → List UInt32 → Nat → GroupListCall) :
    Except Fault (List UInt32) × Nat :=
  let first := call 0 (List.replicate initialLength 0) initialLength
  match first.list? with
  | some groups => (.ok groups, 1)
  | none =>
    if first.buffer.length < first.count then
      match (call 1 (resize first.buffer first.count) first.count).list? with
      | some groups => (.ok groups, 2)
      | none => (.error (.os .inputOutput), 2)
    else (.error (.os .inputOutput), 1)

end GroupList

structure HostDatabase where
  users : List (String × UserEntry)
  /-- The groups that list a user as a further member. -/
  memberOf : String → List UInt32

namespace HostDatabase

/-- Whether a name can be handed to the system at all. -/
def isPlain (name : String) : Bool :=
  !name.toList.contains '\x00'

def find? (h : HostDatabase) (name : String) : Option UserEntry :=
  if isPlain name then h.users.lookup name else none

/-- The groups of a name as the system's calls list them. The second component counts the calls. -/
def groupsBy (call : Nat → GroupLister) (name : String) (primary : UInt32) :
    Except Fault (List UInt32) × Nat :=
  if isPlain name then GroupList.fetch fun n => call n name primary
  else (.error (.os .invalidArgument), 0)

def lister (h : HostDatabase) : GroupLister :=
  fun name primary => GroupList.fill (ledBy primary (h.memberOf name))

/-- The groups of a name, led by the given one. -/
def groupsOf (h : HostDatabase) (name : String) (primary : UInt32) :
    Except Fault (List UInt32) :=
  (groupsBy (fun _ => h.lister) name primary).1

/-- A host that knows its superuser and the user who owns nothing. -/
def minimal : HostDatabase :=
  { users := [("root", ⟨0, 0⟩), ("nobody", ⟨65534, 65534⟩)]
    memberOf := fun _ => [] }

end HostDatabase

end Impersonation
