import Impersonation.Tree

namespace Impersonation

/-- A place in the file system: the names that lead to it from the top. -/
abbrev Location := List Bytes

/-- The files and directories of a host; there are no links. -/
structure Filesystem where
  nodes : List (Location × Node)
  /-- Whether user id 0 may give nodes to other owners. -/
  mayGiveAway : Bool

def Mode.forMkdir : UInt32 := 0o1777

def Mode.setuid : UInt32 := 0o4000

def Mode.sticky : UInt32 := 0o1000

def Mode.groupSearch : UInt32 := 0o10

namespace Ids

def inGroup (who : Ids) (gid : UInt32) : Bool :=
  who.fsgid = gid || gid ∈ who.groups

end Ids

namespace Filesystem

def refuse {α : Type} (e : Errno) : Except Fault α :=
  .error (.os e)

variable (fs : Filesystem)

/-- A host with nothing but a directory and those above it, all of them the superuser's. -/
def ofDirectories (mayGiveAway : Bool) (l : Location) : Filesystem :=
  let dirs := (List.range (l.length + 1)).map l.take
  { nodes := dirs.map fun l => (l, .ofStat (Mode.directory ||| 0o755) 0 0), mayGiveAway }

def find? (l : Location) : Option Node :=
  fs.nodes.lookup l

def put (l : Location) (n : Node) : Filesystem :=
  { fs with nodes := (l, n) :: fs.nodes.filter (·.1 ≠ l) }

def erase (l : Location) : Filesystem :=
  { fs with nodes := fs.nodes.filter (·.1 ≠ l) }

def allows (who : Ids) (s : FileStat) (want : Access) : Bool :=
  let bits :=
    if who.fsuid = s.uid then s.mode >>> 6
    else if who.inGroup s.gid then s.mode >>> 3
    else s.mode
  who.fsuid = 0 || bits &&& want.bits = want.bits

def maxName : Nat := 255

def maxFile : Nat := 17592186040320

def offsetEnd : Nat := UInt64.size / 2

/-- The directory at a place, if the user gets through it to a name. -/
def through (who : Ids) (l : Location) (name : Bytes) : Except Fault Node :=
  match fs.find? l with
  | none => refuse .noEntry
  | some n =>
    if !n.stat.isDir then refuse .notDirectory
    else if !allows who n.stat .search then refuse .accessDenied
    else if maxName < name.length then refuse .nameTooLong
    else .ok n

def walk (who : Ids) : Location → List Bytes → Except Fault Node
  | l, [] =>
    match fs.find? l with
    | none => refuse .noEntry
    | some n => .ok n
  | l, name :: rest => do
    discard (fs.through who l name)
    walk who (l ++ [name]) rest

def reach (who : Ids) (l : Location) : Except Fault Node :=
  fs.walk who [] l

def entry (who : Ids) (l : Location) : Except Fault (Node × Option Node) := do
  match l.getLast? with
  | none => refuse .isDirectory
  | some name =>
    discard (fs.walk who [] l.dropLast)
    let above ← fs.through who l.dropLast name
    return (above, fs.find? l)

def isEmpty (l : Location) : Bool :=
  fs.nodes.all fun (m, _) => !(l.isPrefixOf m && m.length = l.length + 1)

def stat (who : Ids) (l : Location) : Except Fault FileStat := do
  let n ← fs.reach who l
  return { n.stat with size := if n.stat.isDir then 4096 else n.data.length }

/-- Whether a mode has both bits that give an executable its group. -/
def runsAsGroup (mode : UInt32) : Bool :=
  mode &&& (Mode.setgid ||| Mode.groupSearch) = Mode.setgid ||| Mode.groupSearch

/-- A new node, with the group handed down by a set-group-id directory. -/
def newNode (who : Ids) (above : FileStat) (kind mode : UInt32) : Node :=
  if !above.isSetgid then .ofStat (kind ||| mode) who.fsuid who.fsgid
  else if kind = Mode.directory then
    .ofStat (kind ||| mode ||| Mode.setgid) who.fsuid above.gid
  else
    let keeps := !runsAsGroup mode || who.inGroup above.gid || who.fsuid = 0
    .ofStat (kind ||| (if keeps then mode else mode &&& ~~~Mode.setgid)) who.fsuid above.gid

def make (who : Ids) (l : Location) (kind mode : UInt32) : Except Fault Filesystem := do
  if l = [] then refuse .fileExists
  let (above, existing) ← fs.entry who l
  if existing.isSome then refuse .fileExists
  if !allows who above.stat .change then refuse .accessDenied
  return fs.put l (newNode who above.stat kind mode)

/-- Whether a sticky directory keeps a user from taking out a node. -/
def isPinned (who : Ids) (above n : FileStat) : Bool :=
  above.mode &&& Mode.sticky ≠ 0 && who.fsuid ≠ 0 && who.fsuid ≠ n.uid && who.fsuid ≠ above.uid

def removable (who : Ids) (l : Location) : Except Fault (Node × Node) := do
  let (above, existing) ← fs.entry who l
  match existing with
  | none => refuse .noEntry
  | some n =>
    if !allows who above.stat .change then refuse .accessDenied
    else if isPinned who above.stat n.stat then refuse .notPermitted
    else return (above, n)

def rmdir (who : Ids) (l : Location) : Except Fault Filesystem := do
  let (_, n) ← fs.removable who l
  if !n.stat.isDir then refuse .notDirectory
  if !fs.isEmpty l then refuse .notEmpty
  return fs.erase l

def unlink (who : Ids) (l : Location) : Except Fault Filesystem := do
  let (_, n) ← fs.removable who l
  if n.stat.isDir then refuse .isDirectory
  return fs.erase l

def move (source target : Location) : Filesystem :=
  { fs with
    nodes := (fs.nodes.filter (·.1 ≠ target)).map fun (l, n) =>
      if source.isPrefixOf l then (target ++ l.drop source.length, n) else (l, n) }

def checkReplace (target : Location) (moved there : FileStat) : Except Fault Unit := do
  if moved.isDir && !there.isDir then refuse .notDirectory
  if !moved.isDir && there.isDir then refuse .isDirectory
  if there.isDir && !fs.isEmpty target then refuse .notEmpty

def rename (who : Ids) (source target : Location) : Except Fault Filesystem := do
  let (_, moving) ← fs.entry who source
  let (above, existing) ← fs.entry who target
  match moving with
  | none => refuse .noEntry
  | some n =>
    if source = target then return fs
    if source.isPrefixOf target then refuse .invalidArgument
    if target.isPrefixOf source then refuse .notEmpty
    discard (fs.removable who source)
    match existing with
    | none => if !allows who above.stat .change then refuse .accessDenied
    | some there =>
      discard (fs.removable who target)
      fs.checkReplace target n.stat there.stat
    let sideways := source.dropLast ≠ target.dropLast
    if n.stat.isDir && sideways && !allows who n.stat .write then refuse .accessDenied
    return fs.move source target

def writable (who : Ids) (l : Location) : Except Fault Node := do
  let n ← fs.reach who l
  if n.stat.isDir then refuse .isDirectory
  if !allows who n.stat .write then refuse .accessDenied
  return n

def truncate (who : Ids) (l : Location) (size : Nat) : Except Fault Filesystem := do
  let n ← fs.writable who l
  if offsetEnd ≤ size then
    .error (.other "out of range integral type conversion attempted")
  if maxFile < size then refuse .fileTooLarge
  let data := n.data.take size ++ List.replicate (size - n.data.length) 0
  return fs.put l { n with data }

def withoutIdBits (s : FileStat) : FileStat :=
  if s.isDir then s
  else
    { s with mode :=
        s.mode &&& ~~~(if runsAsGroup s.mode then Mode.setuid ||| Mode.setgid else Mode.setuid) }

def chmod (who : Ids) (l : Location) (mode : UInt32) : Except Fault Filesystem := do
  let n ← fs.reach who l
  if who.fsuid ≠ 0 && who.fsuid ≠ n.stat.uid then refuse .notPermitted
  let bits := mode &&& Mode.permissions
  let keeps := who.fsuid = 0 || who.inGroup n.stat.gid
  let mode := n.stat.mode &&& Mode.kindMask |||
    (if keeps then bits else bits &&& ~~~Mode.setgid)
  return fs.put l { n with stat := { n.stat with mode } }

/-- Owners keep their nodes and may hand them to groups of their own; all else takes the privilege
to give nodes away. -/
def mayChown (who : Ids) (s : FileStat) (uid gid : Option UInt32) : Bool :=
  (who.fsuid = 0 && fs.mayGiveAway) ||
    ((uid.isNone && gid.isNone) ||
      (s.uid = who.fsuid && uid.all (· = s.uid) && gid.all (fun g => g = s.gid || who.inGroup g)))

def chown (who : Ids) (l : Location) (uid gid : Option UInt32) : Except Fault Filesystem := do
  let n ← fs.reach who l
  if !fs.mayChown who n.stat uid gid then refuse .notPermitted
  let stat := { n.stat with uid := uid.getD n.stat.uid, gid := gid.getD n.stat.gid }
  return fs.put l { n with stat := withoutIdBits stat }

def readDir (who : Ids) (l : Location) : Except Fault (List String) := do
  let n ← fs.reach who l
  if !n.stat.isDir then refuse .notDirectory
  if !allows who n.stat .list then refuse .accessDenied
  let below := fs.nodes.filterMap fun (m, _) =>
    if m.dropLast = l then m.getLast?.map Bytes.lossy else none
  return below.mergeSort fun a b => !(b < a)

def read (who : Ids) (l : Location) (offset size : Nat) : Except Fault Bytes := do
  let n ← fs.reach who l
  if !allows who n.stat .list then refuse .accessDenied
  if offsetEnd ≤ offset + size then refuse .invalidArgument
  if n.stat.isDir then refuse .isDirectory
  return (n.data.drop offset).take size

def write (who : Ids) (l : Location) (offset : Nat) (data : Bytes) :
    Except Fault (Nat × Filesystem) := do
  let n ← fs.writable who l
  if offsetEnd ≤ offset + data.length then refuse .invalidArgument
  if data = [] then return (0, fs)
  if maxFile < offset + data.length then refuse .fileTooLarge
  let stat := if who.fsuid = 0 then n.stat else withoutIdBits n.stat
  return (data.length, fs.put l { stat, data := Tree.overwrite n.data offset data })

def follow (who : Ids) : Location → List Bytes → Except Fault Location
  | l, [] => do
    discard (fs.reach who l)
    return l
  | l, s :: rest => do
    discard (fs.through who l s)
    if s = Path.dot then follow who l rest
    else if s = Path.dotDot then follow who l.dropLast rest
    else follow who (l ++ [s]) rest

/-- The path of an existing place without `.`, `..` and needless slashes. -/
def canonical (who : Ids) (p : Path) : Except Fault Path := do
  match ← fs.follow who [] p.segments with
  | [] => return .root
  | l => return ⟨l.flatMap (slash :: ·)⟩

end Filesystem

end Impersonation
