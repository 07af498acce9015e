import Impersonation.CommandLine
import Impersonation.Gateway
import Impersonation.Json.Printer
import Impersonation.World

namespace Impersonation

abbrev Causes := List String

namespace Causes

def message (cs : Causes) : String :=
  ": ".intercalate cs

def ofCapabilities (e : CapabilityError) : Causes :=
  e.message ::
    match e with
    | .query f | .raise _ f => [f.message]
    | .notPermitted _ | .disabled => []

def ofStart (e : StartError) : Causes :=
  e.message ::
    match e with
    | .config cause => [cause.message]
    | .capabilities cause => ofCapabilities cause

end Causes

namespace Report

def column (width : Nat) (s : String) : String :=
  s ++ String.ofList (List.replicate (width - s.length) ' ')

def row (cells : List (Nat × String)) : String :=
  " ".intercalate (cells.map fun (width, s) => column width s)

def rule (width : Nat) : String :=
  String.ofList (List.replicate width '-')

def lines (ls : List String) : String :=
  String.join (ls.map (· ++ "\n"))

def yesNo (b : Bool) : String :=
  if b then "yes" else "no"

structure Host where
  filesystem : Filesystem
  users : HostDatabase := .minimal

namespace Host

def station (h : Host) (root : Path) : Station :=
  { site :=
      { credentials := .kernel
        users := .host h.users
        storage := .mount ⟨root⟩ h.filesystem } }

/-- What a program on the host comes to. A crash is reported by its reason. -/
def run {α : Type} (h : Host) (root : Path) (x : Attempt Causes α) : Except Causes α :=
  match (x.run.run Station.answer (h.station root)).1 with
  | .finished r => r
  | .crashed reason => .error [reason]

end Host

open Program

def capsTable (ids : Ids) (r : CapabilityReport) : String :=
  lines [
    row [(12, "CAPABILITY"), (10, "PERMITTED"), (10, "EFFECTIVE")],
    rule 34,
    row [(12, Capability.setuid.name), (10, yesNo r.setuidPermitted),
      (10, yesNo r.setuidEffective)],
    row [(12, Capability.setgid.name), (10, yesNo r.setgidPermitted),
      (10, yesNo r.setgidEffective)],
    "",
    "fsuid=" ++ toString ids.fsuid ++ " fsgid=" ++ toString ids.fsgid,
    "impersonation: " ++ if r.isPermitted then "available" else "disabled"]

def capsObject (ids : Ids) (r : CapabilityReport) : String :=
  lines [Json.printObject [
    ("fsuid", .number ids.fsuid.toNat),
    ("fsgid", .number ids.fsgid.toNat),
    ("setuid_permitted", .bool r.setuidPermitted),
    ("setuid_effective", .bool r.setuidEffective),
    ("setgid_permitted", .bool r.setgidPermitted),
    ("setgid_effective", .bool r.setgidEffective),
    ("can_impersonate", .bool r.isPermitted)]]

def caps (json : Bool) : Attempt Causes String := do
  let r ← Capability.inspect.adapt fun e =>
    "reading thread capabilities" :: Causes.ofCapabilities e
  let ids ← ask .ids
  return if json then capsObject ids r else capsTable ids r

def lookUp (user : String) : Attempt Causes UserEntry := do
  match ← ask (.findUser user) with
  | .error f => throw ["looking up " ++ user, f.message]
  | .ok none => throw ["no such user: " ++ user]
  | .ok (some entry) => return entry

/-- A user, and why the user may not be impersonated. -/
structure UserReport where
  user : String
  entry : UserEntry
  groups : List UInt32
  reason : Option String

def UserReport.table (r : UserReport) : String :=
  lines [
    "user:     " ++ r.user,
    "uid:      " ++ toString r.entry.uid,
    "gid:      " ++ toString r.entry.gid,
    "groups:   " ++ ",".intercalate (r.groups.map toString),
    match r.reason with
    | none => "policy:   accepted"
    | some reason => "policy:   rejected (" ++ reason ++ ")"]

def UserReport.object (r : UserReport) : String :=
  lines [Json.printObject [
    ("user", .text r.user),
    ("uid", .number r.entry.uid.toNat),
    ("gid", .number r.entry.gid.toNat),
    ("groups", .numbers (r.groups.map (·.toNat))),
    ("accepted", .bool r.reason.isNone),
    ("reason", .ofText? r.reason)]]

def refusal? : Except IdentityError Identity → Option String
  | .ok _ => none
  | .error e => some e.message

def identity (c : Config) (user : String) (json : Bool) : Attempt Causes String := do
  let entry ← lookUp user
  match ← ask (.listGroups user entry.gid) with
  | .error f => throw ["listing groups of " ++ user, f.message]
  | .ok groups =>
    let resolved ← (Identity.resolve c user).run
    let r : UserReport := { user, entry, groups, reason := refusal? resolved }
    return if json then r.object else r.table

structure GroupReport where
  user : String
  path : Path
  primary : UInt32
  result : Except GroupSearchError GroupMatch

namespace GroupReport

def error? (r : GroupReport) : Option String :=
  match r.result with
  | .ok _ => none
  | .error e => some (e.message ++ " (" ++ e.kind ++ ")")

def table (r : GroupReport) : String :=
  match r.result with
  | .ok m =>
    lines ["group:    " ++ toString m.gid, "node:     " ++ m.governing.text,
      "setgid:   " ++ yesNo m.stickyGid]
  | .error _ => lines ["no group: " ++ r.error?.getD ""]

def object (r : GroupReport) : String :=
  let found := r.result.toOption
  lines [Json.printObject [
    ("user", .text r.user),
    ("path", .text r.path.text),
    ("primary_gid", .number r.primary.toNat),
    ("gid", .ofNumber? (found.map (·.gid))),
    ("sticky_gid", .bool (found.any (·.stickyGid))),
    ("governing", .ofText? (found.map (·.governing.text))),
    ("error", .ofText? r.error?)]]

end GroupReport

/-- The group that would let a user through to a path of the host. -/
def resolve (user : String) (path : Path) (gid : Option UInt32) (json : Bool) :
    Attempt Causes String := do
  let primary ←
    match gid with
    | some gid => pure gid
    | none => do pure (← lookUp user).gid
  let result ← (GroupSearch.run user primary path).run
  let r : GroupReport := { user, path, primary, result }
  return if json then r.object else r.table

structure FileReport where
  user : String
  path : Path
  stat : FileStat

namespace FileReport

def mode (r : FileReport) : String :=
  octal r.stat.mode.toNat

def table (r : FileReport) : String :=
  let widths := [30, 8, 8, 8, 10]
  lines [
    row (widths.zip ["PATH", "MODE", "UID", "GID", "SIZE"]),
    rule 68,
    row (widths.zip [r.path.text, r.mode, toString r.stat.uid, toString r.stat.gid,
      toString r.stat.size])]

def object (r : FileReport) : String :=
  lines [Json.printObject [
    ("user", .text r.user),
    ("path", .text r.path.text),
    ("mode", .text r.mode),
    ("uid", .number r.stat.uid.toNat),
    ("gid", .number r.stat.gid.toNat),
    ("size", .number r.stat.size)]]

end FileReport

def localClient (user : String) : Envelope :=
  ⟨some { protocol := "unix", name := some user }⟩

def stat (c : Config) (user : String) (path : Path) (json : Bool) : Attempt Causes String := do
  let g ← (Gateway.start c).adapt fun e => "starting gateway" :: Causes.ofStart e
  match ← g.handle (some (localClient user)) (.stat path) with
  | .attr stat =>
    let r : FileReport := { user, path, stat }
    return if json then r.object else r.table
  | .error e =>
    throw ["stat " ++ path.text ++ " as " ++ user ++ " failed: " ++ (Fault.os e).message]
  | _ => throw ["unexpected response"]

def ofCommand (h : Host) (c : CommandLine) : Except Causes String :=
  match c.command with
  | .caps json => h.run .root (caps json)
  | .identity user json => h.run .root (identity c.config user json)
  | .resolve user path gid json => h.run .root (resolve user path gid json)
  | .stat user path root json =>
    match h.filesystem.canonical KernelThread.fresh.ids root with
    | .error f => .error ["resolving root " ++ root.text, f.message]
    | .ok root => h.run root (stat c.config user path json)

end Report

end Impersonation
