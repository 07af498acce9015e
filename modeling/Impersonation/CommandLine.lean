import Impersonation.Arguments
import Impersonation.Config

namespace Impersonation

inductive Command where
  | caps (json : Bool)
  | identity (user : String) (json : Bool)
  | resolve (user : String) (path : Path) (gid : Option UInt32) (json : Bool)
  | stat (user : String) (path root : Path) (json : Bool)
deriving DecidableEq

/-- A command with the lowest ids that may be impersonated. -/
structure CommandLine where
  minUid : UInt32 := 500
  minGid : UInt32 := 500
  command : Command
deriving DecidableEq

namespace CommandLine

open Arguments

def config (c : CommandLine) : Config :=
  Config.ofSettings [.minUid c.minUid, .minGid c.minGid]

inductive CommandName where
  | caps
  | identity
  | resolve
  | stat
deriving DecidableEq

def CommandName.text : CommandName → String
  | caps => "caps"
  | identity => "identity"
  | resolve => "resolve"
  | stat => "stat"

inductive Argument where
  | minUid
  | minGid
  | gid
  | root
  | json
  | user
  | path
deriving DecidableEq

namespace Argument

def name : Argument → String
  | minUid => "min-uid"
  | minGid => "min-gid"
  | gid => "gid"
  | root => "root"
  | json => "json"
  | user => "user"
  | path => "path"

def kind : Argument → Kind
  | minUid | minGid | gid => .id
  | root | path => .path
  | json => .switch
  | user => .text

def default : (a : Argument) → Option a.kind.Value
  | minUid | minGid => some (500 : UInt32)
  | json => some false
  | gid | root | user | path => none

end Argument

namespace CommandName

def options : CommandName → List Argument
  | caps | identity => [.json]
  | resolve => [.gid, .json]
  | stat => [.root, .json]

def operands : CommandName → List Argument
  | caps => []
  | identity => [.user]
  | resolve | stat => [.user, .path]

def required : CommandName → List Argument
  | stat => [.user, .path, .root]
  | c => c.operands

end CommandName

def declaration : Declaration CommandName Argument where
  commands := [.caps, .identity, .resolve, .stat]
  commandName := CommandName.text
  name := Argument.name
  kind := Argument.kind
  default := Argument.default
  globals := [.minUid, .minGid]
  options := CommandName.options
  operands := CommandName.operands
  required := CommandName.required
  complete c := by cases c <;> decide
  commandName_injective c c' h := by cases c <;> cases c' <;> first | rfl | exact absurd h (by decide)
  commandName_plain c := by cases c <;> decide
  commandName_ne_help c := by cases c <;> decide
  name_injective a a' h := by cases a <;> cases a' <;> first | rfl | exact absurd h (by decide)
  name_ne_nil a := by cases a <;> decide
  name_free a := by cases a <;> decide
  name_ne_help a := by cases a <;> decide
  name_ne_version a := by cases a <;> decide
  required_own c := by cases c <;> decide

def commandOf? (name : CommandName) (v : declaration.Values) : Option Command :=
  match name, v .json, v .user, v .path, v .root with
  | .caps, some json, _, _, _ => some (.caps json)
  | .identity, some json, some user, _, _ => some (.identity user json)
  | .resolve, some json, some user, some path, _ => some (.resolve user path (v .gid) json)
  | .stat, some json, some user, some path, some root => some (.stat user path root json)
  | _, _, _, _, _ => none

def ofMatches (m : declaration.Matches) : Except UsageError CommandLine :=
  match m.values .minUid, m.values .minGid, commandOf? m.command m.values with
  | some minUid, some minGid, some command => .ok { minUid, minGid, command }
  | _, _, _ => .error .missingArgument

/-- The command line that words give, by a parser of the declared arguments. -/
def readBy (parse : List Bytes → Except UsageError declaration.Matches) (words : List Bytes) :
    Except UsageError CommandLine :=
  parse words >>= ofMatches

def read (words : List String) : Except UsageError CommandLine :=
  readBy declaration.parse (words.map Bytes.ofString)

end CommandLine

end Impersonation
