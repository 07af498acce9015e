import Impersonation.Config
import Impersonation.Json.Record

namespace Impersonation.Config

open Json

inductive Field where
  | minUid
  | minGid
  | umask
  | clusterManager
  | groupRetry
deriving DecidableEq

namespace Field

def all : List Field := [minUid, minGid, umask, clusterManager, groupRetry]

def key : Field → String
  | minUid => "min_uid"
  | minGid => "min_gid"
  | umask => "umask"
  | clusterManager => "cluster_manager"
  | groupRetry => "supplementary_group_retry"

def type : Field → ValueType
  | minUid | minGid => .word
  | umask => .wordOrNull
  | clusterManager | groupRetry => .bool

def default : (f : Field) → f.type.Carrier
  | minUid => ({} : Config).minUid
  | minGid => ({} : Config).minGid
  | umask => ({} : Config).umask
  | clusterManager => ({} : Config).clusterManager
  | groupRetry => ({} : Config).groupRetry

theorem key_injective (f g : Field) (h : f.key = g.key) : f = g := by
  cases f <;> cases g <;> first | rfl | exact absurd h (by decide)

end Field

/-- The settings as a record that a text can give. -/
def schema : Schema Field where
  members := Field.all
  key := Field.key
  type := Field.type
  default := Field.default
  complete f := by cases f <;> decide
  distinct := by decide
  key_injective := Field.key_injective

def ofRecord (r : schema.Record) : Config where
  minUid := r .minUid
  minGid := r .minGid
  umask := r .umask
  clusterManager := r .clusterManager
  groupRetry := r .groupRetry

/-- The settings that a text gives, by a reader of the record. -/
def readBy {ε : Type} (reader : Bytes → Except ε schema.Record) (text : Bytes) : Except ε Config :=
  (reader text).map ofRecord

def read (text : Bytes) : Except ReadError Config :=
  readBy schema.read text

end Impersonation.Config
