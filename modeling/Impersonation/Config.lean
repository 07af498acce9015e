import Impersonation.Errno

namespace Impersonation

inductive ConfigError where
  | invalidUmask (umask : UInt32)
  | rootUidAllowed
deriving DecidableEq

structure Config where
  minUid : UInt32 := 500
  minGid : UInt32 := 500
  /-- The umask of the process once the gateway has started. -/
  umask : Option UInt32 := none
  /-- Whether the daemon's own lookups see every existing file. -/
  clusterManager : Bool := false
  /-- Whether a refused operation is tried again with a further group. -/
  groupRetry : Bool := true
deriving DecidableEq

def octal (n : Nat) : String :=
  String.ofList (Nat.toDigits 8 n)

namespace ConfigError

def message : ConfigError → String
  | invalidUmask m => "umask 0o" ++ octal m.toNat ++ " is not a valid umask value"
  | rootUidAllowed => "min_uid must be non-zero; uid 0 can never be impersonated"

end ConfigError

inductive Setting where
  | minUid (uid : UInt32)
  | minGid (gid : UInt32)
  | umask (mask : UInt32)
  | clusterManager (on : Bool)
  | groupRetry (on : Bool)
deriving DecidableEq

namespace Config

def set (c : Config) : Setting → Config
  | .minUid uid => { c with minUid := uid }
  | .minGid gid => { c with minGid := gid }
  | .umask mask => { c with umask := some mask }
  | .clusterManager on => { c with clusterManager := on }
  | .groupRetry on => { c with groupRetry := on }

def ofSettings (settings : List Setting) : Config :=
  settings.foldl set {}

/-- A umask has permission bits only, and root may never be impersonated. -/
def validate (c : Config) : Except ConfigError Unit :=
  match c.umask with
  | some m =>
    if 0o777 < m then .error (.invalidUmask m)
    else if c.minUid = 0 then .error .rootUidAllowed
    else .ok ()
  | none => if c.minUid = 0 then .error .rootUidAllowed else .ok ()

theorem validate_ok_iff {c : Config} :
    c.validate = .ok () ↔ (∀ m, c.umask = some m → m ≤ 0o777) ∧ c.minUid ≠ 0 := by
  unfold validate
  cases hu : c.umask with
  | none => by_cases h0 : c.minUid = 0 <;> simp [h0]
  | some m =>
    by_cases hm : 0o777 < m
    · simp [hm, UInt32.not_le.mpr hm]
    · by_cases h0 : c.minUid = 0 <;> simp [hm, h0, UInt32.not_lt.mp hm]

end Config

end Impersonation
