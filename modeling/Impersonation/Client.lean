namespace Impersonation

structure Client where
  protocol : String
  name : Option String := none
  vorg : Option String := none
  /-- Further facts; of two with one key the later counts. -/
  attributes : List (String × String) := []
deriving DecidableEq

inductive Principal where
  | anonymous
  | user (name : String)
deriving DecidableEq

namespace Client

def requestName : String := "request.name"

/-- The attribute that tells whether a certificate was mapped to a user. -/
def gridmapName : String := "gridmap.name"

def attribute? (c : Client) (key : String) : Option String :=
  c.attributes.reverse.lookup key

/-- The name that the client goes by: the request's, or else its own; an empty one is none. -/
def usableName? (c : Client) : Option String :=
  ((c.attribute? requestName).filter (· ≠ "")).or (c.name.filter (· ≠ ""))

def isMapped (c : Client) : Bool :=
  c.vorg.isSome || c.attribute? gridmapName = some "1"

/-- The principal of a client. A certificate that is not mapped names nobody. -/
def principal (c : Client) : Principal :=
  match c.usableName? with
  | none => .anonymous
  | some name => if c.protocol = "gsi" ∧ !c.isMapped then .anonymous else .user name

theorem principal_eq_user {c : Client} {name : String} (h : c.principal = .user name) :
    c.usableName? = some name := by
  unfold principal at h
  split at h
  next => simp at h
  next hn =>
    split at h
    next => simp at h
    next => rw [hn, (Principal.user.inj h)]

end Client

namespace Principal

def username? : Principal → Option String
  | anonymous => none
  | user name => some name

end Principal

structure Envelope where
  client : Option Client
deriving DecidableEq

end Impersonation
