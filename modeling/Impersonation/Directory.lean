import Impersonation.Program

namespace Impersonation

structure DirectoryUser where
  entry : UserEntry
  /-- All groups of the user, the primary one first. -/
  groups : List UInt32
deriving DecidableEq

/-- A list of groups led by one of them, which does not come again. -/
def ledBy (primary : UInt32) (gids : List UInt32) : List UInt32 :=
  primary :: gids.filter (· ≠ primary)

structure Directory where
  /-- Users by name, the latest first. -/
  users : List (String × DirectoryUser) := []

namespace Directory

def add (d : Directory) (name : String) (uid gid : UInt32) (further : List UInt32) : Directory :=
  ⟨(name, ⟨⟨uid, gid⟩, ledBy gid further⟩) :: d.users⟩

def find? (d : Directory) (name : String) : Option UserEntry :=
  (d.users.lookup name).map (·.entry)

/-- The groups of a user, led by the given one; a user who is not known has that one alone. -/
def groupsOf (d : Directory) (name : String) (primary : UInt32) : List UInt32 :=
  match d.users.lookup name with
  | some u => ledBy primary u.groups
  | none => [primary]

end Directory

end Impersonation
