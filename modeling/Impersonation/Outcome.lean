namespace Impersonation

/-- What a program comes to. -/
inductive Outcome (α : Type) where
  | finished (value : α)
  | crashed (reason : String)
deriving DecidableEq

end Impersonation
