import Impersonation.Storage

namespace Impersonation

inductive Capability where
  | setuid
  | setgid
deriving DecidableEq

inductive CapabilitySet where
  | permitted
  | effective
deriving DecidableEq

structure Ids where
  fsuid : UInt32 := 0
  fsgid : UInt32 := 0
  groups : List UInt32 := []
deriving DecidableEq

/-- What a thread remembers about its identity scopes. -/
structure ScopeFlags where
  /-- An identity scope is open. -/
  active : Bool := false
  /-- Ids could not be put back once. -/
  poisoned : Bool := false
deriving DecidableEq

/-- What a thread runs with at a moment. -/
structure Standing where
  ids : Ids
  flags : ScopeFlags
deriving DecidableEq

structure UserEntry where
  uid : UInt32
  gid : UInt32
deriving DecidableEq

/-- What a thread may call for. -/
inductive Call where
  | ids
  | setFsuid (uid : UInt32)
  | setFsgid (gid : UInt32)
  | setGroups (groups : List UInt32)
  | hasCapability (set : CapabilitySet) (cap : Capability)
  | raiseCapability (cap : Capability)
  | scopeFlags
  | setActive (on : Bool)
  | poison
  /-- Whether switching identities was given up for the whole process. -/
  | switchingDisabled
  | disableSwitching
  | setUmask (mask : UInt32)
  | findUser (name : String)
  | listGroups (name : String) (primary : UInt32)
  | perform (request : Request)
  | probe (path : Path)
  | setOwner (path : Path) (uid gid : Option UInt32)
deriving DecidableEq

abbrev Call.Reply : Call → Type
  | ids => Ids
  | setFsuid _ | setFsgid _ => Except Fault UInt32
  | setGroups _ => Except Fault Unit
  | hasCapability .. => Except Fault Bool
  | raiseCapability _ => Except Fault Unit
  | scopeFlags => ScopeFlags
  | setActive _ | poison => Unit
  | switchingDisabled => Bool
  | disableSwitching => Unit
  | setUmask _ => UInt32
  | findUser _ => Except Fault (Option UserEntry)
  | listGroups .. => Except Fault (List UInt32)
  | perform _ => Outcome Response
  | probe _ => Outcome (Except Fault FileStat)
  | setOwner .. => Outcome (Except Fault Unit)

/-- Work of one thread that comes to a value, or crashes, after some calls. -/
inductive Program (α : Type) where
  | done (value : α)
  | crash (reason : String)
  | call (c : Call) (next : c.Reply → Program α)

namespace Program

variable {α β : Type}

def ask (c : Call) : Program c.Reply :=
  call c done

protected def bind : Program α → (α → Program β) → Program β
  | done a, f => f a
  | crash r, _ => crash r
  | call c k, f => call c fun reply => (k reply).bind f

instance : Monad Program where
  pure := done
  bind := Program.bind

def settle : Outcome α → Program α
  | .finished a => done a
  | .crashed r => crash r

/-- Does `last` after a program, also if that crashes. -/
def closing : Program α → Program Unit → Program α
  | done a, last => last.bind fun _ => done a
  | crash r, last => last.bind fun _ => crash r
  | call c k, last => call c fun reply => (k reply).closing last

def perform (r : Request) : Program Response := do
  settle (← ask (.perform r))

def probe (p : Path) : Program (Except Fault FileStat) := do
  settle (← ask (.probe p))

def setOwner (p : Path) (uid gid : Option UInt32) : Program (Except Fault Unit) := do
  settle (← ask (.setOwner p uid gid))

/-- How calls are answered in a state. -/
abbrev Machine (σ : Type) := (c : Call) → σ → c.Reply × σ

def run {σ : Type} (m : Machine σ) : Program α → σ → Outcome α × σ
  | done a, s => (.finished a, s)
  | crash r, s => (.crashed r, s)
  | call c k, s => (k (m c s).1).run m (m c s).2

@[simp] theorem bind_done (a : α) (f : α → Program β) : (done a >>= f) = f a := rfl

@[simp] theorem bind_crash (r : String) (f : α → Program β) : (crash r >>= f) = crash r := rfl

@[simp] theorem bind_call (c : Call) (k : c.Reply → Program α) (f : α → Program β) :
    (call c k >>= f) = call c fun reply => k reply >>= f := rfl

theorem bind_pure (x : Program α) : x >>= pure = x := by
  induction x with
  | done a => rfl
  | crash r => rfl
  | call c k ih => exact congrArg (call c) (funext ih)

theorem bind_assoc {γ : Type} (x : Program α) (f : α → Program β) (g : β → Program γ) :
    x >>= f >>= g = x >>= fun a => f a >>= g := by
  induction x with
  | done a => rfl
  | crash r => rfl
  | call c k ih => exact congrArg (call c) (funext ih)

instance : LawfulMonad Program :=
  LawfulMonad.mk' Program (fun x => bind_pure x) (fun _ _ => rfl) (fun x f g => bind_assoc x f g)

theorem run_bind {σ : Type} (m : Machine σ) (x : Program α) (f : α → Program β) (s : σ) :
    (x >>= f).run m s =
      match x.run m s with
      | (.finished a, s) => (f a).run m s
      | (.crashed r, s) => (.crashed r, s) := by
  induction x generalizing s with
  | done a => rfl
  | crash r => rfl
  | call c k ih => exact ih (m c s).1 (m c s).2

theorem run_closing {σ : Type} (m : Machine σ) (x : Program α) (last : Program Unit) (s : σ) :
    (x.closing last).run m s =
      match last.run m (x.run m s).2 with
      | (.finished _, t) => ((x.run m s).1, t)
      | (.crashed r, t) => (.crashed r, t) := by
  induction x generalizing s with
  | done a =>
    refine (run_bind m last (fun _ => done a) s).trans ?_
    rcases h : last.run m s with ⟨_ | _, _⟩ <;> simp [run, h]
  | crash r =>
    refine (run_bind m last (fun _ => crash r) s).trans ?_
    rcases h : last.run m s with ⟨_ | _, _⟩ <;> simp [run, h]
  | call c k ih => exact ih (m c s).1 (m c s).2

end Program

end Impersonation
