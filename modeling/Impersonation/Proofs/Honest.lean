import Impersonation.Proofs.Calls

namespace Impersonation

namespace Standing

def withFsuid (v : Standing) (uid : UInt32) : Standing :=
  { v with ids := { v.ids with fsuid := uid } }

def withFsgid (v : Standing) (gid : UInt32) : Standing :=
  { v with ids := { v.ids with fsgid := gid } }

def withGroups (v : Standing) (gids : List UInt32) : Standing :=
  { v with ids := { v.ids with groups := gids } }

def withActive (v : Standing) (active : Bool) : Standing :=
  { v with flags := { v.flags with active } }

def withPoison (v : Standing) : Standing :=
  { v with flags := { v.flags with poisoned := true } }

end Standing

structure View (σ : Type) where
  standing : σ → Standing
  /-- The groups that the thread holds once it was given a list of them. -/
  keep : σ → List UInt32 → List UInt32

def View.ofFst {σ : Type} (v : View σ) (τ : Type) : View (σ × τ) :=
  ⟨fun s => v.standing s.1, fun s => v.keep s.1⟩

/-- A change that fails and leaves all as it was, or answers `a` and takes effect. -/
def AllOrNothing {α τ : Type} (r : Except Fault α) (a : α) (old new now : τ) : Prop :=
  (∃ f, r = .error f ∧ now = old) ∨ r = .ok a ∧ now = new

/-- What a call may answer and what it may do to a thread's standing. -/
def Call.Obeys (keep : List UInt32 → List UInt32) (v : Standing) :
    (c : Call) → c.Reply → Standing → Prop
  | .ids, now, w => now = v.ids ∧ w = v
  | .scopeFlags, now, w => now = v.flags ∧ w = v
  | .setFsuid uid, r, w => AllOrNothing r v.ids.fsuid v (v.withFsuid uid) w
  | .setFsgid gid, r, w => AllOrNothing r v.ids.fsgid v (v.withFsgid gid) w
  | .setGroups gids, r, w => AllOrNothing r () v (v.withGroups (keep gids)) w
  | .setActive active, _, w => w = v.withActive active
  | .poison, _, w => w = v.withPoison
  | _, _, w => w = v

/-- A machine whose calls obey the rules of a thread. -/
structure Honest {σ : Type} (m : Program.Machine σ) (v : View σ) : Prop where
  keep_nil : ∀ s, v.keep s [] = []
  keep_call : ∀ (c : Call) (s : σ), v.keep (m c s).2 = v.keep s
  obeys : ∀ (c : Call) (s : σ), c.Obeys (v.keep s) (v.standing s) (m c s).1 (v.standing (m c s).2)

theorem Honest.standing_of_neutral {σ : Type} {m : Program.Machine σ} {v : View σ}
    (hm : Honest m v) {c : Call} (hc : c.isNeutral) (s : σ) :
    v.standing (m c s).2 = v.standing s := by
  have law := hm.obeys c s
  cases c with
  | ids => exact law.2
  | scopeFlags => exact law.2
  | setFsuid _ | setFsgid _ | setGroups _ | setActive _ | poison => cases hc
  | hasCapability _ _ | raiseCapability _ | switchingDisabled | disableSwitching | setUmask _
  | findUser _ | listGroups _ _ | perform _ | probe _ | setOwner _ _ _ => exact law

theorem AllOrNothing.of_isOk {α τ : Type} {r : Except Fault α} {a : α} {old new now : τ}
    (h : AllOrNothing r a old new now) (hr : r.isOk) : r = .ok a ∧ now = new := by
  rcases h with ⟨f, rfl, -⟩ | h
  · simp [Except.isOk, Except.toBool] at hr
  · exact h

theorem Honest.flags_of_switch {σ : Type} {m : Program.Machine σ} {v : View σ}
    (hm : Honest m v) {c : Call} (hc : c.isSwitch) (s : σ) :
    (v.standing (m c s).2).flags = (v.standing s).flags := by
  have law := hm.obeys c s
  cases c with
  | setFsuid _ | setFsgid _ | setGroups _ =>
    rcases law with ⟨-, -, h⟩ | ⟨-, h⟩
    · rw [h]
    · rw [h]
      rfl
  | _ => simp [Call.isSwitch] at hc

theorem Honest.standing_of_only {σ α : Type} {m : Program.Machine σ} {v : View σ}
    (hm : Honest m v) {x : Program α} {b : Prop} (hx : x.Only (·.isNeutral) b)
    {s t : σ} {calls : List (Moment σ)} {o : Outcome α} (h : x.Runs m s calls o t) :
    v.standing t = v.standing s ∧ ∀ e ∈ calls, v.standing e.state = v.standing s :=
  h.invariant (I := fun u => v.standing u = v.standing s)
    (fun e he hs => (hm.standing_of_neutral (h.only hx e he) e.state).trans hs) rfl

theorem Honest.standing_of_quiet {σ α : Type} {m : Program.Machine σ} {v : View σ}
    (hm : Honest m v) {x : Program α} {b : Prop} (hx : x.Only (·.isQuiet) b)
    {s t : σ} {calls : List (Moment σ)} {o : Outcome α} (h : x.Runs m s calls o t) :
    v.standing t = v.standing s :=
  (hm.standing_of_only (hx.mono (fun _ => Call.isNeutral_of_isQuiet) id) h).1

end Impersonation
