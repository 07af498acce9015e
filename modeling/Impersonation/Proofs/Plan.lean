import Impersonation.Proofs.Station

namespace Impersonation

open Program

/-- What becomes of the coming calls for ids and privileges: each fails, or is left to the machine. -/
abbrev Plan := List (Option Fault)

def Call.failure? : (c : Call) → Option (Fault → c.Reply)
  | .setFsuid _ | .setFsgid _ => some .error
  | .setGroups _ | .hasCapability .. | .raiseCapability _ => some .error
  | _ => none

def Program.Machine.planned {σ : Type} (m : Machine σ) : Machine (σ × Plan) := fun c s =>
  match c.failure?, s.2 with
  | some fail, some f :: rest => (fail f, s.1, rest)
  | some _, none :: rest => ((m c s.1).1, (m c s.1).2, rest)
  | _, plan => ((m c s.1).1, (m c s.1).2, plan)

variable {σ : Type} {m : Machine σ}

/-- Under a plan a call fails and changes nothing, or goes as without it. -/
theorem planned_cases (m : Machine σ) (c : Call) (s : σ × Plan) :
    (∃ fail f, c.failure? = some fail ∧ (m.planned c s).1 = fail f ∧ (m.planned c s).2.1 = s.1) ∨
      (m.planned c s).1 = (m c s.1).1 ∧ (m.planned c s).2.1 = (m c s.1).2 := by
  unfold Machine.planned
  split
  next fail f rest hfail hplan => exact .inl ⟨fail, f, hfail, rfl, rfl⟩
  · exact .inr ⟨rfl, rfl⟩
  · exact .inr ⟨rfl, rfl⟩

theorem planned_of_failure?_eq_none (m : Machine σ) {c : Call} (hc : c.failure? = none)
    (s : σ × Plan) : m.planned c s = ((m c s.1).1, (m c s.1).2, s.2) := by
  unfold Machine.planned
  rw [hc]

theorem Honest.planned {v : View σ} (hm : Honest m v) : Honest m.planned (v.ofFst Plan) where
  keep_nil s := hm.keep_nil s.1
  keep_call c s := by
    change v.keep (m.planned c s).2.1 = v.keep s.1
    rcases planned_cases m c s with ⟨_, _, _, _, hs⟩ | ⟨_, hs⟩
    · rw [hs]
    · rw [hs, hm.keep_call]
  obeys c s := by
    change c.Obeys (v.keep s.1) (v.standing s.1) (m.planned c s).1 (v.standing (m.planned c s).2.1)
    rcases planned_cases m c s with ⟨fail, f, hc, hr, hs⟩ | ⟨hr, hs⟩
    · rw [hr, hs]
      cases c with
      | setFsuid _ | setFsgid _ | setGroups _ =>
        cases Option.some.inj hc
        exact .inl ⟨f, rfl, rfl⟩
      | hasCapability _ _ | raiseCapability _ => rfl
      | _ => simp [Call.failure?] at hc
    · rw [hr, hs]
      exact hm.obeys c s.1

end Impersonation
