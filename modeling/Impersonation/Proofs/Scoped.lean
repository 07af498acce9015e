import Impersonation.Proofs.Orderly

namespace Impersonation

open Program

/-- A program that changes what its thread runs with by scopes alone, nested in any way. It may come
to a value, fail or crash anywhere. -/
inductive Scoped : {α : Type} → Program α → Prop where
  | neutral {α : Type} {x : Program α} (h : x.Only (·.isNeutral) True) : Scoped x
  | bind {α β : Type} {x : Program α} {f : α → Program β} (first : Scoped x)
      (rest : ∀ a, Scoped (f a)) : Scoped (x >>= f)
  | identity {α : Type} (entry : Entry) {body : Program α} (inside : Scoped body) :
      Scoped (IdentityScope.within entry.attempt body).run
  | root {α : Type} {body : Program α} (inside : Scoped body) :
      Scoped (RootScope.within body).run

theorem Orderly.scoped {α : Type} {x : Program α} (h : Orderly x) : Scoped x := by
  induction h with
  | plain h =>
    refine .neutral (h.mono (fun c hc => ?_) id)
    cases c <;> first | rfl | cases hc
  | bind first rest ih₁ ih₂ => exact .bind ih₁ ih₂
  | identity entry inside ih => exact .identity entry ih
  | root inside ih => exact .root ih

theorem GroupSearch.run_scoped (user : String) (primary : UInt32) (p : Path) :
    Scoped (GroupSearch.run user primary p).run :=
  (run_orderly user primary p).scoped

/-- A gateway changes identity by scopes alone, whoever asks for what. -/
theorem Gateway.handle_scoped (g : Gateway) (e : Option Envelope) (r : Request) :
    Scoped (g.handle e r) :=
  (g.handle_orderly e r).scoped

variable {σ : Type} {m : Machine σ} {v : View σ}

theorem Scoped.tidy (hm : Honest m v) {α : Type} {x : Program α} (h : Scoped x) {s t : σ}
    {calls : List (Moment σ)} {o : Outcome α} (run : x.Runs m s calls o t) :
    Tidy m v s calls t := by
  induction h generalizing s t calls with
  | neutral h =>
    refine ⟨.of_eq (hm.standing_of_only h run).1, .of_unpoisoned fun e he hpoison => ?_⟩
    have neutral := run.only h e he
    rw [hpoison] at neutral
    cases neutral
  | bind first rest ih₁ ih₂ =>
    rcases runs_bind.mp run with ⟨a, s₁, front, back, hx, hf, rfl⟩ | ⟨r, hx, -⟩
    · exact (ih₁ hx).trans (ih₂ a hf)
    · exact ih₁ hx
  | identity entry inside ih => exact IdentityScope.within_tidy hm ih run
  | root inside ih => exact RootScope.within_tidy hm ih run

end Impersonation
