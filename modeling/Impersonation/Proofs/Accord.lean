import Impersonation.Proofs.Calls
import Impersonation.Proofs.Spelling

namespace Impersonation

open Program

variable {α α' β β' γ ε ε' : Type} {E : ε → ε' → Prop} {R : α → α' → Prop} {S : β → β' → Prop}

/-- Both results are values and related, or both are failures and related. -/
inductive Accord (E : ε → ε' → Prop) (R : α → α' → Prop) : Except ε α → Except ε' α' → Prop where
  | ok {a : α} {b : α'} (h : R a b) : Accord E R (.ok a) (.ok b)
  | error {e : ε} {e' : ε'} (h : E e e') : Accord E R (.error e) (.error e')

namespace Accord

theorem eq {x y : Except ε α} (h : Accord Eq Eq x y) : x = y := by
  cases h with
  | ok h => rw [h]
  | error h => rw [h]

theorem after {f : γ → Except ε α} {g : γ → Except ε α'} (x : Except ε γ)
    (rest : ∀ c, Accord Eq R (f c) (g c)) : Accord Eq R (x >>= f) (x >>= g) := by
  cases x with
  | ok c => exact rest c
  | error e => exact .error rfl

end Accord

inductive Outcome.Accord (R : α → α' → Prop) : Outcome α → Outcome α' → Prop where
  | finished {a : α} {b : α'} (h : R a b) : Accord R (.finished a) (.finished b)
  | crashed (reason : String) : Accord R (.crashed reason) (.crashed reason)

theorem Outcome.Accord.eq {o o' : Outcome α} (h : o.Accord Eq o') : o' = o := by
  cases h with
  | finished h => rw [h]
  | crashed reason => rfl

inductive Call.Respells : Call → Call → Prop where
  | same (c : Call) (idle : c.isStorage = false) : Respells c c
  | perform {r r' : Request} (h : r.Respells r') : Respells (.perform r) (.perform r')
  | probe {p q : Path} (h : p.Respells q) : Respells (.probe p) (.probe q)
  | setOwner {p q : Path} (h : p.Respells q) (uid gid : Option UInt32) :
      Respells (.setOwner p uid gid) (.setOwner q uid gid)

theorem Call.Respells.refl (c : Call) : c.Respells c := by
  cases c with
  | perform r => exact .perform (.refl r)
  | probe p => exact .probe (.refl p)
  | setOwner p uid gid => exact .setOwner (.refl p) uid gid
  | _ => exact .same _ rfl

namespace Program

/-- Two programs that ask for the same, call by call, up to the spelling of paths, and come to related
values. -/
inductive Respells (R : α → α' → Prop) : Program α → Program α' → Prop where
  | done {a : α} {b : α'} (h : R a b) : Respells R (done a) (done b)
  | crash (reason : String) : Respells R (crash reason) (crash reason)
  | call {c c' : Call} (asked : c.Respells c') {k : c.Reply → Program α}
      {k' : c'.Reply → Program α'}
      (next : ∀ reply reply', HEq reply reply' → Respells R (k reply) (k' reply')) :
      Respells R (call c k) (call c' k')

namespace Respells

theorem refl {R : α → α → Prop} (value : ∀ a, R a a) (x : Program α) : x.Respells R x := by
  induction x with
  | done a => exact .done (value a)
  | crash reason => exact .crash reason
  | call c k ih =>
    refine .call (.refl c) fun reply reply' same => ?_
    cases same
    exact ih reply

theorem bind {x : Program α} {y : Program α'} {f : α → Program β} {g : α' → Program β'}
    (h : x.Respells R y) (rest : ∀ a b, R a b → (f a).Respells S (g b)) :
    (x >>= f).Respells S (y >>= g) := by
  induction h with
  | done h => exact rest _ _ h
  | crash reason => exact .crash reason
  | call asked _ ih => exact .call asked ih

theorem mono {R' : α → α' → Prop} {x : Program α} {y : Program α'} (h : x.Respells R y)
    (weaker : ∀ a b, R a b → R' a b) : x.Respells R' y := by
  induction h with
  | done h => exact .done (weaker _ _ h)
  | crash reason => exact .crash reason
  | call asked _ ih => exact .call asked ih

theorem before {x y : Program α} (h : x.Respells Eq y) (f : α → Program β) :
    (x >>= f).Respells Eq (y >>= f) :=
  h.bind fun _ _ same => same ▸ refl (fun _ => rfl) _

theorem lift_bind {x : Program α} {y : Program α'} {f : α → Attempt ε β} {g : α' → Attempt ε' β'}
    {T : Except ε β → Except ε' β' → Prop} (h : x.Respells R y)
    (rest : ∀ a b, R a b → (f a).run.Respells T (g b).run) :
    (do let a ← (liftM x : Attempt ε α); f a : Attempt ε β).run.Respells T
      (do let b ← (liftM y : Attempt ε' α'); g b : Attempt ε' β').run := by
  rw [run_lift_bind, run_lift_bind]
  exact h.bind rest

theorem after (x : Program γ) {f : γ → Program α} {g : γ → Program α'}
    (rest : ∀ c, (f c).Respells R (g c)) : (x >>= f).Respells R (x >>= g) :=
  (refl (R := Eq) (fun _ => rfl) x).bind fun c _ same => same ▸ rest c

theorem closing {x : Program α} {y : Program α'} (h : x.Respells R y) (last : Program Unit) :
    (x.closing last).Respells R (y.closing last) := by
  induction h with
  | done h => exact after last fun _ => .done h
  | crash reason => exact after last fun _ => .crash reason
  | call asked _ ih => exact .call asked ih

/-- Programs that go on alike after one call. -/
theorem ask {c c' : Call} (asked : c.Respells c') {k : c.Reply → Program α}
    {k' : c'.Reply → Program α} (same : ∀ reply reply', HEq reply reply' → k' reply' = k reply) :
    (Program.call c k).Respells Eq (Program.call c' k') := by
  refine .call asked fun reply reply' eq => ?_
  rw [same reply reply' eq]
  exact refl (fun _ => rfl) _

/-- In a scope two programs differ as they do outside. -/
theorem within {entering : Attempt ε γ} {leave : γ → Program Unit} {x : Program α}
    {y : Program α'} (h : x.Respells R y) :
    (do let scope ← entering; liftM (x.closing (leave scope)) : Attempt ε α).run.Respells
      (Impersonation.Accord Eq R)
      (do let scope ← entering; liftM (y.closing (leave scope)) : Attempt ε α').run := by
  rw [ExceptT.run_bind, ExceptT.run_bind]
  refine after entering.run fun result => ?_
  cases result with
  | error e => exact .done (.error rfl)
  | ok scope => exact (h.closing (leave scope)).bind fun a b related => .done (.ok related)

theorem within_eq {entering : Attempt ε γ} {leave : γ → Program Unit} {x y : Program α}
    (h : x.Respells Eq y) :
    (do let scope ← entering; liftM (x.closing (leave scope)) : Attempt ε α).run.Respells Eq
      (do let scope ← entering; liftM (y.closing (leave scope)) : Attempt ε α).run :=
  (within h).mono fun _ _ accord => accord.eq

end Respells

variable {p q : Path} {r r' : Request}

theorem perform_respelled (h : r.Respells r') : (perform r).Respells Eq (perform r') :=
  .ask (.perform h) fun _ _ same => congrArg settle (eq_of_heq same).symm

theorem probe_respelled (h : p.Respells q) : (probe p).Respells Eq (probe q) :=
  .ask (.probe h) fun _ _ same => congrArg settle (eq_of_heq same).symm

theorem setOwner_respelled (h : p.Respells q) (uid gid : Option UInt32) :
    (setOwner p uid gid).Respells Eq (setOwner q uid gid) :=
  .ask (.setOwner h uid gid) fun _ _ same => congrArg settle (eq_of_heq same).symm

variable {σ : Type} {m : Machine σ} {A : σ → σ → Prop}

/-- A machine whose replies do not tell spellings apart: in states that are alike, calls that differ in
spelling get the same reply and lead to states that are alike. -/
def Machine.Overlooks (m : Machine σ) (A : σ → σ → Prop) : Prop :=
  ∀ c c', c.Respells c' → ∀ s t, A s t → HEq (m c s).1 (m c' t).1 ∧ A (m c s).2 (m c' t).2

/-- Such a machine takes both programs the same way. -/
theorem Respells.run {x : Program α} {y : Program α'} (h : x.Respells R y) (hm : m.Overlooks A)
    {s t : σ} (alike : A s t) :
    (x.run m s).1.Accord R (y.run m t).1 ∧ A (x.run m s).2 (y.run m t).2 := by
  induction h generalizing s t with
  | done h => exact ⟨.finished h, alike⟩
  | crash reason => exact ⟨.crashed reason, alike⟩
  | call asked _ ih =>
    obtain ⟨reply, next⟩ := hm _ _ asked s t alike
    exact ih _ _ reply next

end Program

end Impersonation
