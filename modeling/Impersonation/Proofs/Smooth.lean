import Impersonation.Proofs.Restoration

namespace Impersonation

open Program

/-- The reply keeps a thread from changing its ids. -/
def Call.Fails : (c : Call) → c.Reply → Prop
  | .setFsuid _, r => r.isOk = false
  | .setFsgid _, r => r.isOk = false
  | .setGroups _, r => r.isOk = false
  | .hasCapability .permitted _, r => r ≠ .ok true
  | .hasCapability .effective _, r => r.isOk = false
  | .raiseCapability _, r => r.isOk = false
  | .switchingDisabled, r => r = true
  | _, _ => False

instance : (c : Call) → (r : c.Reply) → Decidable (c.Fails r)
  | .setFsuid _, r | .setFsgid _, r => inferInstanceAs (Decidable (r.isOk = false))
  | .setGroups _, r | .raiseCapability _, r => inferInstanceAs (Decidable (r.isOk = false))
  | .hasCapability .permitted _, r =>
    decidable_of_iff (r.toOption ≠ some true) (by cases r <;> simp [Call.Fails, Except.toOption])
  | .hasCapability .effective _, r => inferInstanceAs (Decidable (r.isOk = false))
  | .switchingDisabled, r => inferInstanceAs (Decidable (r = true))
  | .ids, _ | .scopeFlags, _ | .setActive _, _ | .poison, _ | .disableSwitching, _ | .setUmask _, _
  | .findUser _, _ | .listGroups .., _ | .perform _, _ | .probe _, _ | .setOwner .., _ =>
    inferInstanceAs (Decidable False)

variable {σ : Type} {m : Machine σ} {v : View σ}

def Moment.Fails (m : Machine σ) (e : Moment σ) : Prop :=
  e.call.Fails (m e.call e.state).1

instance (m : Machine σ) (e : Moment σ) : Decidable (e.Fails m) :=
  inferInstanceAs (Decidable (e.call.Fails (m e.call e.state).1))

theorem Moment.fails_of_not_succeeds {e : Moment σ} (h : e.succeeds m = false) : e.Fails m := by
  obtain ⟨c, s⟩ := e
  cases c with
  | setFsuid _ | setFsgid _ | setGroups _ => exact h
  | _ => simp [succeeds] at h

namespace Program

variable {α β ε : Type} {p : Call → Prop} {q : α → Prop} {b : Prop}

/-- As long as no reply fails, the calls of the program satisfy `p`, and so does what it comes to
satisfy `q`. -/
def Smooth (p : Call → Prop) (q : α → Prop) : Program α → Prop
  | done a => q a
  | crash _ => True
  | call c k => p c ∧ ∀ reply, ¬ c.Fails reply → (k reply).Smooth p q

@[simp] theorem smooth_pure {a : α} : (pure a : Program α).Smooth p q ↔ q a :=
  Iff.rfl

@[simp] theorem smooth_ask {c : Call} {q : c.Reply → Prop} :
    (ask c).Smooth p q ↔ p c ∧ ∀ reply, ¬ c.Fails reply → q reply :=
  Iff.rfl

theorem Only.smooth {x : Program α} (h : x.Only p b) : x.Smooth p fun _ => True := by
  induction x with
  | done a => trivial
  | crash r => trivial
  | call c k ih => exact ⟨h.1, fun reply _ => ih reply (h.2 reply)⟩

theorem Smooth.mono {x : Program α} {q' : α → Prop} (h : x.Smooth p q) (hq : ∀ a, q a → q' a) :
    x.Smooth p q' := by
  induction x with
  | done a => exact hq a h
  | crash r => trivial
  | call c k ih => exact ⟨h.1, fun reply ok => ih reply (h.2 reply ok)⟩

theorem Smooth.bind {x : Program α} {f : α → Program β} {q' : β → Prop} (hx : x.Smooth p q)
    (hf : ∀ a, q a → (f a).Smooth p q') : (x >>= f).Smooth p q' := by
  induction x with
  | done a => exact hf a hx
  | crash r => trivial
  | call c k ih => exact ⟨hx.1, fun reply ok => ih reply (hx.2 reply ok)⟩

theorem Smooth.attempt {x : Attempt ε α} {f : α → Attempt ε β} {q : Except ε α → Prop}
    {q' : Except ε β → Prop} (hx : x.run.Smooth p q) (ok : ∀ a, q (.ok a) → (f a).run.Smooth p q')
    (failed : ∀ e, q (.error e) → q' (.error e)) : ((x >>= f).run).Smooth p q' := by
  rw [ExceptT.run_bind]
  refine hx.bind fun r hr => ?_
  cases r with
  | ok a => exact ok a hr
  | error e => exact failed e hr

theorem Smooth.lift_bind {x : Program α} {f : α → Attempt ε β} {q' : Except ε β → Prop}
    (hx : x.Smooth p q) (hf : ∀ a, q a → (f a).run.Smooth p q') :
    ((do let a ← (liftM x : Attempt ε α); f a : Attempt ε β).run).Smooth p q' := by
  rw [run_lift_bind]
  exact hx.bind hf

theorem Smooth.closing {x : Program α} {last : Program Unit} (hx : x.Smooth p q)
    (hlast : last.Smooth p fun _ => True) : (x.closing last).Smooth p q := by
  induction x with
  | done a => exact hlast.bind fun _ _ => hx
  -- What comes last is done after a crash as well.
  | crash r => exact hlast.bind (q := fun _ => True) fun _ _ => trivial
  | call c k ih => exact ⟨hx.1, fun reply ok => ih reply (hx.2 reply ok)⟩

theorem Smooth.run {x : Program α} (hx : x.Smooth p q) {s t : σ} {calls : List (Moment σ)}
    {o : Outcome α} (h : x.Runs m s calls o t) (fine : ∀ e ∈ calls, ¬ e.Fails m) :
    (∀ e ∈ calls, p e.call) ∧ ∀ a, o = .finished a → q a := by
  induction x generalizing s calls with
  | done a =>
    obtain ⟨rfl, rfl, -⟩ := runs_done.mp h
    refine ⟨by simp, fun a' ha => ?_⟩
    cases ha
    exact hx
  | crash r =>
    obtain ⟨rfl, rfl, -⟩ := runs_crash.mp h
    exact ⟨by simp, by simp⟩
  | call c k ih =>
    obtain ⟨rest, rfl, next⟩ := runs_call.mp h
    obtain ⟨here, later⟩ := List.forall_mem_cons.mp fine
    obtain ⟨calls, value⟩ := ih _ (hx.2 _ here) next later
    exact ⟨List.forall_mem_cons.mpr ⟨hx.1, calls⟩, value⟩

/-- If no call fails in the states of a kind, and each leads to such a state again, then nothing fails
in the run. -/
theorem Smooth.unfailing {x : Program α} (hx : x.Smooth p q) {I : σ → Prop}
    (step : ∀ c s, p c → I s → ¬ c.Fails (m c s).1 ∧ I (m c s).2) {s t : σ}
    {calls : List (Moment σ)} {o : Outcome α} (h : x.Runs m s calls o t) (start : I s) :
    I t ∧ ∀ e ∈ calls, ¬ e.Fails m := by
  induction x generalizing s calls with
  | done a =>
    obtain ⟨rfl, -, rfl⟩ := runs_done.mp h
    exact ⟨start, by simp⟩
  | crash r =>
    obtain ⟨rfl, -, rfl⟩ := runs_crash.mp h
    exact ⟨start, by simp⟩
  | call c k ih =>
    obtain ⟨rest, rfl, next⟩ := runs_call.mp h
    obtain ⟨here, after⟩ := step c s hx.1 start
    obtain ⟨last, fine⟩ := ih _ (hx.2 _ here) next after
    exact ⟨last, List.forall_mem_cons.mpr ⟨here, fine⟩⟩

end Program

def Call.isLasting (c : Call) : Bool :=
  c ≠ .disableSwitching

theorem Program.Only.lasting {α : Type} {x : Program α} {b : Prop} {p : Call → Prop}
    (h : x.Only p b) (hp : ∀ c, p c → c ≠ .disableSwitching) :
    x.Smooth (·.isLasting) fun _ => True :=
  (h.mono (fun c hc => by simpa [Call.isLasting] using hp c hc) id).smooth

namespace Capability

theorem isHeld_smooth (set : CapabilitySet) (cap : Capability) :
    (isHeld set cap).run.Smooth (·.isLasting) fun r =>
      ∃ held, r = .ok held ∧ (set = .permitted → held = true) := by
  refine Smooth.lift_bind (smooth_ask.mpr ⟨rfl, fun _ ok => ok⟩) fun r ok => ?_
  cases r with
  | error f => cases set <;> simp [Call.Fails, Except.isOk, Except.toBool] at ok
  | ok held =>
    refine ⟨held, rfl, fun hset => ?_⟩
    subst hset
    simpa [Call.Fails] using ok

theorem requirePermitted_smooth (cap : Capability) :
    (requirePermitted cap).run.Smooth (·.isLasting) fun r => ∃ u, r = .ok u := by
  refine Smooth.attempt (isHeld_smooth .permitted cap) (fun held ok => ?_) (by simp)
  obtain ⟨_, eq, granted⟩ := ok
  obtain rfl : held = true := (Except.ok.inj eq).trans (granted rfl)
  exact ⟨⟨⟩, rfl⟩

theorem requireEffective_smooth (cap : Capability) :
    (requireEffective cap).run.Smooth (·.isLasting) fun r => ∃ u, r = .ok u := by
  refine Smooth.attempt (isHeld_smooth .effective cap) (fun held _ => ?_) (by simp)
  cases held with
  | true => exact ⟨⟨⟩, rfl⟩
  | false =>
    refine Smooth.lift_bind (smooth_ask.mpr ⟨rfl, fun _ ok => ok⟩) fun r ok => ?_
    cases r with
    | error f => simp [Call.Fails, Except.isOk, Except.toBool] at ok
    | ok u => exact ⟨⟨⟩, rfl⟩

theorem forM_smooth {α ε : Type} {p : Call → Prop} {f : α → Attempt ε PUnit} {xs : List α}
    (h : ∀ a ∈ xs, (f a).run.Smooth p fun r => ∃ u, r = .ok u) :
    (xs.forM f).run.Smooth p fun r => ∃ u, r = .ok u := by
  induction xs with
  | nil => exact ⟨⟨⟩, rfl⟩
  | cons a rest ih =>
    obtain ⟨first, others⟩ := List.forall_mem_cons.mp h
    exact Smooth.attempt first (fun _ _ => ih others) (by simp)

theorem ensure_smooth : ensure.run.Smooth (·.isLasting) fun r => ∃ u, r = .ok u := by
  refine Smooth.lift_bind (smooth_ask.mpr ⟨rfl, fun _ ok => ok⟩) fun disabled ok => ?_
  cases disabled with
  | true => simp [Call.Fails] at ok
  | false =>
    exact Smooth.attempt (forM_smooth fun cap _ => requirePermitted_smooth cap)
      (fun _ _ => forM_smooth fun cap _ => requireEffective_smooth cap) (by simp)

end Capability

namespace IdentityScope

theorem switchTo_smooth (i : Identity) :
    (switchTo i).run.Smooth (·.isLasting) fun r => ∃ scope, r = .ok scope := by
  refine Smooth.lift_bind (smooth_ask.mpr ⟨rfl, fun _ ok => ok⟩) fun gid ok => ?_
  cases gid with
  | error f => simp [Call.Fails, Except.isOk, Except.toBool] at ok
  | ok gid =>
    refine Smooth.lift_bind (smooth_ask.mpr ⟨rfl, fun _ ok => ok⟩) fun uid ok => ?_
    cases uid with
    | error f => simp [Call.Fails, Except.isOk, Except.toBool] at ok
    | ok uid =>
      refine Smooth.lift_bind (smooth_ask.mpr ⟨rfl, fun _ ok => ok⟩) fun groups ok => ?_
      cases groups with
      | error f => simp [Call.Fails, Except.isOk, Except.toBool] at ok
      | ok _ =>
        have opened : (ask (.setActive true)).Smooth (·.isLasting) fun _ => True :=
          ⟨rfl, fun _ _ => trivial⟩
        exact Smooth.lift_bind opened fun _ _ => ⟨_, rfl⟩

theorem adapt_smooth {α ε ε' : Type} {p : Call → Prop} {x : Attempt ε α} (f : ε → ε')
    (h : x.run.Smooth p fun r => ∃ a, r = .ok a) :
    (x.adapt f).run.Smooth p fun r => ∃ a, r = .ok a := by
  refine Smooth.bind (f := fun r => pure (r.mapError f)) h fun r hr => ?_
  obtain ⟨a, rfl⟩ := hr
  exact ⟨a, rfl⟩

/-- Where the scope of an identity is refused, the thread bears a mark or a call has failed. -/
theorem enter_refused (hm : Honest m v) {i : Identity} {cause : IdentityError} {s t : σ}
    {calls : List (Moment σ)} (h : (enter i).run.Runs m s calls (.finished (.error cause)) t) :
    (v.standing s).flags ≠ {} ∨ ∃ e ∈ calls, e.Fails m := by
  rw [enter_eq] at h
  by_cases marked : (v.standing s).flags ≠ {}
  · exact .inl marked
  -- With no mark the check is passed, and with no failure the switch after it is completed.
  refine .inr (Classical.byContradiction fun none => ?_)
  have fine : ∀ e ∈ calls, ¬ e.Fails m := fun e he failed => none ⟨e, he, failed⟩
  rcases runs_attempt.mp h with ⟨_, s₁, front, back, -, h₁, rfl⟩ | ⟨e, hcheck, -⟩ | ⟨r, -, ho⟩
  · have later : ∀ e ∈ back, ¬ e.Fails m := fun e he => fine e (List.mem_append_right _ he)
    have smooth := Smooth.attempt (adapt_smooth IdentityError.capabilities
      Capability.ensure_smooth) (fun _ _ => switchTo_smooth i) (by simp)
    obtain ⟨scope, ho⟩ := (smooth.run h₁ later).2 _ rfl
    simp at ho
  · rcases checkThread_run hm hcheck with ⟨-, ho⟩ | ⟨bears, -⟩
    · simp at ho
    · exact marked bears
  · simp at ho

end IdentityScope

/-- A program that changes ids by scopes alone brings back all but the groups, and leaves no mark,
unless a call fails. -/
theorem Scoped.restored (hm : Honest m v) {α : Type} {x : Program α} (byScopes : Scoped x) {s t : σ}
    {calls : List (Moment σ)} {o : Outcome α} (run : x.Runs m s calls o t)
    (fine : ∀ e ∈ calls, ¬ e.Fails m) (unmarked : (v.standing s).flags = {}) :
    ∃ groups, v.standing t = (v.standing s).withGroups groups := by
  have tidy := byScopes.tidy hm run
  rcases tidy.intact.back with poisoned | back
  · rcases run.poisons poisoned with before | ⟨e, he, poisons⟩
    · simp [unmarked] at before
    · -- A mark is set only after one of the calls that put ids back was refused.
      obtain ⟨front, back, rfl⟩ := List.append_of_mem he
      obtain ⟨_, block, rfl, -, e', he', failed⟩ :=
        tidy.justified front e back rfl (poisons.call_eq hm)
      exact absurd (Moment.fails_of_not_succeeds failed) (fine e' (by simp [he']))
  · rcases back with same | cleared
    · exact ⟨(v.standing s).ids.groups, same⟩
    · exact ⟨[], cleared⟩

theorem Call.ne_disableSwitching {c : Call} (hc : c.isStanding) : c ≠ .disableSwitching := by
  rintro rfl
  cases hc

namespace IdentityScope

theorem enter_smooth (i : Identity) : (enter i).run.Smooth (·.isLasting) fun _ => True := by
  rw [enter_eq]
  refine Smooth.attempt (checkThread_standing.lasting fun _ => Call.ne_disableSwitching)
    (fun _ _ => ?_) fun _ _ => trivial
  exact Smooth.attempt (adapt_smooth _ Capability.ensure_smooth)
    (fun _ _ => (switchTo_smooth i).mono fun _ _ => trivial) fun _ _ => trivial

end IdentityScope

theorem Entry.attempt_smooth (entry : Entry) :
    entry.attempt.run.Smooth (·.isLasting) fun _ => True := by
  match entry with
  | .anonymous | .principal c .anonymous =>
    exact IdentityScope.enterAnonymous_standing.lasting fun _ => Call.ne_disableSwitching
  | .identity i => exact IdentityScope.enter_smooth i
  | .principal c (.user name) =>
    refine Smooth.attempt ((Identity.resolve_lookup c name).lasting fun c hc => ?_)
      (fun i _ => IdentityScope.enter_smooth i) fun _ _ => trivial
    rintro rfl
    cases hc

theorem within_smooth {α ε S : Type} {p : Call → Prop} {entering : Attempt ε S}
    {leave : S → Program Unit} {body : Program α} (first : entering.run.Smooth p fun _ => True)
    (inside : body.Smooth p fun _ => True) (last : ∀ scope, (leave scope).Smooth p fun _ => True) :
    ((do let scope ← entering; liftM (body.closing (leave scope)) : Attempt ε α).run).Smooth p
      fun _ => True :=
  Smooth.attempt first
    (fun scope _ => (inside.closing (last scope)).bind fun _ _ => trivial) fun _ _ => trivial

/-- Nothing that is made of plain calls and scopes gives up switching, unless a call fails. -/
theorem Orderly.smooth {α : Type} {x : Program α} (h : Orderly x) :
    x.Smooth (·.isLasting) fun _ => True := by
  induction h with
  | plain h =>
    refine h.lasting fun c hc => ?_
    rintro rfl
    cases hc
  | bind first rest ih₁ ih₂ => exact ih₁.bind fun a _ => ih₂ a
  | identity entry inside ih =>
    exact within_smooth entry.attempt_smooth ih fun scope =>
      scope.leave_standing.lasting fun _ => Call.ne_disableSwitching
  | root inside ih =>
    exact within_smooth (RootScope.enter_standing.lasting fun _ => Call.ne_disableSwitching) ih
      fun scope => scope.leave_standing.lasting fun _ => Call.ne_disableSwitching

end Impersonation
