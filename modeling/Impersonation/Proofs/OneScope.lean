import Impersonation.Proofs.Entrance
import Impersonation.Proofs.Restoration
import Mathlib.Data.List.Perm.Basic

namespace Impersonation

open Program

def OpenScope.isIdentity : OpenScope → Bool
  | identity _ => true
  | root _ => false

/-- What a thread does next, where it may leave any of its open scopes. -/
inductive Act where
  | move (next : Move)
  | leaveAt (place : Nat)

namespace Course

variable {σ : Type}

def act (m : Machine σ) (c : Course σ) : Act → Course σ
  | .move next => c.move m next
  | .leaveAt place =>
    match c.scopes[place]? with
    | none => c
    | some scope => { c.run m scope.leave with scopes := c.scopes.eraseIdx place }

def acts (m : Machine σ) (c : Course σ) (as : List Act) : Course σ :=
  as.foldl (act m) c

end Course

variable {σ : Type} {m : Machine σ} {v : View σ}

theorem Program.Runs.stays_poisoned (hm : Honest m v) {α : Type} {x : Program α} {s t : σ}
    {calls : List (Moment σ)} {o : Outcome α} (h : x.Runs m s calls o t)
    (poisoned : (v.standing s).flags.poisoned = true) : (v.standing t).flags.poisoned = true := by
  refine (h.invariant (I := fun u => (v.standing u).flags.poisoned = true) (fun e _ he => ?_)
    poisoned).1
  by_cases hc : e.call = .poison
  · rw [hc, hm.obeys .poison e.state]
    rfl
  · rw [hm.poisoned_of_ne hc, he]

theorem Entry.attempt_active (hm : Honest m v) {entry : Entry} {scope : IdentityScope} {s t : σ}
    {calls : List (Moment σ)}
    (h : entry.attempt.run.Runs m s calls (.finished (.ok scope)) t) :
    (v.standing s).flags.active = false ∧ (v.standing t).flags.active = true := by
  have entered {i : Identity} {s₁ : σ} {calls : List (Moment σ)}
      (h : (IdentityScope.enter i).run.Runs m s₁ calls (.finished (.ok scope)) t) :
      (v.standing s₁).flags.active = false ∧ (v.standing t).flags.active = true := by
    obtain ⟨_, hr, entered⟩ := IdentityScope.enter_run hm h
    cases hr
    cases entered with
    | entered front unmarked front_calls replaced_gid replaced_uid standing =>
      rw [unmarked, standing]
      exact ⟨rfl, rfl⟩
  match entry with
  | .anonymous | .principal c .anonymous =>
    rcases IdentityScope.enterAnonymous_run hm h with ⟨_, ho, -⟩ | ⟨_, _, -, unmarked, standing, -⟩
    · simp at ho
    · rw [unmarked, standing]
      exact ⟨rfl, rfl⟩
  | .identity i => exact entered h
  | .principal c (.user name) =>
    rcases runs_attempt.mp h with ⟨i, s₁, front, back, resolving, entering, -⟩ | ⟨e, -, ho⟩ |
      ⟨r, -, ho⟩
    · rw [← hm.standing_of_quiet (Identity.resolve_only c name) resolving]
      exact entered entering
    · simp at ho
    · simp at ho

/-- Leaving an identity scope ends it whatever fails, and leaving the scope of user id 0 does not. -/
theorem OpenScope.leave_active (hm : Honest m v) {scope : OpenScope} {s t : σ}
    {calls : List (Moment σ)} {o : Outcome Unit} (h : scope.leave.Runs m s calls o t) :
    (v.standing t).flags.active = (!scope.isIdentity && (v.standing s).flags.active) := by
  rcases scope with scope | ⟨⟨uid⟩⟩
  · have ended {s₁ : σ} : (v.standing (m (.setActive false) s₁).2).flags.active = false := by
      rw [hm.obeys (.setActive false) s₁]
      rfl
    rcases scope with ⟨uid, gid⟩ | _
    · obtain ⟨_, s₁, front, back, -, marking, -⟩ :=
        (IdentityScope.restore_standing (some uid) gid).runs_bind h
      obtain ⟨-, -, rfl⟩ := runs_ask.mp marking
      exact ended
    · obtain ⟨-, -, rfl⟩ := runs_ask.mp h
      exact ended
  · obtain ⟨_, -, h₁⟩ := runs_call.mp h
    have kept := congrArg ScopeFlags.active (hm.flags_of_switch (c := .setFsuid uid) rfl s)
    rcases hr : (m (.setFsuid uid) s).1 with f | previous
    · rw [hr] at h₁
      obtain ⟨-, -, rfl⟩ := runs_ask.mp h₁
      exact (congrArg (·.flags.active) (hm.obeys .poison (m (.setFsuid uid) s).2)).trans kept
    · rw [hr] at h₁
      obtain ⟨-, -, rfl⟩ := runs_done.mp h₁
      exact kept

theorem countP_eraseIdx_of_getElem? {α : Type} {xs : List α} {n : Nat} {a : α} (p : α → Bool)
    (h : xs[n]? = some a) : xs.countP p = (xs.eraseIdx n).countP p + if p a then 1 else 0 := by
  obtain ⟨hn, rfl⟩ := List.getElem?_eq_some_iff.mp h
  have perm := (List.getElem_cons_eraseIdx_perm hn).symm
  rw [perm.countP_eq p, List.countP_cons]

/-- The thread says that an identity scope is open exactly while one is, and there is not a second
one. -/
def Course.Counted (v : View σ) (c : Course σ) : Prop :=
  c.scopes.countP (·.isIdentity) = if (v.standing c.state).flags.active then 1 else 0

namespace Course

variable {c : Course σ}

theorem Counted.run (h : c.Counted v) {α : Type} {x : Program α}
    (active : (v.standing (x.run m c.state).2).flags.active = (v.standing c.state).flags.active) :
    (c.run m x).Counted v := by
  unfold Counted Course.run
  rw [active]
  exact h

theorem Counted.opening (h : c.Counted v) {ε S : Type} {toOpen : S → OpenScope} {x : Attempt ε S}
    (refused : ∀ e, (x.run.run m c.state).1 = .finished (.error e) →
      (v.standing (x.run.run m c.state).2).flags.active = (v.standing c.state).flags.active)
    (opened : ∀ scope, (x.run.run m c.state).1 = .finished (.ok scope) →
      if (toOpen scope).isIdentity then (v.standing c.state).flags.active = false ∧
        (v.standing (x.run.run m c.state).2).flags.active = true
      else (v.standing (x.run.run m c.state).2).flags.active = (v.standing c.state).flags.active)
    (ends : ∃ r, (x.run.run m c.state).1 = .finished r) :
    (c.opening m toOpen x).Counted v := by
  unfold Course.opening
  obtain ⟨e | scope, outcome⟩ := ends
  · rw [outcome]
    exact h.run (refused e outcome)
  · rw [outcome]
    have effect := opened scope outcome
    unfold Counted at h ⊢
    simp only [Course.run, List.countP_cons, h]
    split at effect
    next identity => simp [identity, effect.1, effect.2]
    next root => simp [root, effect]

theorem Counted.leaveAt (hm : Honest m v) (h : c.Counted v) {place : Nat} {scope : OpenScope}
    (hc : c.scopes[place]? = some scope) :
    Counted v { c.run m scope.leave with scopes := c.scopes.eraseIdx place } := by
  have active := scope.leave_active hm (runs_self m scope.leave c.state)
  unfold Counted at h ⊢
  rw [countP_eraseIdx_of_getElem? (·.isIdentity) hc] at h
  simp only [Course.run, active]
  -- An identity scope that is left was the only one, so none is left over.
  cases hs : scope.isIdentity <;> cases ha : (v.standing c.state).flags.active <;>
    simp [hs, ha] at h ⊢ <;> omega

theorem Counted.act (hm : Honest m v) (h : c.Counted v) (a : Act) : (c.act m a).Counted v := by
  have ran {α : Type} {x : Program α} (hx : Scoped x) : (c.run m x).Counted v :=
    h.run (hx.tidy hm (runs_self m x c.state)).intact.active
  rcases a with next | place
  · cases next with
    | handle g e r => exact ran (g.handle_scoped e r)
    | resolve user primary p => exact ran (GroupSearch.run_scoped user primary p)
    | within entry w => exact ran (.identity entry w.byScopes)
    | withinRoot w => exact ran (.root w.byScopes)
    | enter entry =>
      have run := runs_self m entry.attempt.run c.state
      refine h.opening (fun e ho => ?_) (fun scope ho => ?_) (run.finished entry.attempt_only)
      · rcases Entry.attempt_opens hm run with ⟨_, -, tidy⟩ | ⟨_, ho', -⟩
        · exact tidy.intact.active
        · simp [ho] at ho'
      · rw [ho] at run
        exact Entry.attempt_active hm run
    | enterRoot =>
      have run := runs_self m RootScope.enter.run c.state
      have active : (v.standing (RootScope.enter.run.run m c.state).2).flags.active =
          (v.standing c.state).flags.active := by
        obtain ⟨-, ⟨_, -, same, -⟩ | ⟨-, -, switched⟩⟩ := RootScope.enter_run hm run
        · rw [same]
        · rw [switched]
          rfl
      exact h.opening (fun _ _ => active) (fun _ _ => active) (run.finished RootScope.enter_only)
    | leave =>
      unfold Course.act Course.move
      dsimp only
      split
      next => exact h
      next scope rest hc =>
        have first : c.scopes[0]? = some scope := by simp [hc]
        have left := h.leaveAt hm first
        rwa [hc] at left
  · unfold Course.act
    dsimp only
    split
    next => exact h
    next scope hc => exact h.leaveAt hm hc

theorem Counted.acts (hm : Honest m v) (h : c.Counted v) (as : List Act) :
    (c.acts m as).Counted v := by
  induction as generalizing c with
  | nil => exact h
  | cons a as ih => exact ih (h.act hm a)

theorem act_stays_poisoned (hm : Honest m v)
    (poisoned : (v.standing c.state).flags.poisoned = true) (a : Act) :
    (v.standing (c.act m a).state).flags.poisoned = true := by
  have ran {α : Type} (x : Program α) : (v.standing (c.run m x).state).flags.poisoned = true :=
    (runs_self m x c.state).stays_poisoned hm poisoned
  have opened {ε S : Type} (toOpen : S → OpenScope) (x : Attempt ε S) :
      (v.standing (c.opening m toOpen x).state).flags.poisoned = true := by
    unfold Course.opening
    split <;> exact ran x.run
  rcases a with next | place
  · cases next with
    | handle _ _ _ | resolve _ _ _ | within _ _ | withinRoot _ => exact ran _
    | enter _ | enterRoot => exact opened _ _
    | leave =>
      unfold Course.act Course.move
      dsimp only
      split
      next => exact poisoned
      next => exact ran _
  · unfold Course.act
    dsimp only
    split
    next => exact poisoned
    next => exact ran _

theorem acts_stay_poisoned (hm : Honest m v)
    (poisoned : (v.standing c.state).flags.poisoned = true) (as : List Act) :
    (v.standing (c.acts m as).state).flags.poisoned = true := by
  induction as generalizing c with
  | nil => exact poisoned
  | cons a as ih => exact ih (act_stays_poisoned hm poisoned a)

/-- An identity scope is refused, of a user or not, after a look at the thread's marks alone. -/
def TurnedAway (m : Machine σ) (s : σ) (cause : IdentityError) : Prop :=
  IdentityScope.enterAnonymous.run.Runs m s [⟨.scopeFlags, s⟩] (.finished (.error cause))
      (m .scopeFlags s).2 ∧
    ∀ i, (IdentityScope.enter i).run.Runs m s [⟨.scopeFlags, s⟩] (.finished (.error cause))
      (m .scopeFlags s).2

theorem TurnedAway.of_refusal? (hm : Honest m v) {s : σ} {cause : IdentityError}
    (marked : (v.standing s).flags.refusal? = some cause) : TurnedAway m s cause :=
  ⟨IdentityScope.enterAnonymous_turnedAway hm marked,
    fun i => IdentityScope.enter_turnedAway hm i marked⟩

/-- A thread that started without a mark, whatever it did and in whichever order it left its scopes:
it has one identity scope open at most and is active exactly while it has one, and then no other one
is opened. Once it is poisoned it stays so, no identity scope is opened and every request of a client
is denied, without a call for its privileges, its ids or the storage. -/
theorem one_identityScope (hm : Honest m v) {s : σ} (unmarked : (v.standing s).flags = {})
    (as : List Act) :
    let c := Course.acts m { state := s } as
    let flags := (v.standing c.state).flags
    c.scopes.countP (·.isIdentity) ≤ 1 ∧
    (flags.active = true ↔ ∃ scope ∈ c.scopes, scope.isIdentity = true) ∧
    (flags.poisoned = true → TurnedAway m c.state .threadPoisoned) ∧
    (flags.poisoned = false → (∃ scope ∈ c.scopes, scope.isIdentity = true) →
      TurnedAway m c.state .nested) ∧
    (flags.poisoned = true → ∀ more,
      let later := (c.acts m more).state
      (v.standing later).flags.poisoned = true ∧ TurnedAway m later .threadPoisoned ∧
        ∀ (g : Gateway) e r, ((g.handle (some e) r).run m later).1 = .finished .denied ∧
          Idle ((g.handle (some e) r).trace m later)) := by
  intro c flags
  have start : Course.Counted v { state := s } := by simp [Counted, unmarked]
  have counted : c.scopes.countP (·.isIdentity) = if flags.active then 1 else 0 :=
    start.acts hm as
  have alive : flags.active = true ↔ ∃ scope ∈ c.scopes, scope.isIdentity = true := by
    rw [← List.countP_pos_iff, counted]
    cases flags.active <;> simp
  refine ⟨?_, alive, fun poisoned => ?_, fun clean open_ => ?_, fun poisoned more => ?_⟩
  · rw [counted]
    split <;> omega
  · exact .of_refusal? hm (ScopeFlags.refusal?_of_poisoned poisoned)
  · exact .of_refusal? hm (ScopeFlags.refusal?_of_active clean (alive.mpr open_))
  · have still := acts_stay_poisoned hm poisoned more
    have marked := ScopeFlags.refusal?_of_poisoned still
    exact ⟨still, .of_refusal? hm marked,
      fun g e r => g.handle_turnedAway hm marked (runs_self m (g.handle (some e) r) _)⟩

/-- A thread that cannot take its group back. -/
def stuckStart : Station :=
  { thread := { simulated := { ids := ⟨5, 6, [9]⟩, refusedGid := some 6 } } }

def crossed : List Act :=
  [.move .enterRoot, .move (.enter (.identity ⟨1001, 900, [800]⟩)), .leaveAt 1, .leaveAt 0]

/-- The thread keeps a mark that it could not be brought back, and a client does not get in. -/
theorem one_identityScope_crossed :
    let c := Course.acts Station.answer { state := stuckStart } crossed
    (Station.view.standing stuckStart).flags = {} ∧ c.state.thread.flags.poisoned = true ∧
    c.scopes.countP (·.isIdentity) ≤ 1 ∧ TurnedAway Station.answer c.state .threadPoisoned ∧
    ((Gateway.handle ⟨{}⟩ (some ⟨some { protocol := "ztn", name := some "alice" }⟩)
      (.stat .root)).run Station.answer c.state).1 = .finished .denied := by
  intro c
  have unmarked : (Station.view.standing stuckStart).flags = {} := rfl
  have poisoned : c.state.thread.flags.poisoned = true := by decide +kernel
  obtain ⟨one, -, turnedAway, -, denied⟩ := one_identityScope Station.honest unmarked crossed
  obtain ⟨-, -, requests⟩ := denied poisoned []
  exact ⟨unmarked, poisoned, one, turnedAway poisoned, (requests ⟨{}⟩ _ _).1⟩

end Course

end Impersonation
