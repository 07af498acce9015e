import Impersonation.Proofs.Attempts

namespace Impersonation

open Program

def ScopeFlags.refusal? (f : ScopeFlags) : Option IdentityError :=
  if f.poisoned then some .threadPoisoned else if f.active then some .nested else none

theorem ScopeFlags.refusal?_of_poisoned {f : ScopeFlags} (h : f.poisoned = true) :
    f.refusal? = some .threadPoisoned :=
  if_pos h

theorem ScopeFlags.refusal?_of_active {f : ScopeFlags} (clean : f.poisoned = false)
    (h : f.active = true) : f.refusal? = some .nested := by
  simp [refusal?, clean, h]

variable {σ : Type} {m : Machine σ} {v : View σ}

theorem Program.Runs.unique {α : Type} {x : Program α} {s t t' : σ} {calls calls' : List (Moment σ)}
    {o o' : Outcome α} (h : x.Runs m s calls o t) (h' : x.Runs m s calls' o' t') :
    calls' = calls ∧ o' = o ∧ t' = t := by
  obtain ⟨rfl, hr⟩ := h
  obtain ⟨rfl, hr'⟩ := h'
  obtain ⟨rfl, rfl⟩ := Prod.mk.inj (hr.symm.trans hr')
  exact ⟨rfl, rfl, rfl⟩

namespace IdentityScope

variable {s t : σ} {calls : List (Moment σ)} {cause : IdentityError}

theorem checkThread_turnedAway (hm : Honest m v)
    (h : (v.standing s).flags.refusal? = some cause) :
    checkThread.run.Runs m s [⟨.scopeFlags, s⟩] (.finished (.error cause))
      (m .scopeFlags s).2 := by
  refine runs_call.mpr ⟨[], rfl, ?_⟩
  rw [(hm.obeys .scopeFlags s).1]
  rcases hf : (v.standing s).flags with ⟨active, poisoned⟩
  rw [hf] at h
  cases poisoned <;> cases active <;> cases h <;> exact runs_done.mpr ⟨rfl, rfl, rfl⟩

theorem enter_turnedAway (hm : Honest m v) (i : Identity)
    (h : (v.standing s).flags.refusal? = some cause) :
    (enter i).run.Runs m s [⟨.scopeFlags, s⟩] (.finished (.error cause)) (m .scopeFlags s).2 := by
  rw [enter_eq]
  exact runs_attempt.mpr (.inr (.inl ⟨cause, checkThread_turnedAway hm h, rfl⟩))

theorem enterAnonymous_turnedAway (hm : Honest m v)
    (h : (v.standing s).flags.refusal? = some cause) :
    enterAnonymous.run.Runs m s [⟨.scopeFlags, s⟩] (.finished (.error cause))
      (m .scopeFlags s).2 :=
  runs_attempt.mpr (.inr (.inl ⟨cause, checkThread_turnedAway hm h, rfl⟩))

end IdentityScope

/-- How a request of a user starts: the user is not resolved, or the scope of the identity is refused,
or it is entered and the request goes on in it. -/
inductive Gateway.Begins (m : Machine σ) (c : Config) (user : String) (s : σ) :
    List (Moment σ) → Outcome Response → Prop where
  | unresolved {calls : List (Moment σ)} (lookups : ∀ e ∈ calls, e.call.isLookup) :
      Begins m c user s calls (.finished .denied)
  | refused {i : Identity} {cause : IdentityError} {c₀ c₁ : List (Moment σ)} {s₁ t : σ}
      (resolving : (Identity.resolve c user).run.Runs m s c₀ (.finished (.ok i)) s₁)
      (entering : (IdentityScope.enter i).run.Runs m s₁ c₁ (.finished (.error cause)) t) :
      Begins m c user s (c₀ ++ c₁) (.finished .denied)
  | entered {i : Identity} {scope : IdentityScope} {c₀ c₁ c₂ : List (Moment σ)} {s₁ s₂ : σ}
      {o : Outcome Response}
      (resolving : (Identity.resolve c user).run.Runs m s c₀ (.finished (.ok i)) s₁)
      (entering : (IdentityScope.enter i).run.Runs m s₁ c₁ (.finished (.ok scope)) s₂) :
      Begins m c user s (c₀ ++ (c₁ ++ c₂)) o

namespace Gateway

variable {g : Gateway} {user : String} {r : Request} {s t : σ} {calls : List (Moment σ)}
  {o : Outcome Response}

theorem handleUser_begins (h : (g.handleUser user r).Runs m s calls o t) :
    Begins m g.config user s calls o := by
  have only := Identity.resolve_lookup g.config user
  obtain ⟨result, s₁, c₀, rest, resolving, hrest, rfl⟩ := only.runs_bind h
  rcases result with e | i
  · obtain ⟨rfl, rfl, -⟩ := runs_done.mp hrest
    rw [List.append_nil]
    exact .unresolved (resolving.only only)
  rcases runs_bind.mp hrest with ⟨result, s₂, c₁, c₂, hwithin, hlast, rfl⟩ | ⟨reason, hwithin, rfl⟩
  · rcases IdentityScope.within_enter_run hwithin with ⟨cause, ho, refused⟩ | ⟨inner, ho, scope⟩
    · cases ho
      obtain ⟨rfl, rfl, -⟩ := runs_done.mp hlast
      rw [List.append_nil]
      exact .refused resolving refused
    · obtain @⟨scope, front, mid, back, _, _, _, _, entering, -, -⟩ := scope
      rw [List.append_assoc]
      exact .entered resolving entering
  · rcases IdentityScope.within_enter_run hwithin with ⟨cause, ho, -⟩ | ⟨inner, ho, scope⟩
    · simp at ho
    · obtain @⟨scope, front, mid, back, _, _, _, _, entering, -, -⟩ := scope
      exact .entered resolving entering

end Gateway

def Idle (calls : List (Moment σ)) : Prop :=
  ∀ e ∈ calls, e.call = .scopeFlags ∨ e.call.isLookup

theorem Idle.append {calls more : List (Moment σ)} (h : Idle calls) (h' : Idle more) :
    Idle (calls ++ more) :=
  fun e he => (List.mem_append.mp he).elim (h e) (h' e)

theorem Idle.flags (s : σ) : Idle [⟨.scopeFlags, s⟩] := by
  intro e he
  rw [List.mem_singleton.mp he]
  exact .inl rfl

theorem Entry.turnedAway (hm : Honest m v) {entry : Entry} {cause : IdentityError} {s t : σ}
    {calls : List (Moment σ)} {o : Outcome (Except IdentityError IdentityScope)}
    (marked : (v.standing s).flags.refusal? = some cause) (h : entry.attempt.run.Runs m s calls o t) :
    (∃ e, o = .finished (.error e)) ∧ Idle calls := by
  match entry with
  | .anonymous | .principal c .anonymous =>
    obtain ⟨rfl, rfl, -⟩ := (IdentityScope.enterAnonymous_turnedAway hm marked).unique h
    exact ⟨⟨_, rfl⟩, Idle.flags s⟩
  | .identity i =>
    obtain ⟨rfl, rfl, -⟩ := (IdentityScope.enter_turnedAway hm i marked).unique h
    exact ⟨⟨_, rfl⟩, Idle.flags s⟩
  | .principal c (.user name) =>
    have only := Identity.resolve_lookup c name
    rcases runs_attempt.mp h with ⟨i, s₁, front, back, resolving, entering, rfl⟩ |
      ⟨e, resolving, rfl⟩ | ⟨r, resolving, -⟩
    · have same := hm.standing_of_quiet (Identity.resolve_only c name) resolving
      rw [← same] at marked
      obtain ⟨rfl, rfl, -⟩ := (IdentityScope.enter_turnedAway hm i marked).unique entering
      exact ⟨⟨_, rfl⟩, Idle.append (fun e he => .inr (resolving.only only e he)) (Idle.flags s₁)⟩
    · exact ⟨⟨e, rfl⟩, fun e he => .inr (resolving.only only e he)⟩
    · obtain ⟨_, ha⟩ := resolving.finished only
      simp at ha

theorem Gateway.handle_turnedAway (hm : Honest m v) {g : Gateway} {e : Envelope} {r : Request}
    {cause : IdentityError} {s t : σ} {calls : List (Moment σ)} {o : Outcome Response}
    (marked : (v.standing s).flags.refusal? = some cause)
    (h : (g.handle (some e) r).Runs m s calls o t) : o = .finished .denied ∧ Idle calls := by
  unfold handle at h
  dsimp only at h
  rcases hp : e.principal with refusal | _ | name <;> rw [hp] at h
  · obtain ⟨rfl, rfl, -⟩ := runs_done.mp h
    exact ⟨rfl, fun e he => by simp at he⟩
  · have refused : (handleAnonymous (g.adjust r)).Runs m s [⟨.scopeFlags, s⟩] (.finished .denied)
        (m .scopeFlags s).2 := by
      refine runs_bind.mpr (.inl ⟨.error cause, _, _, [], ?_, runs_done.mpr ⟨rfl, rfl, rfl⟩,
        (List.append_nil _).symm⟩)
      exact runs_attempt.mpr
        (.inr (.inl ⟨cause, IdentityScope.enterAnonymous_turnedAway hm marked, rfl⟩))
    obtain ⟨rfl, rfl, -⟩ := refused.unique h
    exact ⟨rfl, Idle.flags s⟩
  · cases handleUser_begins h with
    | unresolved lookups => exact ⟨rfl, fun e he => .inr (lookups e he)⟩
    | @refused i _ c₀ _ s₁ _ resolving entering =>
      have same := hm.standing_of_quiet (Identity.resolve_only g.config name) resolving
      rw [← same] at marked
      obtain ⟨rfl, -, -⟩ := (IdentityScope.enter_turnedAway hm i marked).unique entering
      have lookups := resolving.only (Identity.resolve_lookup g.config name)
      exact ⟨rfl, Idle.append (fun e he => .inr (lookups e he)) (Idle.flags s₁)⟩
    | @entered i _ _ _ _ s₁ _ _ resolving entering =>
      have same := hm.standing_of_quiet (Identity.resolve_only g.config name) resolving
      rw [← same] at marked
      have := (IdentityScope.enter_turnedAway hm i marked).unique entering
      simp at this

end Impersonation
