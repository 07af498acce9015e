import Impersonation.Proofs.Within

namespace Impersonation

open Program

inductive Entry where
  | anonymous
  | identity (i : Identity)
  | principal (c : Config) (p : Principal)

def Entry.attempt : Entry → Attempt IdentityError IdentityScope
  | anonymous => IdentityScope.enterAnonymous
  | identity i => IdentityScope.enter i
  | principal c p => IdentityScope.enterPrincipal c p

theorem Identity.resolve_lookup (c : Config) (user : String) :
    (resolve c user).run.Only (·.isLookup) False := by
  unfold resolve
  refine Only.attempt (Only.lift (only_ask.mpr rfl)) fun entry => ?_
  rcases entry with _ | _ | entry
  · trivial
  · trivial
  · dsimp only
    split
    · trivial
    split
    · trivial
    refine Only.attempt (Only.lift (only_ask.mpr rfl)) fun groups => ?_
    cases groups <;> trivial

theorem Identity.resolve_only (c : Config) (user : String) :
    (resolve c user).run.Only (·.isQuiet) False :=
  (resolve_lookup c user).mono (fun _ => Call.isQuiet_of_isLookup) id

theorem Entry.attempt_only (entry : Entry) :
    entry.attempt.run.Only (·.isStorage = false) False := by
  match entry with
  | .anonymous | .principal c .anonymous => exact IdentityScope.enterAnonymous_only
  | .identity i => exact IdentityScope.enter_only i
  | .principal c (.user name) =>
    exact Only.attempt ((Identity.resolve_only c name).mono
      (fun _ => Call.not_isStorage_of_isQuiet) id) fun i => IdentityScope.enter_only i

theorem RootScope.enter_standing : RootScope.enter.run.Only (·.isStanding) False :=
  ⟨rfl, fun r => by cases r <;> trivial⟩

theorem RootScope.enter_only : RootScope.enter.run.Only (·.isStorage = false) False :=
  enter_standing.mono (fun _ => Call.not_isStorage_of_isStanding) id

theorem RootScope.leave_standing (scope : RootScope) : scope.leave.Only (·.isStanding) False := by
  refine ⟨rfl, fun r => ?_⟩
  cases r with
  | error f => exact only_ask.mpr rfl
  | ok uid => trivial

theorem RootScope.leave_only (scope : RootScope) :
    scope.leave.Only (·.isStorage = false) False :=
  (leave_standing scope).mono (fun _ => Call.not_isStorage_of_isStanding) id

variable {σ : Type} {m : Machine σ} {v : View σ}

namespace IdentityScope

theorem enterAnonymous_run (hm : Honest m v) {s t : σ} {calls : List (Moment σ)}
    {o : Outcome (Except IdentityError IdentityScope)} (h : enterAnonymous.run.Runs m s calls o t) :
    (∃ e, o = .finished (.error e) ∧ (v.standing s).flags ≠ {} ∧ v.standing t = v.standing s ∧
      ∀ e ∈ calls, e.call.isQuiet) ∨
    ∃ front s₁, o = .finished (.ok unswitched) ∧ (v.standing s).flags = {} ∧
      v.standing t = (v.standing s).withActive true ∧ (∀ e ∈ front, e.call.isQuiet) ∧
      calls = front ++ [⟨.setActive true, s₁⟩] := by
  rw [enterAnonymous] at h
  rcases runs_attempt.mp h with ⟨_, s₁, front, back, hcheck, h₁, rfl⟩ | ⟨e, hcheck, rfl⟩ |
    ⟨r, hcheck, rfl⟩
  · have same := hm.standing_of_quiet checkThread_only hcheck
    obtain ⟨_, rfl, h₂⟩ := runs_call.mp h₁
    obtain ⟨rfl, rfl, rfl⟩ := runs_done.mp h₂
    rcases checkThread_run hm hcheck with ⟨unmarked, -⟩ | ⟨-, e, he⟩
    · refine .inr ⟨front, s₁, rfl, unmarked, ?_, hcheck.only checkThread_only, rfl⟩
      rw [← same]
      exact hm.obeys (.setActive true) s₁
    · simp at he
  · rcases checkThread_run hm hcheck with ⟨-, he⟩ | ⟨marked, -⟩
    · simp at he
    · exact .inl ⟨e, rfl, marked, hm.standing_of_quiet checkThread_only hcheck,
        hcheck.only checkThread_only⟩
  · obtain ⟨a, ha⟩ := hcheck.finished checkThread_only
    simp at ha

end IdentityScope

theorem Call.ne_poison {c : Call} (hc : c.isQuiet ∨ c.isSwitch) : c ≠ .poison := by
  rintro rfl
  rcases hc with hc | hc <;> cases hc

namespace IdentityScope

theorem EnterRun.tidy {i : Identity} {cause : IdentityError} {s t : σ} {calls : List (Moment σ)}
    (h : EnterRun m v i s calls (.error cause) t) : Tidy m v s calls t := by
  cases h with
  | refused idle standing =>
    exact ⟨.of_eq standing, .of_unpoisoned fun e he =>
      Call.ne_poison ((idle e he).imp id Moment.isSwitch_of_failed)⟩
  | undone front unmarked front_calls replaced_gid replaced_uid flags fsuid restoring =>
    refine ⟨?_, (Justified.of_unpoisoned fun e he => Call.ne_poison (front_calls e he)).append
      (restoring.justified replaced_gid replaced_uid)⟩
    cases restoring with
    | restored eq standing =>
      refine ⟨?_, fun h => ?_, .inr (.inr ?_)⟩
      · rw [standing, unmarked, flags]
      · simp [unmarked] at h
      · rw [standing, fsuid, flags, ← unmarked]
        rfl
    | poisoned block eq failed poisoned =>
      rw [flags] at poisoned
      refine ⟨?_, fun _ => ?_, .inl ?_⟩
      · rw [poisoned, unmarked]
      · rw [poisoned]
      · rw [poisoned]

theorem EnterRun.opened {i : Identity} {scope : IdentityScope} {s t : σ} {calls : List (Moment σ)}
    (h : EnterRun m v i s calls (.ok scope) t) : Opened m v s calls (.identity scope) t := by
  cases h with
  | entered front unmarked front_calls replaced_gid replaced_uid standing =>
    refine ⟨⟨replaced_uid.mono (List.subset_append_left _ _),
      replaced_gid.mono (List.subset_append_left _ _)⟩, ⟨?_, fun h => ?_, .inr (.inr ?_)⟩,
      fun e he => ?_⟩
    · simp [OpenScope.after, unmarked]
    · simp [unmarked] at h
    · simp [OpenScope.after, standing, Standing.withGroups, unmarked]
    · rcases List.mem_append.mp he with he | he
      · exact Call.ne_poison (front_calls e he)
      · rw [List.mem_singleton.mp he]
        simp

end IdentityScope

theorem Tidy.of_quiet (hm : Honest m v) {α : Type} {x : Program α} {b : Prop}
    (hx : x.Only (·.isQuiet) b) {s t : σ} {calls : List (Moment σ)} {o : Outcome α}
    (h : x.Runs m s calls o t) : Tidy m v s calls t :=
  ⟨.of_eq (hm.standing_of_quiet hx h),
    .of_unpoisoned fun e he => Call.ne_poison (.inl (h.only hx e he))⟩

/-- What every way into a scope comes to: the thread is left intact, or a scope is open. -/
def OpensOrTidy (m : Machine σ) (v : View σ) {ε S : Type} (toOpen : S → OpenScope) (s : σ)
    (calls : List (Moment σ)) (o : Outcome (Except ε S)) (t : σ) : Prop :=
  (∃ e, o = .finished (.error e) ∧ Tidy m v s calls t) ∨
    ∃ scope, o = .finished (.ok scope) ∧ Opened m v s calls (toOpen scope) t

theorem Standing.withActive_false {w : Standing} (unmarked : w.flags = {}) :
    w.withActive false = w := by
  obtain ⟨ids, flags⟩ := w
  cases unmarked
  rfl

theorem IdentityScope.enterAnonymous_opens (hm : Honest m v) {s t : σ} {calls : List (Moment σ)}
    {o : Outcome (Except IdentityError IdentityScope)} (h : enterAnonymous.run.Runs m s calls o t) :
    OpensOrTidy m v .identity s calls o t := by
  rcases enterAnonymous_run hm h with ⟨e, rfl, -, same, quiet⟩ |
    ⟨front, s₁, rfl, unmarked, standing, quiet, rfl⟩
  · exact .inl ⟨e, rfl, .of_eq same, .of_unpoisoned fun e he => Call.ne_poison (.inl (quiet e he))⟩
  · refine .inr ⟨_, rfl, trivial, .of_eq ?_, fun e he => ?_⟩
    · rw [standing]
      exact Standing.withActive_false unmarked
    · rcases List.mem_append.mp he with he | he
      · exact Call.ne_poison (.inl (quiet e he))
      · rw [List.mem_singleton.mp he]
        simp

theorem IdentityScope.enter_opens (hm : Honest m v) {i : Identity} {s t : σ}
    {calls : List (Moment σ)} {o : Outcome (Except IdentityError IdentityScope)}
    (h : (enter i).run.Runs m s calls o t) : OpensOrTidy m v .identity s calls o t := by
  obtain ⟨r, rfl, hr⟩ := enter_run hm h
  cases r with
  | error e => exact .inl ⟨e, rfl, hr.tidy⟩
  | ok scope => exact .inr ⟨scope, rfl, hr.opened⟩

theorem Entry.attempt_opens (hm : Honest m v) {entry : Entry} {s t : σ} {calls : List (Moment σ)}
    {o : Outcome (Except IdentityError IdentityScope)}
    (h : entry.attempt.run.Runs m s calls o t) : OpensOrTidy m v .identity s calls o t := by
  match entry with
  | .anonymous | .principal c .anonymous => exact IdentityScope.enterAnonymous_opens hm h
  | .identity i => exact IdentityScope.enter_opens hm h
  | .principal c (.user name) =>
    have resolveOnly := Identity.resolve_only c name
    rcases runs_attempt.mp h with ⟨i, s₁, front, back, hresolve, henter, rfl⟩ |
      ⟨e, hresolve, rfl⟩ | ⟨r, hresolve, rfl⟩
    · have first := Tidy.of_quiet hm resolveOnly hresolve
      rcases IdentityScope.enter_opens hm henter with ⟨e, rfl, tidy⟩ | ⟨scope, rfl, opened⟩
      · exact .inl ⟨e, rfl, first.trans tidy⟩
      · refine .inr ⟨scope, rfl, opened.kept.mono (List.subset_append_right _ _),
          first.intact.trans opened.after, fun e he => ?_⟩
        rcases List.mem_append.mp he with he | he
        · exact Call.ne_poison (.inl (hresolve.only resolveOnly e he))
        · exact opened.unpoisoned e he
    · exact .inl ⟨e, rfl, .of_quiet hm resolveOnly hresolve⟩
    · obtain ⟨_, ha⟩ := hresolve.finished resolveOnly
      simp at ha

/-- The scope of user id 0 is refused with nothing changed, or the user id is 0. -/
theorem RootScope.enter_run (hm : Honest m v) {s t : σ} {calls : List (Moment σ)}
    {o : Outcome (Except Fault RootScope)} (h : RootScope.enter.run.Runs m s calls o t) :
    calls = [⟨.setFsuid 0, s⟩] ∧
      ((∃ f, o = .finished (.error f) ∧ v.standing t = v.standing s ∧
          Moment.succeeds m ⟨.setFsuid 0, s⟩ = false) ∨
        o = .finished (.ok ⟨(v.standing s).ids.fsuid⟩) ∧
          (m (.setFsuid 0) s).1 = .ok (v.standing s).ids.fsuid ∧
          v.standing t = (v.standing s).withFsuid 0) := by
  obtain ⟨_, rfl, h₁⟩ := runs_call.mp h
  rcases hm.obeys (.setFsuid 0) s with ⟨f, hr, hs⟩ | ⟨hr, hs⟩
  · rw [hr] at h₁
    obtain ⟨rfl, rfl, rfl⟩ := runs_done.mp h₁
    exact ⟨rfl, .inl ⟨f, rfl, hs, by simp [Moment.succeeds, hr, Except.isOk, Except.toBool]⟩⟩
  · rw [hr] at h₁
    obtain ⟨rfl, rfl, rfl⟩ := runs_done.mp h₁
    exact ⟨rfl, .inr ⟨rfl, hr, hs⟩⟩

theorem RootScope.enter_opens (hm : Honest m v) {s t : σ} {calls : List (Moment σ)}
    {o : Outcome (Except Fault RootScope)} (h : RootScope.enter.run.Runs m s calls o t) :
    OpensOrTidy m v .root s calls o t := by
  obtain ⟨rfl, ⟨f, rfl, same, -⟩ | ⟨rfl, hr, hs⟩⟩ := RootScope.enter_run hm h
  · exact .inl ⟨f, rfl, .of_eq same, .of_unpoisoned (by simp)⟩
  · refine .inr ⟨_, rfl, ⟨0, s, by simp, hr⟩, .of_eq ?_, by simp⟩
    simp [OpenScope.after, hs, Standing.withFsuid]

/-- A tidy run around which a scope is opened and left makes a tidy run. -/
theorem within_tidy (hm : Honest m v) {α ε S : Type} {toOpen : S → OpenScope}
    {entering : Attempt ε S} {leave : S → Program Unit} {body : Program α} {p q : Call → Prop}
    (entering_only : entering.run.Only p False) (leave_only : ∀ scope, (leave scope).Only q False)
    (leave_eq : ∀ scope, (toOpen scope).leave = leave scope)
    (opens : ∀ {s t calls o}, entering.run.Runs m s calls o t → OpensOrTidy m v toOpen s calls o t)
    (inside : ∀ {s t calls o}, body.Runs m s calls o t → Tidy m v s calls t) {s t : σ}
    {calls : List (Moment σ)} {o : Outcome (Except ε α)}
    (h : ((do let scope ← entering; liftM (body.closing (leave scope)) : Attempt ε α).run).Runs
      m s calls o t) : Tidy m v s calls t := by
  rcases runs_within entering_only leave_only h with ⟨e, hentry, -⟩ |
    ⟨scope, s₁, s₂, front, mid, back, inner, hentry, hbody, hleave, rfl, -⟩
  · rcases opens hentry with ⟨e, -, tidy⟩ | ⟨scope, ho, -⟩
    · exact tidy
    · simp at ho
  · rcases opens hentry with ⟨e, ho, -⟩ | ⟨scope', ho, opened⟩
    · simp at ho
    · obtain rfl : scope = scope' := by simpa using ho
      rw [← leave_eq] at hleave
      exact opened.closed hm (inside hbody) hleave

theorem IdentityScope.within_tidy (hm : Honest m v) {α : Type} {entry : Entry} {body : Program α}
    (inside : ∀ {s t calls o}, body.Runs m s calls o t → Tidy m v s calls t) {s t : σ}
    {calls : List (Moment σ)} {o : Outcome (Except IdentityError α)}
    (h : (within entry.attempt body).run.Runs m s calls o t) : Tidy m v s calls t :=
  Impersonation.within_tidy hm entry.attempt_only IdentityScope.leave_only (fun _ => rfl)
    (Entry.attempt_opens hm) inside h

theorem RootScope.within_tidy (hm : Honest m v) {α : Type} {body : Program α}
    (inside : ∀ {s t calls o}, body.Runs m s calls o t → Tidy m v s calls t) {s t : σ}
    {calls : List (Moment σ)} {o : Outcome (Except Fault α)}
    (h : (within body).run.Runs m s calls o t) : Tidy m v s calls t :=
  Impersonation.within_tidy hm RootScope.enter_only RootScope.leave_only (fun _ => rfl)
    (RootScope.enter_opens hm) inside h

end Impersonation
