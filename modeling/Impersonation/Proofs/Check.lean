import Impersonation.Proofs.Admission
import Impersonation.Proofs.Orderly

namespace Impersonation

open Program

variable {σ : Type} {m : Machine σ}

def Told (m : Machine σ) (calls : List (Moment σ)) (set : CapabilitySet) (cap : Capability)
    (held : Bool) : Prop :=
  ∃ s, ⟨.hasCapability set cap, s⟩ ∈ calls ∧ (m (.hasCapability set cap) s).1 = .ok held

theorem told_append {calls more : List (Moment σ)} {set : CapabilitySet} {cap : Capability}
    {held : Bool} :
    Told m (calls ++ more) set cap held ↔ Told m calls set cap held ∨ Told m more set cap held := by
  simp only [Told, List.mem_append, or_and_right, exists_or]

theorem Told.isPrivilege {calls : List (Moment σ)} {set : CapabilitySet} {cap : Capability}
    {held : Bool} (h : Told m calls set cap held) : ∃ e ∈ calls, e.call.isPrivilege := by
  obtain ⟨s, he, -⟩ := h
  exact ⟨_, he, rfl⟩

def Missed (m : Machine σ) (calls : List (Moment σ)) : Prop :=
  ∃ cap, Told m calls .permitted cap false

theorem missed_append {calls more : List (Moment σ)} :
    Missed m (calls ++ more) ↔ Missed m calls ∨ Missed m more := by
  simp only [Missed, told_append, exists_or]

def GaveUp (calls : List (Moment σ)) : Prop :=
  ∃ e ∈ calls, e.call = .disableSwitching

theorem gaveUp_append {calls more : List (Moment σ)} :
    GaveUp (calls ++ more) ↔ GaveUp calls ∨ GaveUp more := by
  simp only [GaveUp, List.mem_append, or_and_right, exists_or]

namespace Capability

/-- A missing privilege, giving up and ending with that error: each comes with the others. -/
structure Verdict (m : Machine σ) (calls : List (Moment σ)) (r : Except CapabilityError Unit) :
    Prop where
  missed : Missed m calls ↔ ∃ cap, r = .error (.notPermitted cap)
  gaveUp : GaveUp calls ↔ ∃ cap, r = .error (.notPermitted cap)

theorem Verdict.after_ok {front back : List (Moment σ)} {u : Unit}
    {r : Except CapabilityError Unit} (h : Verdict m front (.ok u)) (h' : Verdict m back r) :
    Verdict m (front ++ back) r where
  missed := by simpa [missed_append, h.missed] using h'.missed
  gaveUp := by simpa [gaveUp_append, h.gaveUp] using h'.gaveUp

theorem PermittedRun.verdict {cap : Capability} {s : σ} {calls : List (Moment σ)}
    {r : Except CapabilityError Unit} (h : PermittedRun m cap s calls r) : Verdict m calls r := by
  cases h with
  | held told | unknown told =>
    constructor
    · constructor
      · rintro ⟨cap', s', hs, hr⟩
        cases List.mem_singleton.mp hs
        simp [told] at hr
      · simp
    · simp [GaveUp]
  | missing told => exact ⟨by simpa using ⟨cap, s, .head _, told⟩, by simp [GaveUp]⟩

theorem EffectiveRun.verdict {cap : Capability} {s : σ} {calls : List (Moment σ)}
    {r : Except CapabilityError Unit} (h : EffectiveRun m cap s calls r) : Verdict m calls r := by
  cases h <;> exact ⟨by simp [Missed, Told], by simp [GaveUp]⟩

theorem requirePermitted_verdict {cap : Capability} {s t : σ} {calls : List (Moment σ)}
    {o : Outcome (Except CapabilityError Unit)}
    (h : (requirePermitted cap).run.Runs m s calls o t) :
    ∃ r, o = .finished r ∧ Verdict m calls r :=
  (requirePermitted_run h).imp fun _ ⟨ho, run⟩ => ⟨ho, run.verdict⟩

theorem requireEffective_verdict {cap : Capability} {s t : σ} {calls : List (Moment σ)}
    {o : Outcome (Except CapabilityError Unit)}
    (h : (requireEffective cap).run.Runs m s calls o t) :
    ∃ r, o = .finished r ∧ Verdict m calls r :=
  (requireEffective_run h).imp fun _ ⟨ho, run⟩ => ⟨ho, run.verdict⟩

theorem verdict_forM {f : Capability → Attempt CapabilityError Unit}
    (step : ∀ {cap : Capability} {s t : σ} {calls : List (Moment σ)}
      {o : Outcome (Except CapabilityError Unit)}, (f cap).run.Runs m s calls o t →
        ∃ r, o = .finished r ∧ Verdict m calls r)
    {caps : List Capability} {s t : σ} {calls : List (Moment σ)}
    {o : Outcome (Except CapabilityError Unit)} (h : (caps.forM f).run.Runs m s calls o t) :
    ∃ r, o = .finished r ∧ Verdict m calls r := by
  induction caps generalizing s calls with
  | nil =>
    obtain ⟨rfl, rfl, -⟩ := runs_done.mp h
    exact ⟨_, rfl, by simp [Missed, Told], by simp [GaveUp]⟩
  | cons cap rest ih =>
    rcases runs_attempt.mp h with ⟨_, s₁, front, back, first, others, rfl⟩ | ⟨e, first, rfl⟩ |
      ⟨reason, first, -⟩
    · obtain ⟨_, ho, passed⟩ := step first
      cases ho
      obtain ⟨r, rfl, verdict⟩ := ih others
      exact ⟨r, rfl, passed.after_ok verdict⟩
    · obtain ⟨_, ho, verdict⟩ := step first
      cases ho
      exact ⟨_, rfl, verdict⟩
    · obtain ⟨_, ho, -⟩ := step first
      simp at ho

/-- A privilege is raised only if it was found not to be effective and all privileges were found
permitted. -/
def Raises (m : Machine σ) (before : List (Moment σ)) (e : Moment σ) : Prop :=
  ∀ cap, e.call = .raiseCapability cap →
    Told m before .effective cap false ∧ ∀ other, Told m before .permitted other true

theorem raises_of_ne {before calls : List (Moment σ)}
    (h : ∀ e ∈ calls, ∀ cap, e.call ≠ .raiseCapability cap) : Each (Raises m) before calls :=
  .of_forall fun _ e he cap hc => absurd hc (h e he cap)

theorem EffectiveRun.raises {cap : Capability} {s : σ} {before calls : List (Moment σ)}
    {r : Except CapabilityError Unit} (permitted : ∀ other, Told m before .permitted other true)
    (h : EffectiveRun m cap s calls r) : Each (Raises m) before calls := by
  have query : Each (Raises m) before [⟨.hasCapability .effective cap, s⟩] :=
    raises_of_ne (by simp)
  have raising {s₁ : σ} (told : (m (.hasCapability .effective cap) s).1 = .ok false) :
      Each (Raises m) (before ++ [⟨.hasCapability .effective cap, s⟩])
        [⟨.raiseCapability cap, s₁⟩] := by
    refine .single ?_
    rintro _ ⟨⟩
    exact ⟨told_append.mpr (.inr ⟨s, .head _, told⟩), fun other =>
      told_append.mpr (.inl (permitted other))⟩
  cases h with
  | held | unknown => exact query
  | raised told | failed told => exact query.append (raising told)

theorem requireAll_raises {caps : List Capability} {s t : σ} {before calls : List (Moment σ)}
    {o : Outcome (Except CapabilityError Unit)}
    (permitted : ∀ other, Told m before .permitted other true)
    (h : (caps.forM requireEffective).run.Runs m s calls o t) : Each (Raises m) before calls := by
  induction caps generalizing s before calls with
  | nil =>
    obtain ⟨rfl, -, -⟩ := runs_done.mp h
    exact raises_of_ne (by simp)
  | cons cap rest ih =>
    rcases (requireEffective_calls cap).runs_attempt h with
      ⟨_, s₁, front, back, first, others, rfl⟩ | ⟨e, first, rfl⟩
    · obtain ⟨_, -, effective⟩ := requireEffective_run first
      exact (effective.raises permitted).append
        (ih (fun other => told_append.mpr (.inl (permitted other))) others)
    · obtain ⟨_, -, effective⟩ := requireEffective_run first
      exact effective.raises permitted

theorem requireAll_raisesNone {caps : List Capability} {s t : σ} {before calls : List (Moment σ)}
    {o : Outcome (Except CapabilityError Unit)}
    (h : (caps.forM requirePermitted).run.Runs m s calls o t) : Each (Raises m) before calls := by
  have looks (cap : Capability) : (requirePermitted cap).run.Only
      (fun c => ∀ other, c ≠ .raiseCapability other) False :=
    (requirePermitted_calls cap).mono (by rintro _ (rfl | rfl) <;> simp) id
  exact raises_of_ne (h.only (only_forM fun cap _ => looks cap))

theorem requireAll_permitted {s t : σ} {calls : List (Moment σ)} {u : Unit}
    (h : (required.forM requirePermitted).run.Runs m s calls (.finished (.ok u)) t)
    (cap : Capability) : Told m calls .permitted cap true := by
  have mem : cap ∈ required := by cases cap <;> simp [required]
  obtain ⟨s₁, sub, t₁, hsub, run⟩ := runs_forM_ok h cap mem
  obtain ⟨_, ho, permitted⟩ := requirePermitted_run run
  cases ho
  cases permitted with
  | held told => exact ⟨s₁, hsub (.head _), told⟩

/-- What a check for privileges does, for a latch that reads `off` before it. -/
structure Checked (m : Machine σ) (off : Bool) (s : σ) (calls : List (Moment σ))
    (r : Except CapabilityError Unit) : Prop where
  /-- Once switching is given up nothing else is asked. -/
  disabled : off = true → calls = [⟨.switchingDisabled, s⟩] ∧ r = .error .disabled
  verdict : Verdict m calls r
  raises : Each (Raises m) [] calls
  granted : r = .ok () → ∀ cap, Granted m calls cap

theorem ensure_checked {s t : σ} {calls : List (Moment σ)}
    {o : Outcome (Except CapabilityError Unit)} (h : ensure.run.Runs m s calls o t) :
    ∃ r, o = .finished r ∧ Checked m (m .switchingDisabled s).1 s calls r := by
  obtain ⟨rest, rfl, h₁⟩ := runs_ask_bind.mp h
  have asked : Each (Raises m) [] [⟨.switchingDisabled, s⟩] := raises_of_ne (by simp)
  cases hoff : (m .switchingDisabled s).1 with
  | true =>
    rw [hoff] at h₁
    obtain ⟨rfl, rfl, -⟩ := runs_done.mp h₁
    exact ⟨_, rfl, fun _ => ⟨rfl, rfl⟩, ⟨by simp [Missed, Told], by simp [GaveUp]⟩, asked, by simp⟩
  | false =>
    rw [hoff] at h₁
    have still : Verdict m [⟨.switchingDisabled, s⟩] (.ok ()) :=
      ⟨by simp [Missed, Told], by simp [GaveUp]⟩
    have granted {r : Except CapabilityError Unit} (ho : o = .finished r) (hr : r = .ok ()) :
        ∀ cap, Granted m (⟨.switchingDisabled, s⟩ :: rest) cap := by
      subst ho hr
      exact (ensure_run h).2
    rcases runs_attempt.mp h₁ with ⟨_, s₁, front, back, first, second, rfl⟩ | ⟨e, first, rfl⟩ |
      ⟨reason, first, -⟩
    · obtain ⟨_, ho, passed⟩ := verdict_forM requirePermitted_verdict first
      cases ho
      obtain ⟨r, ho, verdict⟩ := verdict_forM requireEffective_verdict second
      refine ⟨r, ho, by simp, still.after_ok (passed.after_ok verdict), ?_, granted ho⟩
      have all (cap : Capability) : Told m ([⟨.switchingDisabled, s⟩] ++ front) .permitted cap true :=
        told_append.mpr (.inr (requireAll_permitted first cap))
      exact asked.append ((requireAll_raisesNone first).append (requireAll_raises all second))
    · obtain ⟨r, ho, verdict⟩ := verdict_forM requirePermitted_verdict first
      cases ho
      exact ⟨_, rfl, by simp, still.after_ok verdict, asked.append (requireAll_raisesNone first),
        granted rfl⟩
    · obtain ⟨_, ho, -⟩ := verdict_forM requirePermitted_verdict first
      simp at ho

end Capability

/-- Calls that are not about privileges, and whole checks. -/
inductive Checks (m : Machine σ) : List (Moment σ) → Prop where
  | none {calls : List (Moment σ)} (h : ∀ e ∈ calls, e.call.isPrivilege = false) : Checks m calls
  | check {s t : σ} {calls : List (Moment σ)} {o : Outcome (Except CapabilityError Unit)}
      (h : Capability.ensure.run.Runs m s calls o t) : Checks m calls
  | append {calls more : List (Moment σ)} (h : Checks m calls) (h' : Checks m more) :
      Checks m (calls ++ more)

theorem Call.not_isPrivilege_of_isStanding {c : Call} (hc : c.isStanding) :
    c.isPrivilege = false := by
  cases c <;> first | rfl | cases hc

theorem Call.not_isPrivilege_of_isPlain {c : Call} (hc : c.isPlain) : c.isPrivilege = false := by
  cases c <;> first | rfl | cases hc

section

variable {α : Type} {s t : σ} {calls : List (Moment σ)}

theorem Checks.of_standing {x : Program α} {b : Prop} {o : Outcome α}
    (h : x.Runs m s calls o t) (hx : x.Only (·.isStanding) b) : Checks m calls :=
  .none fun e he => Call.not_isPrivilege_of_isStanding (h.only hx e he)

theorem IdentityScope.enter_checks {i : Identity} {o : Outcome (Except IdentityError IdentityScope)}
    (h : (enter i).run.Runs m s calls o t) : Checks m calls := by
  rw [enter_eq] at h
  rcases checkThread_standing.runs_attempt h with ⟨_, s₁, front, back, marks, h₁, rfl⟩ |
    ⟨e, marks, -⟩
  · refine .append (.of_standing marks checkThread_standing) ?_
    rcases runs_attempt.mp h₁ with ⟨_, s₂, mid, last, check, switch, rfl⟩ | ⟨e, check, -⟩ |
      ⟨r, check, -⟩
    · obtain ⟨_, check, -⟩ := runs_adapt check
      exact .append (.check check) (.of_standing switch (switchTo_standing i))
    · obtain ⟨_, check, -⟩ := runs_adapt check
      exact .check check
    · obtain ⟨_, check, -⟩ := runs_adapt check
      exact .check check
  · exact .of_standing marks checkThread_standing

theorem Entry.attempt_checks {entry : Entry} {o : Outcome (Except IdentityError IdentityScope)}
    (h : entry.attempt.run.Runs m s calls o t) : Checks m calls := by
  match entry with
  | .anonymous | .principal c .anonymous =>
    exact .of_standing h IdentityScope.enterAnonymous_standing
  | .identity i => exact IdentityScope.enter_checks h
  | .principal c (.user name) =>
    have only := Identity.resolve_lookup c name
    have lookups {s s₁ : σ} {front o} (h : (Identity.resolve c name).run.Runs m s front o s₁) :
        Checks m front :=
      .none fun e he => Call.not_isPrivilege_of_isPlain
        (Call.isPlain_of_isLookup (h.only only e he))
    rcases only.runs_attempt h with ⟨i, s₁, front, back, resolving, entering, rfl⟩ |
      ⟨e, resolving, -⟩
    · exact .append (lookups resolving) (IdentityScope.enter_checks entering)
    · exact lookups resolving

/-- What is made of plain calls and scopes looks up privileges by whole checks. -/
theorem Orderly.checks {x : Program α} (hx : Orderly x) {o : Outcome α}
    (h : x.Runs m s calls o t) : Checks m calls := by
  induction hx generalizing s t calls with
  | plain only =>
    exact .none fun e he => Call.not_isPrivilege_of_isPlain (h.only only e he)
  | bind first rest ih₁ ih₂ =>
    rcases runs_bind.mp h with ⟨a, s₁, front, back, hx, hf, rfl⟩ | ⟨r, hx, -⟩
    · exact .append (ih₁ hx) (ih₂ a hf)
    · exact ih₁ hx
  | identity entry inside ih =>
    rcases runs_within entry.attempt_only IdentityScope.leave_standing h with ⟨e, entering, -⟩ |
      ⟨scope, s₁, s₂, front, mid, back, inner, entering, body, leaving, rfl, -⟩
    · exact Entry.attempt_checks entering
    · exact .append (Entry.attempt_checks entering)
        (.append (ih body) (.of_standing leaving scope.leave_standing))
  | root inside ih =>
    rcases runs_within RootScope.enter_standing RootScope.leave_standing h with ⟨e, entering, -⟩ |
      ⟨scope, s₁, s₂, front, mid, back, inner, entering, body, leaving, rfl, -⟩
    · exact .of_standing entering RootScope.enter_standing
    · exact .append (.of_standing entering RootScope.enter_standing)
        (.append (ih body) (.of_standing leaving scope.leave_standing))

end

end Impersonation
