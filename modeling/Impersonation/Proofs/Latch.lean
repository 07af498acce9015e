import Impersonation.Proofs.Check
import Impersonation.Proofs.Entrance
import Impersonation.Proofs.Restoration
import Impersonation.Proofs.Service

namespace Impersonation

open Program

variable {σ τ : Type} {m : Machine σ} {off : σ → Bool}

/-- A machine that keeps the latch: it tells how the latch stands, giving up closes it, and no other
call moves it. -/
structure Latched (m : Machine σ) (off : σ → Bool) : Prop where
  told : ∀ s, (m .switchingDisabled s).1 = off s
  closed : ∀ s, off (m .disableSwitching s).2 = true
  kept : ∀ c s, c ≠ .disableSwitching → off (m c s).2 = off s

theorem Latched.off_iff (hm : Latched m off) {α : Type} {x : Program α} {s t : σ}
    {calls : List (Moment σ)} {o : Outcome α} (h : x.Runs m s calls o t) :
    off t = true ↔ off s = true ∨ GaveUp calls := by
  refine h.flag_iff (p := (· = .disableSwitching)) fun e _ => ?_
  by_cases hc : e.call = .disableSwitching
  · exact iff_of_true (by rw [hc]; exact hm.closed e.state) (.inr hc)
  · simp [hc, hm.kept e.call e.state hc]

theorem Latched.stays_off (hm : Latched m off) {α : Type} {x : Program α} {s t : σ}
    {calls : List (Moment σ)} {o : Outcome α} (h : x.Runs m s calls o t) (closed : off s = true) :
    off t = true :=
  (hm.off_iff h).mpr (.inl closed)

/-- Whole checks give up switching exactly if they find a privilege not permitted. -/
theorem Checks.gaveUp_iff {calls : List (Moment σ)} (h : Checks m calls) :
    GaveUp calls ↔ Missed m calls := by
  induction h with
  | none none =>
    constructor
    · rintro ⟨e, he, hc⟩
      simpa [hc, Call.isPrivilege] using none e he
    · rintro ⟨cap, told⟩
      obtain ⟨e, he, privilege⟩ := told.isPrivilege
      simp [none e he] at privilege
  | check h =>
    obtain ⟨r, -, checked⟩ := Capability.ensure_checked h
    exact checked.verdict.gaveUp.trans checked.verdict.missed.symm
  | append _ _ ih₁ ih₂ => rw [gaveUp_append, missed_append, ih₁, ih₂]

section

variable {s t : σ} {calls : List (Moment σ)}

theorem IdentityScope.enter_latched (hm : Latched m off) (closed : off s = true) {i : Identity}
    {o : Outcome (Except IdentityError IdentityScope)} (h : (enter i).run.Runs m s calls o t) :
    (∃ e, o = .finished (.error e)) ∧ ∀ e ∈ calls, e.call.isSwitch = false := by
  have quiet := checkThread_only.mono (fun _ => Call.not_isSwitch_of_isQuiet) id
  rw [enter_eq] at h
  rcases checkThread_only.runs_attempt h with ⟨_, s₁, front, back, first, h₁, rfl⟩ | ⟨e, first, rfl⟩
  · have still := hm.stays_off first closed
    rcases (Capability.ensure_privilege.adapt _).runs_attempt h₁ with
      ⟨_, s₂, mid, last, check, -, -⟩ | ⟨e, check, rfl⟩
    · obtain ⟨_, ho, checked⟩ := Capability.ensure_checked (runs_adapt_ok check)
      rw [hm.told, still] at checked
      cases ho
      have := (checked.disabled rfl).2
      simp at this
    · obtain ⟨_, check, -⟩ := runs_adapt check
      obtain ⟨_, -, checked⟩ := Capability.ensure_checked check
      rw [hm.told, still] at checked
      refine ⟨⟨e, rfl⟩, fun e he => ?_⟩
      rcases List.mem_append.mp he with he | he
      · exact first.only quiet e he
      · rw [(checked.disabled rfl).1] at he
        rw [List.mem_singleton.mp he]
        rfl
  · exact ⟨⟨e, rfl⟩, first.only quiet⟩

def Entry.isNamed : Entry → Bool
  | .identity _ | .principal _ (.user _) => true
  | .anonymous | .principal _ .anonymous => false

theorem Entry.attempt_latched (hm : Latched m off) (closed : off s = true) {entry : Entry}
    (named : entry.isNamed = true) {o : Outcome (Except IdentityError IdentityScope)}
    (h : entry.attempt.run.Runs m s calls o t) :
    (∃ e, o = .finished (.error e)) ∧ ∀ e ∈ calls, e.call.isSwitch = false := by
  match entry with
  | .anonymous | .principal c .anonymous => simp [isNamed] at named
  | .identity i => exact IdentityScope.enter_latched hm closed h
  | .principal c (.user name) =>
    have quiet := (Identity.resolve_only c name).mono (fun _ => Call.not_isSwitch_of_isQuiet) id
    rcases quiet.runs_attempt h with ⟨i, s₁, front, back, resolving, entering, rfl⟩ |
      ⟨e, resolving, rfl⟩
    · obtain ⟨failed, idle⟩ :=
        IdentityScope.enter_latched hm (hm.stays_off resolving closed) entering
      exact ⟨failed, List.forall_mem_append.mpr ⟨resolving.only quiet, idle⟩⟩
    · exact ⟨⟨e, rfl⟩, resolving.only quiet⟩

theorem Gateway.handle_latched (hm : Latched m off) (closed : off s = true) {g : Gateway}
    {e : Envelope} {name : String} {r : Request} (named : e.principal = .ok (.user name))
    {o : Outcome Response} (h : (g.handle (some e) r).Runs m s calls o t) :
    o = .finished .denied ∧ ∀ e ∈ calls, e.call.isSwitch = false := by
  have handled : g.handle (some e) r = g.handleUser name (g.adjust r) := by simp [handle, named]
  rw [handled] at h
  have quiet := (Identity.resolve_only g.config name).mono (fun _ => Call.not_isSwitch_of_isQuiet) id
  cases handleUser_begins h with
  | unresolved lookups =>
    exact ⟨rfl, fun e he => Call.not_isSwitch_of_isQuiet (Call.isQuiet_of_isLookup (lookups e he))⟩
  | refused resolving entering =>
    obtain ⟨-, idle⟩ := IdentityScope.enter_latched hm (hm.stays_off resolving closed) entering
    exact ⟨rfl, List.forall_mem_append.mpr ⟨resolving.only quiet, idle⟩⟩
  | entered resolving entering =>
    obtain ⟨⟨_, failed⟩, -⟩ :=
      IdentityScope.enter_latched hm (hm.stays_off resolving closed) entering
    simp at failed

end

/-- The machine of all threads, each answered by its own machine. The state names the thread whose
turn it is. -/
def Program.Machine.threads (m : τ → Machine σ) : Machine (τ × σ) :=
  fun c s => ((m s.1 c s.2).1, s.1, (m s.1 c s.2).2)

theorem Latched.threads {m : τ → Machine σ} (hm : ∀ n, Latched (m n) off) :
    Latched (Machine.threads m) fun s => off s.2 where
  told s := (hm s.1).told s.2
  closed s := (hm s.1).closed s.2
  kept c s hc := (hm s.1).kept c s.2 hc

inductive Duty where
  | check
  | start (c : Config)
  | enter (entry : Entry)
  | leave (scope : OpenScope)
  | handle (g : Gateway) (e : Option Envelope) (r : Request)

def Duty.program : Duty → Program Unit
  | check => discard Capability.ensure.run
  | start c => discard (Gateway.start c).run
  | enter entry => discard entry.attempt.run
  | leave scope => scope.leave
  | handle g e r => discard (g.handle e r)

theorem runs_discard {α : Type} {x : Program α} {s t : σ} {calls : List (Moment σ)}
    {o : Outcome Unit} (h : (discard x).Runs m s calls o t) : ∃ inner, x.Runs m s calls inner t := by
  change (x >>= fun _ => pure ()).Runs m s calls o t at h
  rcases runs_bind.mp h with ⟨a, s₁, front, back, hx, hf, rfl⟩ | ⟨r, hx, -⟩
  · obtain ⟨rfl, -, rfl⟩ := runs_pure.mp hf
    exact ⟨_, by simpa using hx⟩
  · exact ⟨_, hx⟩

theorem Gateway.start_checks {c : Config} {s t : σ} {calls : List (Moment σ)}
    {o : Outcome (Except StartError Gateway)} (h : (Gateway.start c).run.Runs m s calls o t) :
    Checks m calls := by
  obtain ⟨_, -, run⟩ := start_startRun h
  cases run with
  | invalid _ => exact .none (by simp)
  | refused _ check | unmasked _ check => exact .check check
  | masked _ check => exact .append (.check check) (.none (by simp [Call.isPrivilege]))

theorem Duty.checks {d : Duty} {s t : σ} {calls : List (Moment σ)} {o : Outcome Unit}
    (h : d.program.Runs m s calls o t) : Checks m calls := by
  cases d with
  | check =>
    obtain ⟨_, check⟩ := runs_discard h
    exact .check check
  | start c =>
    obtain ⟨_, starting⟩ := runs_discard h
    exact Gateway.start_checks starting
  | enter entry =>
    obtain ⟨_, entering⟩ := runs_discard h
    exact Entry.attempt_checks entering
  | leave scope =>
    rcases scope with scope | scope
    · exact .of_standing h scope.leave_standing
    · exact .of_standing h scope.leave_standing
  | handle g e r =>
    obtain ⟨_, handling⟩ := runs_discard h
    exact (g.handle_orderly e r).checks handling

namespace Course

def duty (m : τ → Machine σ) (c : Course (τ × σ)) (d : τ × Duty) : Course (τ × σ) :=
  Course.run (Machine.threads m) d.2.program { c with state := (d.1, c.state.2) }

def duties (m : τ → Machine σ) (c : Course (τ × σ)) (ds : List (τ × Duty)) : Course (τ × σ) :=
  ds.foldl (duty m) c

end Course

def Process.answer (n : Nat) : Machine Process := fun c p =>
  let (reply, next) := Station.answer c ⟨p.threads n, p.site⟩
  (reply, ⟨fun k => if k = n then next.thread else p.threads k, next.site⟩)

theorem Process.latched (n : Nat) : Latched (answer n) (·.site.switchingDisabled) where
  told _ := rfl
  closed _ := rfl
  kept c p hc := by
    obtain ⟨_, _, _, _, eq⟩ := Station.site_answer c ⟨p.threads n, p.site⟩
    change (Station.answer c ⟨p.threads n, p.site⟩).2.site.switchingDisabled = _
    rw [eq]
    simp [hc]

/-- From here no identity of a user is taken on, by a scope or for a request, nor is a switch
tried. -/
structure Barred (m : Machine σ) (s : σ) : Prop where
  scopes : ∀ {entry : Entry} {calls o t}, entry.isNamed = true →
    entry.attempt.run.Runs m s calls o t →
      (∃ e, o = .finished (.error e)) ∧ ∀ e ∈ calls, e.call.isSwitch = false
  requests : ∀ {g : Gateway} {e : Envelope} {name r calls o t}, e.principal = .ok (.user name) →
    (g.handle (some e) r).Runs m s calls o t →
      o = .finished .denied ∧ ∀ e ∈ calls, e.call.isSwitch = false

theorem Latched.barred (hm : Latched m off) {s : σ} (closed : off s = true) : Barred m s where
  scopes named h := Entry.attempt_latched hm closed named h
  requests named h := Gateway.handle_latched hm closed named h

theorem Latched.ensure (hm : Latched m off) {s t : σ} {calls : List (Moment σ)}
    {o : Outcome (Except CapabilityError Unit)}
    (h : Capability.ensure.run.Runs m s calls o t) :
    ∃ r, o = .finished r ∧ Capability.Checked m (off s) s calls r ∧
      (off t = true ↔ off s = true ∨ ∃ cap, r = .error (.notPermitted cap)) := by
  obtain ⟨r, ho, checked⟩ := Capability.ensure_checked h
  rw [hm.told] at checked
  exact ⟨r, ho, checked, by rw [hm.off_iff h, checked.verdict.gaveUp]⟩

namespace Course

variable {m : τ → Machine σ} {c : Course (τ × σ)}

theorem off_duty (hm : ∀ n, Latched (m n) off)
    (h : off c.state.2 = true ↔ Missed (Machine.threads m) c.log) (d : τ × Duty) :
    off (c.duty m d).state.2 = true ↔ Missed (Machine.threads m) (c.duty m d).log := by
  have run := runs_self (Machine.threads m) d.2.program (d.1, c.state.2)
  have moved := (Latched.threads hm).off_iff run
  rw [(Duty.checks run).gaveUp_iff] at moved
  exact moved.trans ((or_congr_left h).trans missed_append.symm)

theorem off_duties (hm : ∀ n, Latched (m n) off)
    (h : off c.state.2 = true ↔ Missed (Machine.threads m) c.log) (ds : List (τ × Duty)) :
    off (c.duties m ds).state.2 = true ↔ Missed (Machine.threads m) (c.duties m ds).log := by
  induction ds generalizing c with
  | nil => exact h
  | cons d ds ih => exact ih (off_duty hm h d)

theorem duties_stay_off (hm : ∀ n, Latched (m n) off) (closed : off c.state.2 = true)
    (ds : List (τ × Duty)) : off (c.duties m ds).state.2 = true := by
  induction ds generalizing c with
  | nil => exact closed
  | cons d ds ih =>
    exact ih ((Latched.threads hm).stays_off
      (runs_self (Machine.threads m) d.2.program (d.1, c.state.2)) closed)

/-- Whatever the threads of a process are answered, one after another: switching is given up exactly
if a check on some thread was told that a privilege is not permitted, and the check that is told so
ends with that error. Each check raises a privilege only where all are permitted and that one is not
effective, and if it ends well each privilege is effective or was raised. Once switching is given up
it stays so, a check asks nothing else, and no thread takes on the identity of a user. -/
theorem switching_latched (hm : ∀ n, Latched (m n) off) {s : τ × σ} (unlatched : off s.2 = false)
    (ds : List (τ × Duty)) :
    let c := Course.duties m { state := s } ds
    (off c.state.2 = true ↔ Missed (Machine.threads m) c.log) ∧
    (∀ n calls o t, Capability.ensure.run.Runs (Machine.threads m) (n, c.state.2) calls o t →
      ∃ r, o = .finished r ∧
        Capability.Checked (Machine.threads m) (off c.state.2) (n, c.state.2) calls r ∧
        (off t.2 = true ↔ off c.state.2 = true ∨ ∃ cap, r = .error (.notPermitted cap))) ∧
    (off c.state.2 = true → ∀ more,
      let later := (c.duties m more).state.2
      off later = true ∧ ∀ n, Barred (Machine.threads m) (n, later)) := by
  intro c
  have latched := Latched.threads hm
  have start : off s.2 = true ↔ Missed (Machine.threads m) [] := by
    simp [unlatched, Missed, Told]
  refine ⟨off_duties (c := { state := s }) hm start ds, fun n calls o t check => ?_,
    fun closed more => ?_⟩
  · exact latched.ensure check
  · have still := duties_stay_off hm closed more
    exact ⟨still, fun n => latched.barred still⟩

/-- Two threads, the second one without privileges. -/
def unequalProcess : Process :=
  ⟨fun n => { simulated := { permitted := n = 0, effective := false } }, {}⟩

/-- The first thread passes its check, and is barred after the second one failed it. -/
theorem switching_latched_unequal :
    let c := Course.duties Process.answer { state := (0, unequalProcess) } [(0, .check), (1, .check)]
    unequalProcess.site.switchingDisabled = false ∧
      (duties Process.answer { state := (0, unequalProcess) }
        [(0, .check)]).state.2.site.switchingDisabled = false ∧
      Missed (Machine.threads Process.answer) c.log ∧
      Capability.ensure.run.trace (Machine.threads Process.answer) (0, c.state.2) =
        [⟨.switchingDisabled, (0, c.state.2)⟩] ∧
      Barred (Machine.threads Process.answer) (0, c.state.2) := by
  intro c
  have unlatched : unequalProcess.site.switchingDisabled = false := rfl
  have closed : c.state.2.site.switchingDisabled = true := by decide +kernel
  obtain ⟨iff, check, barred⟩ := switching_latched Process.latched (s := (0, unequalProcess))
    unlatched [(0, .check), (1, .check)]
  obtain ⟨r, -, checked, -⟩ := check 0 _ _ _ (runs_self _ _ _)
  exact ⟨unlatched, by decide +kernel, iff.mp closed, (checked.disabled closed).1,
    (barred closed []).2 0⟩

end Course

end Impersonation
