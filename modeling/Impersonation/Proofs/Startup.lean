import Impersonation.Proofs.Latch

namespace Impersonation

open Program

variable {σ : Type} {m : Machine σ} {off : σ → Bool} {umask : σ → UInt32}

/-- A machine that keeps a umask: of a mask that is set it takes the permission bits, and no other
call changes it. -/
structure Masked (m : Machine σ) (umask : σ → UInt32) : Prop where
  set : ∀ mask s, umask (m (.setUmask mask) s).2 = mask &&& Mode.maskable
  kept : ∀ c s, (∀ mask, c ≠ .setUmask mask) → umask (m c s).2 = umask s

theorem Station.umask_answer {c : Call} (hc : ∀ mask, c ≠ .setUmask mask) (s : Station) :
    (answer c s).2.site.umask = s.site.umask := by
  cases c with
  | setUmask mask => exact absurd rfl (hc mask)
  | setFsuid _ | setFsgid _ | setGroups _ =>
    simp only [answer, setFsuid, setFsgid, setGroups]
    split <;> rfl
  | raiseCapability _ =>
    simp only [answer, raise]
    split
    · rfl
    · split <;> rfl
  | listGroups _ _ =>
    simp only [answer, listGroups]
    split
    · rfl
    · split <;> rfl
  | perform _ =>
    simp only [answer, perform]
    split
    · rfl
    · split <;> rfl
    · rfl
  | probe _ =>
    simp only [answer, probe]
    split <;> rfl
  | setOwner _ _ _ =>
    simp only [answer, setOwner]
    split
    · split <;> rfl
    · rfl
    · split <;> rfl
  | _ => rfl

theorem Process.masked (n : Nat) : Masked (answer n) (·.site.umask) where
  set _ _ := rfl
  kept _ p hc := Station.umask_answer hc ⟨p.threads n, p.site⟩

/-- A program that sets no umask leaves it as it was. -/
theorem Masked.kept_of_only (hm : Masked m umask) {α : Type} {x : Program α} {b : Prop}
    (hx : x.Only (fun c => ∀ mask, c ≠ .setUmask mask) b) {s t : σ} {calls : List (Moment σ)}
    {o : Outcome α} (h : x.Runs m s calls o t) : umask t = umask s :=
  (h.invariant (I := fun u => umask u = umask s)
    (fun e he hu => (hm.kept e.call e.state (h.only hx e he)).trans hu) rfl).1

theorem Masked.kept_of_ensure (hm : Masked m umask) {s t : σ} {calls : List (Moment σ)}
    {o : Outcome (Except CapabilityError Unit)} (h : Capability.ensure.run.Runs m s calls o t) :
    umask t = umask s := by
  have other : ∀ c : Call, c.isPrivilege → ∀ mask, c ≠ .setUmask mask := by
    rintro c privilege mask rfl
    cases privilege
  exact hm.kept_of_only (Capability.ensure_privilege.mono other id) h

namespace Config

variable {c : Config}

theorem invalid_iff :
    (∃ e, c.validate = .error e) ↔
      (∃ mask, c.umask = some mask ∧ 0o777 < mask) ∨ c.minUid = 0 := by
  unfold validate
  cases hu : c.umask with
  | none => by_cases root : c.minUid = 0 <;> simp [root]
  | some mask =>
    by_cases large : 0o777 < mask
    · simp [large]
    · by_cases root : c.minUid = 0 <;> simp [large, root]

/-- No bit of a valid umask is dropped on its way. -/
theorem umask_of_valid (valid : c.validate = .ok ()) {mask : UInt32} (h : c.umask = some mask) :
    mask &&& Mode.permissions &&& Mode.maskable = mask := by
  obtain ⟨small, -⟩ := validate_ok_iff.mp valid
  have bound : mask.toNat ≤ 0o777 := UInt32.le_iff_toNat_le.mp (small mask h)
  have low : Mode.permissions &&& Mode.maskable = Mode.maskable := rfl
  have range : Mode.maskable.toNat = 2 ^ 9 - 1 := rfl
  rw [UInt32.and_assoc, low]
  apply UInt32.toNat_inj.mp
  rw [UInt32.toNat_and, range, Nat.and_two_pow_sub_one_eq_mod]
  exact Nat.mod_eq_of_lt (by omega)

end Config

namespace Gateway

variable {c : Config} {s t : σ} {calls : List (Moment σ)} {r : Except StartError Gateway}

theorem StartRun.config (run : StartRun m c s calls r t) (e : ConfigError) :
    r = .error (.config e) ↔ c.validate = .error e := by
  cases run with
  | invalid invalid => simp [invalid]
  | refused valid | unmasked valid | masked valid => simp [valid]

theorem StartRun.idle (run : StartRun m c s calls r t) {e : ConfigError}
    (failed : r = .error (.config e)) : calls = [] ∧ t = s := by
  cases run with
  | invalid _ => exact ⟨rfl, rfl⟩
  | refused _ _ => cases failed
  | unmasked | masked => cases failed

theorem StartRun.capabilities (run : StartRun m c s calls r t) (e : CapabilityError) :
    r = .error (.capabilities e) ↔
      c.validate = .ok () ∧ (Capability.ensure.run.run m s).1 = .finished (.error e) := by
  cases run with
  | invalid invalid => simp [invalid]
  | refused valid check | unmasked valid check | masked valid check => simp [valid, check.run_eq]

theorem StartRun.umask_eq (hm : Masked m umask) (run : StartRun m c s calls r t) :
    umask t = if r.isOk then c.umask.getD (umask s) else umask s := by
  cases run with
  | invalid _ => rfl
  | refused _ check => exact hm.kept_of_ensure check
  | unmasked _ check none =>
    rw [none]
    exact hm.kept_of_ensure check
  | masked valid check some =>
    rw [some, hm.set, Config.umask_of_valid valid some]
    rfl

theorem StartRun.off_eq (hm : Latched m off) {g : Gateway} (run : StartRun m c s calls (.ok g) t) :
    off s = false ∧ off t = false := by
  have passed {u : σ} {front : List (Moment σ)}
      (check : Capability.ensure.run.Runs m s front (.finished (.ok ())) u) :
      off s = false ∧ off u = false := by
    obtain ⟨_, ho, checked, moved⟩ := hm.ensure check
    cases ho
    have before : off s = false := by
      cases closed : off s with
      | false => rfl
      | true =>
        have refused := (checked.disabled closed).2
        simp at refused
    simpa [before] using moved
  cases run with
  | unmasked _ check => exact passed check
  | @masked mask front u _ check =>
    obtain ⟨before, after⟩ := passed check
    have still : off (m (.setUmask (mask &&& Mode.permissions)) u).2 = off u := by
      apply hm.kept
      simp
    exact ⟨before, still.trans after⟩

theorem StartRun.granted {g : Gateway} (run : StartRun m c s calls (.ok g) t) (cap : Capability) :
    Capability.Granted m calls cap := by
  cases run with
  | unmasked _ check => exact (Capability.ensure_run check).2 cap
  | masked _ check =>
    exact ((Capability.ensure_run check).2 cap).mono (List.subset_append_left _ _)

/-- A start never crashes. It fails by the settings exactly if the umask has more than permission
bits or root may be impersonated, and nothing was asked or changed then; otherwise it fails by the
privileges exactly if their check does. Where it fails the umask stays as it was. Where it succeeds
switching is not given up, each privilege was found effective or was raised, and the umask is that of
the settings, to the bit, if they have one. -/
theorem start_allOrNothing (latched : Latched m off) (masked : Masked m umask) (c : Config)
    (s : σ) :
    let starting := (Gateway.start c).run
    let calls := starting.trace m s
    let t := (starting.run m s).2
    ∃ r, (starting.run m s).1 = .finished r ∧
      ((∃ e, r = .error (.config e)) ↔
        (∃ mask, c.umask = some mask ∧ 0o777 < mask) ∨ c.minUid = 0) ∧
      (∀ e, r = .error (.config e) → c.validate = .error e ∧ calls = [] ∧ t = s) ∧
      (∀ e, r = .error (.capabilities e) ↔
        c.validate = .ok () ∧ (Capability.ensure.run.run m s).1 = .finished (.error e)) ∧
      (∀ e, r = .error e → umask t = umask s) ∧
      ∀ g, r = .ok g → g.config = c ∧ off s = false ∧ off t = false ∧
        (∀ cap, Capability.Granted m calls cap) ∧ umask t = c.umask.getD (umask s) := by
  intro starting calls t
  obtain ⟨r, ho, run⟩ := start_startRun (runs_self m starting s)
  have mask := run.umask_eq masked
  refine ⟨r, ho, ?_, fun e failed => ⟨(run.config e).mp failed, run.idle failed⟩,
    run.capabilities, ?_, ?_⟩
  · simp only [run.config]
    exact Config.invalid_iff
  · rintro e rfl
    exact mask
  · rintro g rfl
    obtain ⟨config, -⟩ := start_run ⟨rfl, Prod.ext ho rfl⟩
    obtain ⟨before, after⟩ := run.off_eq latched
    exact ⟨config, before, after, run.granted, mask⟩

end Gateway

/-- Two threads may make their privileges effective, the third has none. -/
def daemonProcess : Process :=
  ⟨fun n => { simulated := { permitted := n < 2, effective := false } }, {}⟩

/-- The first thread starts a gateway and sets the umask; the third one is refused, and the umask
stays. -/
theorem Gateway.start_allOrNothing_daemon :
    let c : Config := { umask := some 0o027 }
    let started := (Gateway.start c).run.run (Process.answer 0) daemonProcess
    let refused := (Gateway.start c).run.run (Process.answer 2) daemonProcess
    (started.1 = .finished (.ok ⟨c⟩) ∧ started.2.site.umask = 0o027 ∧
      ∀ cap, Capability.Granted (Process.answer 0)
        ((Gateway.start c).run.trace (Process.answer 0) daemonProcess) cap) ∧
    (refused.1 = .finished (.error (.capabilities (.notPermitted .setuid))) ∧
      refused.2.site.umask = 0o022) := by
  intro c started refused
  have starts : started.1 = .finished (.ok ⟨c⟩) := rfl
  have fails : refused.1 = .finished (.error (.capabilities (.notPermitted .setuid))) := rfl
  obtain ⟨r, ho, -, -, -, -, success⟩ :=
    start_allOrNothing (Process.latched 0) (Process.masked 0) c daemonProcess
  obtain ⟨r', ho', -, -, -, failure, -⟩ :=
    start_allOrNothing (Process.latched 2) (Process.masked 2) c daemonProcess
  obtain rfl := Outcome.finished.inj (starts.symm.trans ho)
  obtain rfl := Outcome.finished.inj (fails.symm.trans ho')
  obtain ⟨-, -, -, granted, umask⟩ := success ⟨c⟩ rfl
  exact ⟨⟨starts, umask, granted⟩, fails, failure _ rfl⟩

end Impersonation
