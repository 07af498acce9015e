import Impersonation.Proofs.Attempts

namespace Impersonation

open Program

variable {σ : Type} {m : Machine σ} {v : View σ}

theorem runs_forM_ok {α ε : Type} {f : α → Attempt ε PUnit} {xs : List α} {s t : σ}
    {calls : List (Moment σ)} {u : Unit}
    (h : (xs.forM f).run.Runs m s calls (.finished (.ok u)) t) :
    ∀ a ∈ xs, ∃ s₁ sub t₁, sub ⊆ calls ∧ (f a).run.Runs m s₁ sub (.finished (.ok ⟨⟩)) t₁ := by
  induction xs generalizing s calls with
  | nil => simp
  | cons a rest ih =>
    rcases runs_attempt.mp h with ⟨_, s₁, front, back, ha, hrest, rfl⟩ | ⟨e, -, ho⟩ | ⟨r, -, ho⟩
    · intro a' ha'
      rcases List.mem_cons.mp ha' with rfl | ha'
      · exact ⟨s, front, s₁, List.subset_append_left _ _, ha⟩
      · obtain ⟨s₂, sub, t₂, hsub, hrun⟩ := ih hrest a' ha'
        exact ⟨s₂, sub, t₂, List.Subset.trans hsub (List.subset_append_right _ _), hrun⟩
    · simp at ho
    · simp at ho

namespace Capability

structure Granted (m : Machine σ) (calls : List (Moment σ)) (cap : Capability) : Prop where
  permitted : ∃ s, ⟨.hasCapability .permitted cap, s⟩ ∈ calls ∧
    (m (.hasCapability .permitted cap) s).1 = .ok true
  effective : (∃ s, ⟨.hasCapability .effective cap, s⟩ ∈ calls ∧
      (m (.hasCapability .effective cap) s).1 = .ok true) ∨
    ∃ s, ⟨.raiseCapability cap, s⟩ ∈ calls ∧ (m (.raiseCapability cap) s).1 = .ok ()

theorem Granted.mono {calls more : List (Moment σ)} {cap : Capability} (h : Granted m calls cap)
    (sub : calls ⊆ more) : Granted m more cap := by
  obtain ⟨⟨s, he, hr⟩, effective⟩ := h
  refine ⟨⟨s, sub he, hr⟩, ?_⟩
  rcases effective with ⟨s, he, hr⟩ | ⟨s, he, hr⟩
  · exact .inl ⟨s, sub he, hr⟩
  · exact .inr ⟨s, sub he, hr⟩

theorem isHeld_run {set : CapabilitySet} {cap : Capability} {s t : σ} {calls : List (Moment σ)}
    {o : Outcome (Except CapabilityError Bool)} (h : (isHeld set cap).run.Runs m s calls o t) :
    calls = [⟨.hasCapability set cap, s⟩] ∧
      ((∃ held, (m (.hasCapability set cap) s).1 = .ok held ∧ o = .finished (.ok held)) ∨
        ∃ f, (m (.hasCapability set cap) s).1 = .error f ∧ o = .finished (.error (.query f))) := by
  obtain ⟨rest, rfl, h₁⟩ := runs_ask_bind.mp h
  rcases hr : (m (.hasCapability set cap) s).1 with f | held
  · rw [hr] at h₁
    obtain ⟨rfl, rfl, -⟩ := runs_done.mp h₁
    exact ⟨rfl, .inr ⟨f, rfl, rfl⟩⟩
  · rw [hr] at h₁
    obtain ⟨rfl, rfl, -⟩ := runs_done.mp h₁
    exact ⟨rfl, .inl ⟨held, rfl, rfl⟩⟩

/-- A privilege is found permitted, or the thread cannot tell, or switching is given up. -/
inductive PermittedRun (m : Machine σ) (cap : Capability) (s : σ) :
    List (Moment σ) → Except CapabilityError Unit → Prop where
  | held (told : (m (.hasCapability .permitted cap) s).1 = .ok true) :
      PermittedRun m cap s [⟨.hasCapability .permitted cap, s⟩] (.ok ⟨⟩)
  | unknown {f : Fault} (told : (m (.hasCapability .permitted cap) s).1 = .error f) :
      PermittedRun m cap s [⟨.hasCapability .permitted cap, s⟩] (.error (.query f))
  | missing {s₁ : σ} (told : (m (.hasCapability .permitted cap) s).1 = .ok false) :
      PermittedRun m cap s [⟨.hasCapability .permitted cap, s⟩, ⟨.disableSwitching, s₁⟩]
        (.error (.notPermitted cap))

theorem requirePermitted_run {cap : Capability} {s t : σ} {calls : List (Moment σ)}
    {o : Outcome (Except CapabilityError Unit)}
    (h : (requirePermitted cap).run.Runs m s calls o t) :
    ∃ r, o = .finished r ∧ PermittedRun m cap s calls r := by
  rcases (isHeld_calls _ _).runs_attempt h with ⟨held, s₁, front, back, hheld, hrest, rfl⟩ |
    ⟨e, hheld, rfl⟩
  · obtain ⟨rfl, ⟨_, told, ho⟩ | ⟨_, -, ho⟩⟩ := isHeld_run hheld <;> cases ho
    cases held with
    | true =>
      obtain ⟨rfl, rfl, -⟩ := runs_done.mp hrest
      exact ⟨_, rfl, .held told⟩
    | false =>
      obtain ⟨rest, rfl, hthrow⟩ := runs_ask_bind.mp hrest
      obtain ⟨rfl, rfl, -⟩ := runs_done.mp hthrow
      exact ⟨_, rfl, .missing told⟩
  · obtain ⟨rfl, ⟨_, -, ho⟩ | ⟨f, told, ho⟩⟩ := isHeld_run hheld <;> cases ho
    exact ⟨_, rfl, .unknown told⟩

/-- A privilege is found effective, or the thread cannot tell, or it is raised, or that fails. -/
inductive EffectiveRun (m : Machine σ) (cap : Capability) (s : σ) :
    List (Moment σ) → Except CapabilityError Unit → Prop where
  | held (told : (m (.hasCapability .effective cap) s).1 = .ok true) :
      EffectiveRun m cap s [⟨.hasCapability .effective cap, s⟩] (.ok ⟨⟩)
  | unknown {f : Fault} (told : (m (.hasCapability .effective cap) s).1 = .error f) :
      EffectiveRun m cap s [⟨.hasCapability .effective cap, s⟩] (.error (.query f))
  | raised {s₁ : σ} (told : (m (.hasCapability .effective cap) s).1 = .ok false)
      (raised : (m (.raiseCapability cap) s₁).1 = .ok ()) :
      EffectiveRun m cap s [⟨.hasCapability .effective cap, s⟩, ⟨.raiseCapability cap, s₁⟩]
        (.ok ⟨⟩)
  | failed {s₁ : σ} {f : Fault} (told : (m (.hasCapability .effective cap) s).1 = .ok false)
      (failed : (m (.raiseCapability cap) s₁).1 = .error f) :
      EffectiveRun m cap s [⟨.hasCapability .effective cap, s⟩, ⟨.raiseCapability cap, s₁⟩]
        (.error (.raise cap f))

theorem requireEffective_run {cap : Capability} {s t : σ} {calls : List (Moment σ)}
    {o : Outcome (Except CapabilityError Unit)}
    (h : (requireEffective cap).run.Runs m s calls o t) :
    ∃ r, o = .finished r ∧ EffectiveRun m cap s calls r := by
  rcases (isHeld_calls _ _).runs_attempt h with ⟨held, s₁, front, back, hheld, hrest, rfl⟩ |
    ⟨e, hheld, rfl⟩
  · obtain ⟨rfl, ⟨_, told, ho⟩ | ⟨_, -, ho⟩⟩ := isHeld_run hheld <;> cases ho
    cases held with
    | true =>
      obtain ⟨rfl, rfl, -⟩ := runs_done.mp hrest
      exact ⟨_, rfl, .held told⟩
    | false =>
      obtain ⟨rest, rfl, h₁⟩ := runs_ask_bind.mp hrest
      rcases raised : (m (.raiseCapability cap) s₁).1 with f | _
      · rw [raised] at h₁
        obtain ⟨rfl, rfl, -⟩ := runs_done.mp h₁
        exact ⟨_, rfl, .failed told raised⟩
      · rw [raised] at h₁
        obtain ⟨rfl, rfl, -⟩ := runs_done.mp h₁
        exact ⟨_, rfl, .raised told raised⟩
  · obtain ⟨rfl, ⟨_, -, ho⟩ | ⟨f, told, ho⟩⟩ := isHeld_run hheld <;> cases ho
    exact ⟨_, rfl, .unknown told⟩

theorem ensure_run {s t : σ} {calls : List (Moment σ)}
    (h : ensure.run.Runs m s calls (.finished (.ok ⟨⟩)) t) :
    (∃ s₁, ⟨.switchingDisabled, s₁⟩ ∈ calls ∧ (m .switchingDisabled s₁).1 = false) ∧
      ∀ cap, Granted m calls cap := by
  obtain ⟨rest, rfl, h₁⟩ := runs_ask_bind.mp h
  cases hdisabled : (m .switchingDisabled s).1 with
  | true =>
    rw [hdisabled] at h₁
    have := runs_done.mp h₁
    simp at this
  | false =>
    rw [hdisabled] at h₁
    refine ⟨⟨s, .head _, hdisabled⟩, fun cap => ?_⟩
    have mem : cap ∈ required := by cases cap <;> simp [required]
    rcases runs_attempt.mp h₁ with ⟨_, s₁, front, back, hpermitted, heffective, rfl⟩ | ⟨e, -, ho⟩ |
      ⟨r, -, ho⟩
    · obtain ⟨s₂, sub, t₂, hsub, hrun⟩ := runs_forM_ok hpermitted cap mem
      obtain ⟨s₃, sub', t₃, hsub', hrun'⟩ := runs_forM_ok heffective cap mem
      obtain ⟨_, ho, permitted⟩ := requirePermitted_run hrun
      cases ho
      obtain ⟨_, ho, effective⟩ := requireEffective_run hrun'
      cases ho
      constructor
      · cases permitted with
        | held told => exact ⟨s₂, .tail _ (List.mem_append_left _ (hsub (.head _))), told⟩
      · cases effective with
        | held told => exact .inl ⟨s₃, .tail _ (List.mem_append_right _ (hsub' (.head _))), told⟩
        | @raised s₄ told raised =>
          exact .inr ⟨s₄, .tail _ (List.mem_append_right _ (hsub' (.tail _ (.head _)))), raised⟩
    · simp at ho
    · simp at ho

end Capability

theorem runs_adapt {α ε ε' : Type} {x : Attempt ε α} {f : ε → ε'} {s t : σ}
    {calls : List (Moment σ)} {o : Outcome (Except ε' α)} (h : (x.adapt f).run.Runs m s calls o t) :
    ∃ inner, x.run.Runs m s calls inner t ∧ o = inner.map (·.mapError f) := by
  change (x.run >>= fun r => pure (r.mapError f)).Runs m s calls _ t at h
  rcases runs_bind.mp h with ⟨r, s₁, front, back, hx, hpure, rfl⟩ | ⟨r, hx, rfl⟩
  · obtain ⟨rfl, rfl, rfl⟩ := runs_pure.mp hpure
    rw [List.append_nil]
    exact ⟨_, hx, rfl⟩
  · exact ⟨_, hx, rfl⟩

theorem runs_adapt_ok {α ε ε' : Type} {x : Attempt ε α} {f : ε → ε'} {a : α} {s t : σ}
    {calls : List (Moment σ)} (h : (x.adapt f).run.Runs m s calls (.finished (.ok a)) t) :
    x.run.Runs m s calls (.finished (.ok a)) t := by
  obtain ⟨(_ | _) | _, hx, ho⟩ := runs_adapt h <;> cases ho
  exact hx

namespace Gateway

/-- All that starting a gateway can do: it stops at settings that are not valid or at privileges that
are missing, and applies the umask last. -/
inductive StartRun (m : Machine σ) (c : Config) (s : σ) :
    List (Moment σ) → Except StartError Gateway → σ → Prop where
  | invalid {e : ConfigError} (invalid : c.validate = .error e) :
      StartRun m c s [] (.error (.config e)) s
  | refused {e : CapabilityError} {calls : List (Moment σ)} {t : σ} (valid : c.validate = .ok ())
      (check : Capability.ensure.run.Runs m s calls (.finished (.error e)) t) :
      StartRun m c s calls (.error (.capabilities e)) t
  | unmasked {calls : List (Moment σ)} {t : σ} (valid : c.validate = .ok ())
      (check : Capability.ensure.run.Runs m s calls (.finished (.ok ())) t)
      (none : c.umask = none) : StartRun m c s calls (.ok ⟨c⟩) t
  | masked {mask : UInt32} {calls : List (Moment σ)} {t : σ} (valid : c.validate = .ok ())
      (check : Capability.ensure.run.Runs m s calls (.finished (.ok ())) t)
      (some : c.umask = some mask) :
      StartRun m c s (calls ++ [⟨.setUmask (mask &&& Mode.permissions), t⟩]) (.ok ⟨c⟩)
        (m (.setUmask (mask &&& Mode.permissions)) t).2

theorem start_startRun {c : Config} {s t : σ} {calls : List (Moment σ)}
    {o : Outcome (Except StartError Gateway)} (h : (start c).run.Runs m s calls o t) :
    ∃ r, o = .finished r ∧ StartRun m c s calls r t := by
  unfold start at h
  rcases valid : c.validate with e | _
  · rw [valid] at h
    obtain ⟨rfl, rfl, rfl⟩ := runs_done.mp h
    exact ⟨_, rfl, .invalid valid⟩
  rw [valid] at h
  rcases (Capability.ensure_privilege.adapt _).runs_attempt h with
    ⟨_, s₁, front, back, passed, masking, rfl⟩ | ⟨e, stopped, rfl⟩
  · have check := runs_adapt_ok passed
    cases hu : c.umask with
    | none =>
      rw [hu] at masking
      obtain ⟨rfl, rfl, rfl⟩ := runs_done.mp masking
      rw [List.append_nil]
      exact ⟨_, rfl, .unmasked valid check hu⟩
    | some mask =>
      rw [hu] at masking
      obtain ⟨_, rfl, last⟩ := runs_call.mp masking
      obtain ⟨rfl, rfl, rfl⟩ := runs_done.mp last
      exact ⟨_, rfl, .masked valid check hu⟩
  · obtain ⟨inner, check, ho⟩ := runs_adapt stopped
    rcases inner with (e' | _) | _ <;> cases ho
    exact ⟨_, rfl, .refused valid check⟩

end Gateway

namespace IdentityScope

/-- The calls show that a thread took on an identity: switching was not given up, both privileges
were granted, and all three switches took effect before the scope was marked open. -/
structure Admitted (m : Machine σ) (i : Identity) (calls : List (Moment σ)) : Prop where
  enabled : ∃ s, ⟨.switchingDisabled, s⟩ ∈ calls ∧ (m .switchingDisabled s).1 = false
  granted : ∀ cap, Capability.Granted m calls cap
  fsgid : ∃ s, ⟨.setFsgid i.gid, s⟩ ∈ calls ∧ Moment.succeeds m ⟨.setFsgid i.gid, s⟩
  fsuid : ∃ s, ⟨.setFsuid i.uid, s⟩ ∈ calls ∧ Moment.succeeds m ⟨.setFsuid i.uid, s⟩
  groups : ∃ s, ⟨.setGroups i.groups, s⟩ ∈ calls ∧ Moment.succeeds m ⟨.setGroups i.groups, s⟩
  opened : ∃ s, ⟨.setActive true, s⟩ ∈ calls

theorem Admitted.mono {i : Identity} {calls more : List (Moment σ)} (h : Admitted m i calls)
    (sub : calls ⊆ more) : Admitted m i more := by
  obtain ⟨⟨s₁, h₁, hr⟩, granted, ⟨s₂, h₂, gid⟩, ⟨s₃, h₃, uid⟩, ⟨s₄, h₄, groups⟩, s₅, h₅⟩ := h
  exact ⟨⟨s₁, sub h₁, hr⟩, fun cap => (granted cap).mono sub, ⟨s₂, sub h₂, gid⟩,
    ⟨s₃, sub h₃, uid⟩, ⟨s₄, sub h₄, groups⟩, s₅, sub h₅⟩

theorem switchTo_admitted {i : Identity} {scope : IdentityScope} {s t : σ}
    {calls : List (Moment σ)} (h : (switchTo i).run.Runs m s calls (.finished (.ok scope)) t) :
    (∃ s₁, ⟨.setFsgid i.gid, s₁⟩ ∈ calls ∧ Moment.succeeds m ⟨.setFsgid i.gid, s₁⟩) ∧
    (∃ s₁, ⟨.setFsuid i.uid, s₁⟩ ∈ calls ∧ Moment.succeeds m ⟨.setFsuid i.uid, s₁⟩) ∧
    (∃ s₁, ⟨.setGroups i.groups, s₁⟩ ∈ calls ∧ Moment.succeeds m ⟨.setGroups i.groups, s₁⟩) ∧
    ∃ s₁, ⟨.setActive true, s₁⟩ ∈ calls := by
  obtain ⟨rest, rfl, h₁⟩ := runs_ask_bind.mp h
  rcases hgid : (m (.setFsgid i.gid) s).1 with f | gid
  · rw [hgid] at h₁
    have := runs_done.mp h₁
    simp at this
  rw [hgid] at h₁
  obtain ⟨rest, rfl, h₂⟩ := runs_ask_bind.mp h₁
  rcases huid : (m (.setFsuid i.uid) (m (.setFsgid i.gid) s).2).1 with f | uid
  · rw [huid] at h₂
    rcases runs_lift_throw.mp h₂ with ⟨_, -, ho⟩ | ⟨_, -, ho⟩ <;> simp at ho
  rw [huid] at h₂
  obtain ⟨rest, rfl, h₃⟩ := runs_ask_bind.mp h₂
  rcases hgroups : (m (.setGroups i.groups)
    (m (.setFsuid i.uid) (m (.setFsgid i.gid) s).2).2).1 with f | _
  · rw [hgroups] at h₃
    rcases runs_lift_throw.mp h₃ with ⟨_, -, ho⟩ | ⟨_, -, ho⟩ <;> simp at ho
  rw [hgroups] at h₃
  obtain ⟨rest, rfl, -⟩ := runs_ask_bind.mp h₃
  refine ⟨⟨s, .head _, ?_⟩, ⟨_, .tail _ (.head _), ?_⟩, ⟨_, .tail _ (.tail _ (.head _)), ?_⟩,
    _, .tail _ (.tail _ (.tail _ (.head _)))⟩
  · simp [Moment.succeeds, hgid, Except.isOk, Except.toBool]
  · simp [Moment.succeeds, huid, Except.isOk, Except.toBool]
  · simp [Moment.succeeds, hgroups, Except.isOk, Except.toBool]

theorem enter_admitted {i : Identity} {scope : IdentityScope} {s t : σ} {calls : List (Moment σ)}
    (h : (enter i).run.Runs m s calls (.finished (.ok scope)) t) : Admitted m i calls := by
  rw [enter_eq] at h
  rcases runs_attempt.mp h with ⟨_, s₁, front, back, -, h₁, rfl⟩ | ⟨e, -, ho⟩ | ⟨r, -, ho⟩
  · rcases runs_attempt.mp h₁ with ⟨_, s₂, mid, back, hensure, h₂, rfl⟩ | ⟨e, -, ho⟩ | ⟨r, -, ho⟩
    · obtain ⟨⟨s₃, he, enabled⟩, granted⟩ := Capability.ensure_run (runs_adapt_ok hensure)
      obtain ⟨⟨s₄, hgid, ok⟩, ⟨s₅, huid, ok'⟩, ⟨s₆, hgroups, ok''⟩, s₇, hopen⟩ :=
        switchTo_admitted h₂
      have sub : mid ⊆ front ++ (mid ++ back) := fun e he => by simp [he]
      exact ⟨⟨s₃, sub he, enabled⟩, fun cap => (granted cap).mono sub, ⟨s₄, by simp [hgid], ok⟩,
        ⟨s₅, by simp [huid], ok'⟩, ⟨s₆, by simp [hgroups], ok''⟩, s₇, by simp [hopen]⟩
    · simp at ho
    · simp at ho
  · simp at ho
  · simp at ho

end IdentityScope

end Impersonation
