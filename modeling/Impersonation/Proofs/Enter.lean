import Impersonation.Proofs.Restore
import Mathlib.Tactic.Set

namespace Impersonation

open Program

namespace Capability

theorem isHeld_calls (set : CapabilitySet) (cap : Capability) :
    (isHeld set cap).run.Only (· = .hasCapability set cap) False := by
  unfold isHeld
  refine Only.attempt (Only.lift (only_ask.mpr rfl)) fun r => ?_
  cases r <;> trivial

theorem requirePermitted_calls (cap : Capability) : (requirePermitted cap).run.Only
    (fun c => c = .hasCapability .permitted cap ∨ c = .disableSwitching) False := by
  unfold requirePermitted
  refine Only.attempt ((isHeld_calls _ _).mono (fun _ => .inl) id) fun held => ?_
  cases held with
  | true => trivial
  | false => exact Only.attempt (Only.lift (only_ask.mpr (.inr rfl))) fun _ => trivial

theorem requireEffective_calls (cap : Capability) : (requireEffective cap).run.Only
    (fun c => c = .hasCapability .effective cap ∨ c = .raiseCapability cap) False := by
  unfold requireEffective
  refine Only.attempt ((isHeld_calls _ _).mono (fun _ => .inl) id) fun held => ?_
  cases held with
  | true => trivial
  | false =>
    refine Only.attempt (Only.lift (only_ask.mpr (.inr rfl))) fun r => ?_
    cases r <;> trivial

theorem ensure_privilege : ensure.run.Only (·.isPrivilege) False := by
  have permitted (cap : Capability) : (requirePermitted cap).run.Only (·.isPrivilege) False :=
    (requirePermitted_calls cap).mono (by rintro _ (rfl | rfl) <;> rfl) id
  have effective (cap : Capability) : (requireEffective cap).run.Only (·.isPrivilege) False :=
    (requireEffective_calls cap).mono (by rintro _ (rfl | rfl) <;> rfl) id
  unfold ensure
  refine Only.attempt (Only.lift (only_ask.mpr rfl)) fun disabled => ?_
  cases disabled with
  | true => trivial
  | false =>
    exact Only.attempt (only_forM fun cap _ => permitted cap) fun _ =>
      only_forM fun cap _ => effective cap

theorem ensure_only : ensure.run.Only (·.isQuiet) False :=
  ensure_privilege.mono (fun _ => Call.isQuiet_of_isPrivilege) id

end Capability

variable {σ : Type} {m : Machine σ} {v : View σ}

namespace IdentityScope

theorem checkThread_flags : checkThread.run.Only (· = .scopeFlags) False := by
  unfold checkThread
  refine Only.attempt (Only.lift (only_ask.mpr rfl)) fun flags => ?_
  cases flags.poisoned <;> cases flags.active <;> trivial

theorem checkThread_only : checkThread.run.Only (·.isQuiet) False :=
  checkThread_flags.mono (fun _ hc => hc ▸ rfl) id

theorem checkThread_standing : checkThread.run.Only (·.isStanding) False :=
  checkThread_flags.mono (fun _ hc => hc ▸ rfl) id

theorem checkThread_run (hm : Honest m v) {s t : σ} {calls : List (Moment σ)}
    {o : Outcome (Except IdentityError Unit)} (h : checkThread.run.Runs m s calls o t) :
    (v.standing s).flags = {} ∧ o = .finished (.ok ()) ∨
      (v.standing s).flags ≠ {} ∧ ∃ e, o = .finished (.error e) := by
  obtain ⟨_, rfl, h₁⟩ := runs_call.mp h
  have hflags := (hm.obeys .scopeFlags s).1
  rcases hf : (v.standing s).flags with ⟨active, poisoned⟩
  rw [hflags, hf] at h₁
  cases poisoned <;> cases active <;> obtain ⟨-, rfl, -⟩ := runs_done.mp h₁ <;> simp

/-- The switch to an identity, once the thread may change ids. -/
def switchTo (i : Identity) : Attempt IdentityError IdentityScope := do
  match ← ask (.setFsgid i.gid) with
  | .error f => throw (.switch f)
  | .ok gid =>
    match ← ask (.setFsuid i.uid) with
    | .error f =>
      restore none gid
      throw (.switch f)
    | .ok uid =>
      match ← ask (.setGroups i.groups) with
      | .error f =>
        restore (some uid) gid
        throw (.switch f)
      | .ok () =>
        ask (.setActive true)
        return switched uid gid

theorem enter_eq (i : Identity) :
    enter i = (do checkThread; Capability.ensure.adapt .capabilities; switchTo i) :=
  rfl

theorem switchTo_standing (i : Identity) : (switchTo i).run.Only (·.isStanding) False := by
  unfold switchTo
  refine Only.attempt (Only.lift (only_ask.mpr rfl)) fun gid => ?_
  rcases gid with f | gid
  · trivial
  refine Only.attempt (Only.lift (only_ask.mpr rfl)) fun uid => ?_
  rcases uid with f | uid
  · exact Only.attempt (Only.lift (restore_standing none gid)) fun _ => trivial
  refine Only.attempt (Only.lift (only_ask.mpr rfl)) fun groups => ?_
  rcases groups with f | groups
  · exact Only.attempt (Only.lift (restore_standing (some uid) gid)) fun _ => trivial
  · exact Only.attempt (Only.lift (only_ask.mpr rfl)) fun _ => trivial

theorem enter_only (i : Identity) : (enter i).run.Only (·.isStorage = false) False := by
  rw [enter_eq]
  have quiet {x : Program (Except IdentityError Unit)} (hx : x.Only (·.isQuiet) False) :
      x.Only (·.isStorage = false) False :=
    hx.mono (fun _ => Call.not_isStorage_of_isQuiet) id
  exact Only.attempt (quiet checkThread_only) fun _ =>
    Only.attempt (quiet (Capability.ensure_only.adapt _)) fun _ =>
      (switchTo_standing i).mono (fun _ => Call.not_isStorage_of_isStanding) id

theorem enterAnonymous_standing : enterAnonymous.run.Only (·.isStanding) False := by
  unfold enterAnonymous
  refine Only.attempt checkThread_standing fun _ => ?_
  exact Only.attempt (Only.lift (only_ask.mpr rfl)) fun _ => trivial

theorem enterAnonymous_only : enterAnonymous.run.Only (·.isStorage = false) False :=
  enterAnonymous_standing.mono (fun _ => Call.not_isStorage_of_isStanding) id

theorem leave_standing (scope : IdentityScope) : scope.leave.Only (·.isStanding) False := by
  cases scope with
  | switched uid gid => exact (restore_standing (some uid) gid).bind fun _ => only_ask.mpr rfl
  | unswitched => exact only_ask.mpr rfl

theorem leave_only (scope : IdentityScope) : scope.leave.Only (·.isStorage = false) False :=
  (leave_standing scope).mono (fun _ => Call.not_isStorage_of_isStanding) id

/-- What entering the scope of an identity does: nothing takes effect, or a switch that is not
complete is undone, or the thread has the ids of the identity. -/
inductive EnterRun (m : Machine σ) (v : View σ) (i : Identity) (s : σ) :
    List (Moment σ) → Except IdentityError IdentityScope → σ → Prop where
  | refused {calls : List (Moment σ)} {cause : IdentityError} {t : σ}
      (idle : ∀ e ∈ calls, e.call.isQuiet ∨ e.succeeds m = false)
      (standing : v.standing t = v.standing s) : EnterRun m v i s calls (.error cause) t
  | undone (front : List (Moment σ)) {undo : List (Moment σ)} {uid : Option UInt32}
      {cause : IdentityError} {s₁ t : σ} (unmarked : (v.standing s).flags = {})
      (front_calls : ∀ e ∈ front, e.call.isQuiet ∨ e.call.isSwitch)
      (replaced_gid : ReplacedGid m front (v.standing s).ids.fsgid)
      (replaced_uid : ∀ u, uid = some u → ReplacedUid m front u)
      (flags : (v.standing s₁).flags = {})
      (fsuid : uid.getD (v.standing s₁).ids.fsuid = (v.standing s).ids.fsuid)
      (restoring : RestoreRun m v uid (v.standing s).ids.fsgid s₁ undo t) :
      EnterRun m v i s (front ++ undo) (.error cause) t
  | entered (front : List (Moment σ)) {s₁ t : σ} (unmarked : (v.standing s).flags = {})
      (front_calls : ∀ e ∈ front, e.call.isQuiet ∨ e.call.isSwitch)
      (replaced_gid : ReplacedGid m front (v.standing s).ids.fsgid)
      (replaced_uid : ReplacedUid m front (v.standing s).ids.fsuid)
      (standing : v.standing t = ⟨⟨i.uid, i.gid, v.keep t i.groups⟩, { active := true }⟩) :
      EnterRun m v i s (front ++ [⟨.setActive true, s₁⟩])
        (.ok (switched (v.standing s).ids.fsuid (v.standing s).ids.fsgid)) t

/-- Quiet calls before a switch change nothing about it. -/
theorem EnterRun.after_quiet {i : Identity} {s s₁ t : σ} {before calls : List (Moment σ)}
    {r : Except IdentityError IdentityScope} (h : EnterRun m v i s₁ calls r t)
    (quiet : ∀ e ∈ before, e.call.isQuiet) (same : v.standing s₁ = v.standing s) :
    EnterRun m v i s (before ++ calls) r t := by
  cases h with
  | refused idle standing =>
    refine .refused (fun e he => ?_) (standing.trans same)
    rcases List.mem_append.mp he with he | he
    · exact .inl (quiet e he)
    · exact idle e he
  | @undone front undo uid _ s₂ _ unmarked front_calls replaced_gid replaced_uid flags fsuid
      restoring =>
    rw [same] at unmarked replaced_gid fsuid restoring
    rw [← List.append_assoc]
    refine .undone (before ++ front) unmarked (fun e he => ?_)
      (replaced_gid.mono (List.subset_append_right _ _))
      (fun u hu => (replaced_uid u hu).mono (List.subset_append_right _ _)) flags fsuid restoring
    rcases List.mem_append.mp he with he | he
    · exact .inl (quiet e he)
    · exact front_calls e he
  | @entered front s₂ _ unmarked front_calls replaced_gid replaced_uid standing =>
    rw [same] at unmarked replaced_gid replaced_uid
    rw [same, ← List.append_assoc]
    refine .entered (before ++ front) unmarked (fun e he => ?_)
      (replaced_gid.mono (List.subset_append_right _ _))
      (replaced_uid.mono (List.subset_append_right _ _)) standing
    rcases List.mem_append.mp he with he | he
    · exact .inl (quiet e he)
    · exact front_calls e he

theorem EnterRun.of_undo (hm : Honest m v) {i : Identity} (front : List (Moment σ))
    {undo : List (Moment σ)} {uid : Option UInt32} {cause : IdentityError} {s s₁ t : σ}
    {o : Outcome (Except IdentityError IdentityScope)} (unmarked : (v.standing s).flags = {})
    (front_calls : ∀ e ∈ front, e.call.isQuiet ∨ e.call.isSwitch)
    (replaced_gid : ReplacedGid m front (v.standing s).ids.fsgid)
    (replaced_uid : ∀ u, uid = some u → ReplacedUid m front u)
    (flags : (v.standing s₁).flags = {})
    (fsuid : uid.getD (v.standing s₁).ids.fsuid = (v.standing s).ids.fsuid)
    (h : ((do
      let _ ← (liftM (restore uid (v.standing s).ids.fsgid) : Attempt IdentityError Unit)
      throw cause : Attempt IdentityError IdentityScope).run).Runs m s₁ undo o t) :
    ∃ r, o = .finished r ∧ EnterRun m v i s (front ++ undo) r t := by
  rcases runs_lift_throw.mp h with ⟨_, hundo, rfl⟩ | ⟨_, hundo, rfl⟩
  · exact ⟨_, rfl, .undone front unmarked front_calls replaced_gid replaced_uid flags fsuid
      (restore_run hm hundo).2⟩
  · exact absurd (restore_run hm hundo).1 (by simp)

theorem switchTo_run (hm : Honest m v) {i : Identity} {s t : σ} {calls : List (Moment σ)}
    {o : Outcome (Except IdentityError IdentityScope)} (unmarked : (v.standing s).flags = {})
    (h : (switchTo i).run.Runs m s calls o t) :
    ∃ r, o = .finished r ∧ EnterRun m v i s calls r t := by
  obtain ⟨_, rfl, h₁⟩ := runs_call.mp h
  set s₁ := (m (.setFsgid i.gid) s).2
  rcases hm.obeys (.setFsgid i.gid) s with ⟨f, hgid, hs₁⟩ | ⟨hgid, hs₁⟩
  · rw [hgid] at h₁
    obtain ⟨rfl, rfl, rfl⟩ := runs_done.mp h₁
    refine ⟨_, rfl, .refused ?_ hs₁⟩
    simp [Moment.succeeds, hgid, Except.isOk, Except.toBool]
  rw [hgid] at h₁
  obtain ⟨_, rfl, h₂⟩ := runs_call.mp h₁
  set s₂ := (m (.setFsuid i.uid) s₁).2
  rcases hm.obeys (.setFsuid i.uid) s₁ with ⟨f, huid, hs₂⟩ | ⟨huid, hs₂⟩
  · -- Only the group was switched.
    rw [huid] at h₂
    refine EnterRun.of_undo hm [⟨.setFsgid i.gid, s⟩, ⟨.setFsuid i.uid, s₁⟩] unmarked
      ?_ ?_ ?_ ?_ ?_ h₂
    · simp [Call.isSwitch]
    · exact ⟨i.gid, s, by simp, hgid⟩
    · simp
    · rw [hs₂, hs₁]
      exact unmarked
    · rw [hs₂, hs₁]
      rfl
  rw [huid, hs₁] at h₂
  rw [hs₁] at huid
  obtain ⟨_, rfl, h₃⟩ := runs_call.mp h₂
  set s₃ := (m (.setGroups i.groups) s₂).2
  have unmarked₂ : (v.standing s₂).flags = {} := by
    rw [hs₂, hs₁]
    exact unmarked
  rcases hm.obeys (.setGroups i.groups) s₂ with ⟨f, hgids, hs₃⟩ | ⟨hgids, hs₃⟩
  · -- The group and the user were switched.
    rw [hgids] at h₃
    refine EnterRun.of_undo hm [⟨.setFsgid i.gid, s⟩, ⟨.setFsuid i.uid, s₁⟩,
      ⟨.setGroups i.groups, s₂⟩] unmarked ?_ ?_ ?_ ?_ ?_ h₃
    · simp [Call.isSwitch]
    · exact ⟨i.gid, s, by simp, hgid⟩
    · rintro u ⟨⟩
      exact ⟨i.uid, s₁, by simp, huid⟩
    · rw [hs₃]
      exact unmarked₂
    · rfl
  rw [hgids] at h₃
  obtain ⟨_, rfl, h₄⟩ := runs_call.mp h₃
  obtain ⟨rfl, rfl, rfl⟩ := runs_done.mp h₄
  refine ⟨_, rfl, .entered [⟨.setFsgid i.gid, s⟩, ⟨.setFsuid i.uid, s₁⟩,
    ⟨.setGroups i.groups, s₂⟩] unmarked ?_ ?_ ?_ ?_⟩
  · simp [Call.isSwitch]
  · exact ⟨i.gid, s, by simp, hgid⟩
  · exact ⟨i.uid, s₁, by simp, huid⟩
  · have hactive := hm.obeys (.setActive true) s₃
    rw [hm.keep_call, hm.keep_call, hactive, hs₃, hs₂, hs₁]
    simp only [Standing.withActive, Standing.withGroups, Standing.withFsuid, Standing.withFsgid,
      unmarked]

/-- Each run that enters the scope of an identity is of one of the three kinds. -/
theorem enter_run (hm : Honest m v) {i : Identity} {s t : σ} {calls : List (Moment σ)}
    {o : Outcome (Except IdentityError IdentityScope)} (h : (enter i).run.Runs m s calls o t) :
    ∃ r, o = .finished r ∧ EnterRun m v i s calls r t := by
  rw [enter_eq] at h
  have checkOnly := checkThread_only
  have ensureOnly := Capability.ensure_only.adapt IdentityError.capabilities
  rcases runs_attempt.mp h with ⟨_, s₁, front, back, hcheck, h₁, rfl⟩ | ⟨e, hcheck, rfl⟩ |
    ⟨r, hcheck, rfl⟩
  · have same₁ := hm.standing_of_quiet checkOnly hcheck
    have unmarked : (v.standing s).flags = {} := by
      rcases checkThread_run hm hcheck with ⟨hf, -⟩ | ⟨-, e, he⟩
      · exact hf
      · simp at he
    rcases runs_attempt.mp h₁ with ⟨_, s₂, front', back, hensure, h₂, rfl⟩ | ⟨e, hensure, rfl⟩ |
      ⟨r, hensure, rfl⟩
    · have same₂ := hm.standing_of_quiet ensureOnly hensure
      rw [← same₁, ← same₂] at unmarked
      obtain ⟨r, rfl, hr⟩ := switchTo_run hm unmarked h₂
      exact ⟨r, rfl, (hr.after_quiet (hensure.only ensureOnly) same₂).after_quiet
        (hcheck.only checkOnly) same₁⟩
    · have same₂ := hm.standing_of_quiet ensureOnly hensure
      refine ⟨_, rfl, .refused (fun e he => .inl ?_) (same₂.trans same₁)⟩
      rcases List.mem_append.mp he with he | he
      · exact hcheck.only checkOnly e he
      · exact hensure.only ensureOnly e he
    · obtain ⟨a, ha⟩ := hensure.finished ensureOnly
      simp at ha
  · exact ⟨_, rfl, .refused (fun e he => .inl (hcheck.only checkOnly e he))
      (hm.standing_of_quiet checkOnly hcheck)⟩
  · obtain ⟨a, ha⟩ := hcheck.finished checkOnly
    simp at ha

end IdentityScope

end Impersonation
