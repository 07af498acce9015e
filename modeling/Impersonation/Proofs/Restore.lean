import Impersonation.Proofs.Honest
import Impersonation.Scope

namespace Impersonation

open Program

def Moment.succeeds {σ : Type} (m : Machine σ) : Moment σ → Bool
  | ⟨.setFsuid uid, s⟩ => (m (.setFsuid uid) s).1.isOk
  | ⟨.setFsgid gid, s⟩ => (m (.setFsgid gid) s).1.isOk
  | ⟨.setGroups gids, s⟩ => (m (.setGroups gids) s).1.isOk
  | _ => true

variable {σ : Type} {m : Machine σ} {v : View σ}

theorem Moment.isSwitch_of_failed {e : Moment σ} (h : e.succeeds m = false) : e.call.isSwitch := by
  obtain ⟨c, s⟩ := e
  cases c with
  | setFsuid _ | setFsgid _ | setGroups _ => rfl
  | _ => simp [succeeds] at h

def ReplacedUid (m : Machine σ) (before : List (Moment σ)) (uid : UInt32) : Prop :=
  ∃ new s, ⟨.setFsuid new, s⟩ ∈ before ∧ (m (.setFsuid new) s).1 = .ok uid

def ReplacedGid (m : Machine σ) (before : List (Moment σ)) (gid : UInt32) : Prop :=
  ∃ new s, ⟨.setFsgid new, s⟩ ∈ before ∧ (m (.setFsgid new) s).1 = .ok gid

theorem ReplacedUid.mono {before later : List (Moment σ)} {uid : UInt32}
    (h : ReplacedUid m before uid) (sub : before ⊆ later) : ReplacedUid m later uid := by
  obtain ⟨new, s, mem, hr⟩ := h
  exact ⟨new, s, sub mem, hr⟩

theorem ReplacedGid.mono {before later : List (Moment σ)} {gid : UInt32}
    (h : ReplacedGid m before gid) (sub : before ⊆ later) : ReplacedGid m later gid := by
  obtain ⟨new, s, mem, hr⟩ := h
  exact ⟨new, s, sub mem, hr⟩

/-- A call that puts back an id which an earlier call replaced, or clears the groups. -/
def PutsBack (m : Machine σ) (before : List (Moment σ)) : Call → Prop
  | .setFsuid uid => ReplacedUid m before uid
  | .setFsgid gid => ReplacedGid m before gid
  | .setGroups gids => gids = []
  | _ => False

theorem PutsBack.mono {before later : List (Moment σ)} {c : Call} (h : PutsBack m before c)
    (sub : before ⊆ later) : PutsBack m later c := by
  cases c with
  | setFsuid uid => exact ReplacedUid.mono h sub
  | setFsgid gid => exact ReplacedGid.mono h sub
  | setGroups gids => exact h
  | _ => exact h.elim

/-- The last calls put ids back, and one of them failed. -/
def FailedRestoration (m : Machine σ) (calls : List (Moment σ)) : Prop :=
  ∃ front block, calls = front ++ block ∧ (∀ e ∈ block, PutsBack m front e.call) ∧
    ∃ e ∈ block, e.succeeds m = false

theorem FailedRestoration.after {calls : List (Moment σ)} (h : FailedRestoration m calls)
    (earlier : List (Moment σ)) : FailedRestoration m (earlier ++ calls) := by
  obtain ⟨front, block, rfl, puts, failed⟩ := h
  refine ⟨earlier ++ front, block, by rw [List.append_assoc], fun e he => ?_, failed⟩
  exact (puts e he).mono (List.subset_append_right _ _)

/-- Each time the thread is poisoned, ids could not be put back just before. -/
def Justified (m : Machine σ) : List (Moment σ) → List (Moment σ) → Prop :=
  Each fun front e => e.call = .poison → FailedRestoration m front

theorem Justified.of_unpoisoned {before calls : List (Moment σ)}
    (h : ∀ e ∈ calls, e.call ≠ .poison) : Justified m before calls :=
  Each.of_forall fun _ e he hpoison => absurd hpoison (h e he)

theorem Justified.append {before calls more : List (Moment σ)} (h : Justified m before calls)
    (h' : Justified m (before ++ calls) more) : Justified m before (calls ++ more) :=
  Each.append h h'

theorem Justified.after {before calls : List (Moment σ)} (h : Justified m before calls)
    (earlier : List (Moment σ)) : Justified m (earlier ++ before) calls :=
  Each.after h (fun earlier _ _ hp hpoison => (hp hpoison).after earlier) earlier

namespace IdentityScope

def restoreRest (uidBack : Bool) (gid : UInt32) : Program Unit := do
  let gidBack ← succeeds (ask (.setFsgid gid))
  let groupsCleared ← succeeds (ask (.setGroups []))
  unless uidBack && gidBack && groupsCleared do
    ask .poison

theorem restore_none (gid : UInt32) : restore none gid = restoreRest true gid :=
  rfl

theorem restore_some (uid gid : UInt32) :
    restore (some uid) gid = succeeds (ask (.setFsuid uid)) >>= (restoreRest · gid) :=
  rfl

theorem restoreRest_standing (uidBack : Bool) (gid : UInt32) :
    (restoreRest uidBack gid).Only (·.isStanding) False := by
  refine ⟨rfl, fun gidBack => ⟨rfl, fun cleared => ?_⟩⟩
  change Only _ _ (if (uidBack && gidBack.isOk && cleared.isOk) = true then pure () else ask .poison)
  split
  · trivial
  · exact only_ask.mpr rfl

theorem restore_standing (uid : Option UInt32) (gid : UInt32) :
    (restore uid gid).Only (·.isStanding) False := by
  cases uid with
  | none => exact restoreRest_standing true gid
  | some uid => exact ⟨rfl, fun r => restoreRest_standing r.isOk gid⟩

theorem restoreRest_run (hm : Honest m v) {uidBack : Bool} {gid : UInt32} {s t : σ}
    {calls : List (Moment σ)} {o : Outcome Unit}
    (h : (restoreRest uidBack gid).Runs m s calls o t) :
    o = .finished () ∧ ∃ s₁ rest, calls = ⟨.setFsgid gid, s⟩ :: ⟨.setGroups [], s₁⟩ :: rest ∧
      (uidBack ∧ rest = [] ∧
          v.standing t = ⟨⟨(v.standing s).ids.fsuid, gid, []⟩, (v.standing s).flags⟩ ∨
        (uidBack = false ∨ Moment.succeeds m ⟨.setFsgid gid, s⟩ = false ∨
            Moment.succeeds m ⟨.setGroups [], s₁⟩ = false) ∧
          ∃ s₂, rest = [⟨.poison, s₂⟩] ∧
            (v.standing t).flags = { (v.standing s).flags with poisoned := true }) := by
  obtain ⟨_, rfl, h₁⟩ := runs_call.mp h
  obtain ⟨_, rfl, h₂⟩ := runs_call.mp h₁
  have hgid := hm.obeys (.setFsgid gid) s
  have hgids := hm.obeys (.setGroups []) (m (.setFsgid gid) s).2
  have hflags := hm.flags_of_switch (c := .setFsgid gid) rfl s
  have hflags' := hm.flags_of_switch (c := .setGroups []) rfl (m (.setFsgid gid) s).2
  -- The mark depends on all three replies, the one for the user id being known already.
  change Runs m (if (uidBack && (m (.setFsgid gid) s).1.isOk &&
    (m (.setGroups []) (m (.setFsgid gid) s).2).1.isOk) = true then pure () else ask .poison)
    _ _ _ _ at h₂
  split at h₂
  next ok =>
    obtain ⟨rfl, rfl, rfl⟩ := runs_pure.mp h₂
    simp only [Bool.and_eq_true] at ok
    refine ⟨rfl, _, _, rfl, .inl ⟨ok.1.1, rfl, ?_⟩⟩
    rw [(hgids.of_isOk ok.2).2, (hgid.of_isOk ok.1.2).2, hm.keep_nil]
    rfl
  next bad =>
    obtain ⟨rfl, rfl, rfl⟩ := runs_ask.mp h₂
    simp only [Bool.not_eq_true, Bool.and_eq_false_iff, or_assoc] at bad
    refine ⟨rfl, _, _, rfl, .inr ⟨bad, _, rfl, ?_⟩⟩
    have hpoison := hm.obeys .poison (m (.setGroups []) (m (.setFsgid gid) s).2).2
    rw [hpoison, ← hflags, ← hflags']
    rfl

def restoreCalls (uid : Option UInt32) (gid : UInt32) : List Call :=
  uid.toList.map .setFsuid ++ [.setFsgid gid, .setGroups []]

/-- What putting ids back does: all its calls succeed, or the thread is poisoned after them. -/
inductive RestoreRun (m : Machine σ) (v : View σ) (uid : Option UInt32) (gid : UInt32) (s : σ) :
    List (Moment σ) → σ → Prop where
  | restored {block : List (Moment σ)} {t : σ}
      (calls : block.map (·.call) = restoreCalls uid gid)
      (standing : v.standing t =
        ⟨⟨uid.getD (v.standing s).ids.fsuid, gid, []⟩, (v.standing s).flags⟩) :
      RestoreRun m v uid gid s block t
  | poisoned (block : List (Moment σ)) {s₁ t : σ}
      (calls : block.map (·.call) = restoreCalls uid gid)
      (failed : ∃ e ∈ block, e.succeeds m = false)
      (flags : (v.standing t).flags = { (v.standing s).flags with poisoned := true }) :
      RestoreRun m v uid gid s (block ++ [⟨.poison, s₁⟩]) t

theorem RestoreRun.justified {uid : Option UInt32} {gid : UInt32} {s t : σ}
    {before calls : List (Moment σ)} (h : RestoreRun m v uid gid s calls t)
    (replaced_gid : ReplacedGid m before gid)
    (replaced_uid : ∀ u, uid = some u → ReplacedUid m before u) : Justified m before calls := by
  have puts {block : List (Moment σ)} (eq : block.map (·.call) = restoreCalls uid gid) :
      ∀ e ∈ block, PutsBack m before e.call := by
    intro e he
    have hc : e.call ∈ restoreCalls uid gid := eq ▸ List.mem_map_of_mem he
    rcases List.mem_append.mp hc with hc | hc
    · obtain ⟨u, hu, eq⟩ := List.mem_map.mp hc
      rw [← eq]
      exact replaced_uid u (Option.mem_toList.mp hu)
    · rcases List.mem_cons.mp hc with eq | hc
      · rw [eq]
        exact replaced_gid
      · rw [List.mem_singleton.mp hc]
        rfl
  have unpoisoned {block : List (Moment σ)} (eq : block.map (·.call) = restoreCalls uid gid) :
      Justified m before block := by
    refine .of_unpoisoned fun e he hpoison => ?_
    have := puts eq e he
    rw [hpoison] at this
    exact this
  cases h with
  | restored eq standing => exact unpoisoned eq
  | @poisoned block s₁ _ eq failed flags =>
    exact (unpoisoned eq).append (.single fun _ => ⟨before, block, rfl, puts eq, failed⟩)

theorem restore_run (hm : Honest m v) {uid : Option UInt32} {gid : UInt32} {s t : σ}
    {calls : List (Moment σ)} {o : Outcome Unit} (h : (restore uid gid).Runs m s calls o t) :
    o = .finished () ∧ RestoreRun m v uid gid s calls t := by
  cases uid with
  | none =>
    rw [restore_none] at h
    obtain ⟨rfl, s₁, rest, rfl, ⟨-, rfl, hs⟩ | ⟨bad, s₂, rfl, hs⟩⟩ := restoreRest_run hm h
    · exact ⟨rfl, .restored rfl hs⟩
    · refine ⟨rfl, .poisoned [_, _] rfl ?_ hs⟩
      simpa using bad
  | some uid =>
    rw [restore_some] at h
    obtain ⟨_, rfl, h₁⟩ := runs_call.mp h
    have huid := hm.obeys (.setFsuid uid) s
    have hflags := hm.flags_of_switch (c := .setFsuid uid) rfl s
    obtain ⟨rfl, s₁, rest, rfl, ⟨ok, rfl, hs⟩ | ⟨bad, s₂, rfl, hs⟩⟩ := restoreRest_run hm h₁
    · rw [(huid.of_isOk ok).2] at hs
      exact ⟨rfl, .restored rfl hs⟩
    · rw [hflags] at hs
      refine ⟨rfl, .poisoned [_, _, _] rfl ?_ hs⟩
      simpa [Moment.succeeds] using bad

end IdentityScope

end Impersonation
