import Impersonation.Proofs.Attempts

namespace Impersonation

open Program

def Outcome.isOk : Outcome Response → Bool
  | .finished response => response.isOk
  | .crashed _ => false

namespace Call

/-- What may be called for while a request has, or has not, succeeded. -/
def Fits (r : Request) (succeeded : Bool) : Call → Prop
  | perform r' => r' = r ∧ succeeded = false
  | setOwner p _ _ => p = r.path ∧ succeeded = true
  | _ => True

def succeeds (succeeded : Bool) : (c : Call) → c.Reply → Bool
  | perform _, reply => Outcome.isOk reply
  | _, _ => succeeded

def isHarmless : Call → Bool
  | perform _ | setOwner .. => false
  | _ => true

theorem Fits.of_isHarmless {c : Call} (hc : c.isHarmless) (r : Request) (succeeded : Bool) :
    c.Fits r succeeded := by
  cases c with
  | perform _ | setOwner _ _ _ => cases hc
  | _ => trivial

theorem succeeds_of_isHarmless {c : Call} (hc : c.isHarmless) (succeeded : Bool) (reply : c.Reply) :
    c.succeeds succeeded reply = succeeded := by
  cases c with
  | perform _ => cases hc
  | _ => rfl

theorem isHarmless_of_not_isStorage {c : Call} (hc : c.isStorage = false) : c.isHarmless := by
  cases c <;> first | rfl | cases hc

end Call

namespace Program

variable {α β ε : Type} {r : Request} {succeeded : Bool} {ok : α → Bool}

/-- A program that goes about a request so, with a value that says whether it has succeeded. -/
def Pursues (r : Request) (ok : α → Bool) : Bool → Program α → Prop
  | succeeded, done a => ok a = succeeded
  | _, crash _ => True
  | succeeded, call c k =>
    c.Fits r succeeded ∧ ∀ reply, (k reply).Pursues r ok (c.succeeds succeeded reply)

namespace Pursues

theorem bind {okβ : β → Bool} {x : Program α} {f : α → Program β} (hx : x.Pursues r ok succeeded)
    (hf : ∀ a, (f a).Pursues r okβ (ok a)) : (x >>= f).Pursues r okβ succeeded := by
  induction x generalizing succeeded with
  | done a =>
    have same : ok a = succeeded := hx
    rw [← same]
    exact hf a
  | crash reason => trivial
  | call c k ih => exact ⟨hx.1, fun reply => ih reply (hx.2 reply)⟩

theorem lift_bind {okβ : Except ε β → Bool} {x : Program α} {f : α → Attempt ε β}
    (hx : x.Pursues r ok succeeded) (hf : ∀ a, (f a).run.Pursues r okβ (ok a)) :
    ((do let a ← (liftM x : Attempt ε α); f a : Attempt ε β).run).Pursues r okβ succeeded := by
  rw [run_lift_bind]
  exact hx.bind hf

theorem of_only {x : Program α} (h : x.Only (·.isHarmless) True)
    (value : ∀ a, ok a = succeeded) : x.Pursues r ok succeeded := by
  induction x with
  | done a => exact value a
  | crash reason => trivial
  | call c k ih =>
    refine ⟨.of_isHarmless h.1 r succeeded, fun reply => ?_⟩
    rw [Call.succeeds_of_isHarmless h.1]
    exact ih reply (h.2 reply)

theorem of_idle {x : Program α} {crashes : Prop} (h : x.Only (·.isStorage = false) crashes)
    (value : ∀ a, ok a = succeeded) : x.Pursues r ok succeeded :=
  .of_only (h.mono (fun _ => Call.isHarmless_of_not_isStorage) fun _ => trivial) value

theorem closing {x : Program α} {last : Program Unit} {crashes : Prop}
    (hx : x.Pursues r ok succeeded) (idle : last.Only (·.isStorage = false) crashes) :
    (x.closing last).Pursues r ok succeeded := by
  have before (succeeded : Bool) : last.Pursues r (fun _ => succeeded) succeeded :=
    of_idle idle fun _ => rfl
  induction x generalizing succeeded with
  | done a => exact (before succeeded).bind fun _ => hx
  | crash reason => exact (before succeeded).bind fun _ => trivial
  | call c k ih => exact ⟨hx.1, fun reply => ih reply (hx.2 reply)⟩

theorem perform (r : Request) : (Program.perform r).Pursues r Response.isOk false := by
  refine ⟨⟨rfl, rfl⟩, fun reply => ?_⟩
  cases reply with
  | finished response => rfl
  | crashed reason => trivial

def okOf (ok : α → Bool) : Except ε α → Bool
  | .ok a => ok a
  | .error _ => false

theorem within {S : Type} {entering : Attempt ε S} {leave : S → Program Unit} {body : Program α}
    {b c : Prop} (entering_only : entering.run.Only (·.isStorage = false) b)
    (leave_only : ∀ scope, (leave scope).Only (·.isStorage = false) c)
    (inside : body.Pursues r ok false) :
    ((do let scope ← entering; liftM (body.closing (leave scope)) : Attempt ε α).run).Pursues
      r (okOf ok) false := by
  have entered : entering.run.Pursues r (fun _ => false) false := of_idle entering_only fun _ => rfl
  rw [ExceptT.run_bind]
  refine entered.bind fun result => ?_
  cases result with
  | error e => exact rfl
  | ok scope => exact (inside.closing (leave_only scope)).bind fun _ => rfl

end Pursues

end Program

theorem GroupSearch.run_pursues (user : String) (primary : UInt32) (p : Path) (r : Request) :
    (GroupSearch.run user primary p).run.Pursues r (fun _ => false) false := by
  have looks : (firstExisting p p.ancestors 0).run.Pursues r (fun _ => false) false := by
    refine .of_only ((firstExisting_only p p.ancestors 0).mono (fun c hc => ?_) id) fun _ => rfl
    obtain ⟨q, -, rfl⟩ := hc
    rfl
  have nearest : (nearestExisting p).run.Pursues r (fun _ => false) false := by
    refine (Pursues.within RootScope.enter_only RootScope.leave_only looks).lift_bind
      fun result => ?_
    rcases result with f | e | found <;> exact rfl
  rw [GroupSearch.run, ExceptT.run_bind]
  refine nearest.bind fun result => ?_
  rcases result with e | ⟨governing, stat, steps⟩
  · exact rfl
  · have idle : (ask (.listGroups user primary)).Only (·.isStorage = false) True :=
      only_ask.mpr rfl
    have listed : (ask (.listGroups user primary)).Pursues r (fun _ => false) false :=
      .of_idle idle fun _ => rfl
    refine listed.lift_bind fun groups => ?_
    cases groups with
    | error f => exact rfl
    | ok groups =>
      dsimp only
      split <;> exact rfl

namespace Gateway

theorem handleInternal_pursues (g : Gateway) (r : Request) :
    (g.handleInternal r).Pursues r Response.isOk false := by
  unfold handleInternal
  split
  · refine (Pursues.within RootScope.enter_only RootScope.leave_only (.perform r)).bind
      fun result => ?_
    cases result <;> exact rfl
  · exact .perform r

theorem handleAnonymous_pursues (r : Request) :
    (handleAnonymous r).Pursues r Response.isOk false := by
  refine (Pursues.within IdentityScope.enterAnonymous_only IdentityScope.leave_only
    (.perform r)).bind fun result => ?_
  cases result <;> exact rfl

theorem secondAttempt_pursues (i : Identity) (found : GroupMatch) (r : Request) :
    (secondAttempt i found r).Pursues r Response.isOk false := by
  refine (Pursues.perform r).bind fun response => ?_
  split
  next created =>
    have ok : response.isOk = true := by
      simp only [Bool.and_eq_true] at created
      exact created.1.1
    have given : (setOwner r.path none (some i.gid)).Pursues r (fun _ => true) true := by
      refine ⟨⟨rfl, rfl⟩, fun reply => ?_⟩
      cases reply with
      | finished result => rfl
      | crashed reason => trivial
    have handedBack : (handBack r i.gid).Pursues r (fun _ => response.isOk) response.isOk := by
      rw [ok]
      exact given.bind fun _ => rfl
    exact handedBack.bind fun _ => rfl
  next => exact rfl

theorem runWithGroup_pursues (i : Identity) (found : GroupMatch) (r : Request) :
    (runWithGroup i found r).Pursues r Response.isOk false := by
  rw [runWithGroup_eq]
  refine (Pursues.within (IdentityScope.enter_only _) IdentityScope.leave_only
    (secondAttempt_pursues i found r)).bind fun result => ?_
  cases result <;> exact rfl

theorem retry_pursues (user : String) (i : Identity) (r : Request) :
    (retry user i r .denied).Pursues r Response.isOk false := by
  refine (GroupSearch.run_pursues user i.gid r.path r).bind fun result => ?_
  cases result with
  | error e => exact rfl
  | ok found =>
    dsimp only
    split
    · exact rfl
    · exact runWithGroup_pursues i found r

theorem handleUser_pursues (g : Gateway) (user : String) (r : Request) :
    (g.handleUser user r).Pursues r Response.isOk false := by
  have resolved : (Identity.resolve g.config user).run.Pursues r (fun _ => false) false :=
    .of_idle ((Identity.resolve_only g.config user).mono
      (fun _ => Call.not_isStorage_of_isQuiet) id) fun _ => rfl
  refine resolved.bind fun result => ?_
  cases result with
  | error e => exact rfl
  | ok i =>
    refine (Pursues.within (IdentityScope.enter_only i) IdentityScope.leave_only
      (.perform r)).bind fun result => ?_
    cases result with
    | error e => exact rfl
    | ok response =>
      dsimp only
      split
      next again =>
        obtain ⟨rfl, -⟩ := again
        exact retry_pursues user i r
      next => exact rfl

theorem handle_pursues (g : Gateway) (e : Option Envelope) (r : Request) :
    (g.handle e r).Pursues (g.adjust r) Response.isOk false := by
  unfold handle
  dsimp only
  rcases e with _ | e
  · exact g.handleInternal_pursues _
  · dsimp only
    rcases e.principal with refusal | _ | name
    · exact rfl
    · exact handleAnonymous_pursues _
    · exact g.handleUser_pursues name _

end Gateway

end Impersonation
