import Impersonation.Proofs.Opening

namespace Impersonation

open Program

/-- A question to the users' directory or a call to the storage. -/
def Call.isPlain (c : Call) : Bool :=
  c.isLookup || c.isStorage

theorem Call.isPlain_of_isLookup {c : Call} (hc : c.isLookup) : c.isPlain := by
  simp [isPlain, hc]

/-- A program made of plain calls and of scopes, nested in any way. It may come to a value, fail or
crash anywhere. -/
inductive Orderly : {α : Type} → Program α → Prop where
  | plain {α : Type} {x : Program α} (h : x.Only (·.isPlain) True) : Orderly x
  | bind {α β : Type} {x : Program α} {f : α → Program β} (first : Orderly x)
      (rest : ∀ a, Orderly (f a)) : Orderly (x >>= f)
  | identity {α : Type} (entry : Entry) {body : Program α} (inside : Orderly body) :
      Orderly (IdentityScope.within entry.attempt body).run
  | root {α : Type} {body : Program α} (inside : Orderly body) :
      Orderly (RootScope.within body).run

namespace Orderly

variable {α β ε : Type}

theorem pure (a : α) : Orderly (Pure.pure a : Program α) :=
  .plain (only_pure a)

theorem perform (r : Request) : Orderly (Program.perform r) :=
  .plain (only_perform rfl trivial)

theorem attempt {x : Attempt ε α} {f : α → Attempt ε β} (first : Orderly x.run)
    (rest : ∀ a, Orderly (f a).run) : Orderly (x >>= f).run := by
  rw [ExceptT.run_bind]
  refine first.bind fun r => ?_
  cases r with
  | ok a => exact rest a
  | error e => exact pure _

theorem lift {x : Program α} (h : Orderly x) : Orderly (liftM x : Attempt ε α).run :=
  h.bind fun _ => pure _

end Orderly

theorem Identity.resolve_orderly (c : Config) (user : String) : Orderly (resolve c user).run :=
  .plain ((resolve_lookup c user).mono (fun _ => Call.isPlain_of_isLookup) fun _ => trivial)

theorem GroupSearch.firstExisting_only (target : Path) (ps : List Path) (steps : Nat) :
    (firstExisting target ps steps).run.Only (fun c => ∃ p ∈ ps, c = .probe p) True := by
  induction ps generalizing steps with
  | nil => trivial
  | cons p above ih =>
    unfold firstExisting
    refine Only.attempt (Only.lift (only_probe ⟨p, List.mem_cons_self, rfl⟩ trivial)) fun r => ?_
    cases r with
    | ok stat => trivial
    | error f =>
      dsimp only
      split
      · refine (ih (steps + 1)).mono (fun c hc => ?_) id
        obtain ⟨q, hq, rfl⟩ := hc
        exact ⟨q, List.mem_cons_of_mem p hq, rfl⟩
      · trivial

theorem GroupSearch.run_orderly (user : String) (primary : UInt32) (p : Path) :
    Orderly (GroupSearch.run user primary p).run := by
  have looks : Orderly (firstExisting p p.ancestors 0).run := by
    refine .plain ((firstExisting_only p p.ancestors 0).mono (fun c hc => ?_) id)
    obtain ⟨q, -, rfl⟩ := hc
    rfl
  unfold GroupSearch.run nearestExisting
  refine .attempt (.attempt (.lift (.root looks)) fun found => ?_) fun found => ?_
  · rcases found with f | e | found
    · exact .pure _
    · exact .pure _
    · exact .pure _
  · refine .attempt (.lift (.plain (only_ask.mpr rfl))) fun groups => ?_
    cases groups with
    | error f => exact .pure _
    | ok groups =>
      dsimp only
      split
      · exact .pure _
      · exact .pure _

namespace Gateway

theorem handleInternal_orderly (g : Gateway) (r : Request) : Orderly (g.handleInternal r) := by
  unfold handleInternal
  split
  · refine .bind (.root (.perform r)) fun response => ?_
    cases response <;> exact .pure _
  · exact .perform r

theorem handleAnonymous_orderly (r : Request) : Orderly (handleAnonymous r) := by
  refine .bind (.identity .anonymous (.perform r)) fun response => ?_
  cases response <;> exact .pure _

theorem handBack_only (r : Request) (gid : UInt32) :
    (handBack r gid).Only (· = .setOwner r.path none (some gid)) True :=
  Only.bind (x := setOwner r.path none (some gid)) (only_setOwner rfl trivial)
    fun _ => only_pure ()

theorem runWithGroup_orderly (i : Identity) (found : GroupMatch) (r : Request) :
    Orderly (runWithGroup i found r) := by
  have handedBack : Orderly (handBack r i.gid) :=
    .plain ((handBack_only r i.gid).mono (fun c hc => hc ▸ rfl) id)
  refine .bind (.identity (.identity (i.withGid found.gid)) ?_) fun response => ?_
  · refine .bind (.perform r) fun response => ?_
    split
    · exact handedBack.bind fun _ => .pure _
    · exact .pure _
  · cases response <;> exact .pure _

theorem retry_orderly (user : String) (i : Identity) (r : Request) (refusal : Response) :
    Orderly (retry user i r refusal) := by
  refine .bind (GroupSearch.run_orderly user i.gid r.path) fun found => ?_
  cases found with
  | error e => exact .pure _
  | ok found =>
    dsimp only
    split
    · exact .pure _
    · exact runWithGroup_orderly i found r

theorem handleUser_orderly (g : Gateway) (user : String) (r : Request) :
    Orderly (g.handleUser user r) := by
  refine (Identity.resolve_orderly g.config user).bind fun i => ?_
  cases i with
  | error e => exact .pure _
  | ok i =>
    refine .bind (.identity (.identity i) (.perform r)) fun response => ?_
    cases response with
    | error e => exact .pure _
    | ok response =>
      dsimp only
      split
      · exact retry_orderly user i r response
      · exact .pure _

/-- A gateway is made so, whoever asks for what. -/
theorem handle_orderly (g : Gateway) (e : Option Envelope) (r : Request) :
    Orderly (g.handle e r) := by
  unfold handle
  dsimp only
  rcases e with _ | e
  · exact g.handleInternal_orderly _
  · dsimp only
    rcases e.principal with refusal | _ | name
    · exact .pure _
    · exact handleAnonymous_orderly _
    · exact g.handleUser_orderly name _

end Gateway

end Impersonation
