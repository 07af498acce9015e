import Impersonation.Proofs.Accord
import Impersonation.Proofs.Attempts

namespace Impersonation

open Program

inductive GroupSearchError.Respells : GroupSearchError → GroupSearchError → Prop where
  | noMatch {p q : Path} (h : p.Respells q) (gid : UInt32) : Respells (.noMatch p gid) (.noMatch q gid)
  | invalidPath {p q : Path} (h : p.Respells q) : Respells (.invalidPath p) (.invalidPath q)
  | probe {p q : Path} (h : p.Respells q) (fault : Fault) : Respells (.probe p fault) (.probe q fault)
  | rootSwitch (fault : Fault) : Respells (.rootSwitch fault) (.rootSwitch fault)
  | groupLookup (user : String) (fault : Fault) :
      Respells (.groupLookup user fault) (.groupLookup user fault)

structure GroupMatch.Respells (found found' : GroupMatch) : Prop where
  gid : found'.gid = found.gid
  stickyGid : found'.stickyGid = found.stickyGid
  governing : found.governing.Respells found'.governing
  steps : found'.steps = found.steps

namespace GroupSearch

variable {p q : Path}

def SameNode (found found' : Path × FileStat × Nat) : Prop :=
  found.1.Respells found'.1 ∧ found'.2 = found.2

/-- The walks up from two spellings look at the same nodes and stop at the same one. -/
theorem firstExisting_respelled {ps qs : List Path} (h : List.Forall₂ Path.Respells ps qs)
    (target : p.Respells q) (steps : Nat) :
    (firstExisting p ps steps).run.Respells (Accord GroupSearchError.Respells SameNode)
      (firstExisting q qs steps).run := by
  induction h generalizing steps with
  | nil => exact .done (.error (.invalidPath target))
  | cons first _ ih =>
    refine (probe_respelled first).lift_bind fun looked _ same => ?_
    subst same
    cases looked with
    | ok stat => exact .done (.ok ⟨first, rfl⟩)
    | error f =>
      dsimp only
      split
      · exact ih (steps + 1)
      · exact .done (.error (.probe first f))

theorem nearestExisting_respelled (h : p.Respells q) :
    (nearestExisting p).run.Respells (Accord GroupSearchError.Respells SameNode)
      (nearestExisting q).run := by
  refine (Respells.within (firstExisting_respelled h.ancestors h 0)).lift_bind
    fun looked looked' accord => ?_
  cases accord with
  | ok found =>
    cases found with
    | ok near => exact .done (.ok near)
    | error failed => exact .done (.error failed)
  | error same => exact same ▸ .done (.error (.rootSwitch _))

/-- The search finds the same group for two spellings of a path, or fails in the same way. -/
theorem run_respelled (user : String) (primary : UInt32) (h : p.Respells q) :
    (run user primary p).run.Respells (Accord GroupSearchError.Respells GroupMatch.Respells)
      (run user primary q).run := by
  rw [run, run, ExceptT.run_bind, ExceptT.run_bind]
  refine (nearestExisting_respelled h).bind fun nearest nearest' accord => ?_
  cases accord with
  | error failed => exact .done (.error failed)
  | @ok found found' near =>
    obtain ⟨governing, stat, steps⟩ := found
    obtain ⟨governing', _, _⟩ := found'
    obtain ⟨spelled, same⟩ := near
    cases same
    refine (Respells.refl (fun _ => rfl) (ask (.listGroups user primary))).lift_bind (R := Eq)
      fun listed _ same => ?_
    subst same
    cases listed with
    | error f => exact .done (.error (.groupLookup user f))
    | ok groups =>
      dsimp only
      split
      · exact .done (.ok ⟨rfl, rfl, spelled, rfl⟩)
      · exact .done (.error (.noMatch spelled stat.gid))

end GroupSearch

namespace Gateway

variable {r r' : Request}

theorem adjust_respelled (h : r.Respells r') (g : Gateway) : (g.adjust r).Respells (g.adjust r') := by
  cases h with
  | mkdir mode h => exact .mkdir _ h
  | rename source target => exact .rename source target
  | _ => constructor; assumption

theorem handleInternal_respelled (h : r.Respells r') (g : Gateway) :
    (g.handleInternal r).Respells Eq (g.handleInternal r') := by
  unfold handleInternal
  rw [h.isStat]
  split
  · exact (Respells.within_eq (perform_respelled h)).before _
  · exact perform_respelled h

theorem handleAnonymous_respelled (h : r.Respells r') :
    (handleAnonymous r).Respells Eq (handleAnonymous r') :=
  (Respells.within_eq (perform_respelled h)).before _

theorem secondAttempt_respelled {found found' : GroupMatch} (h : r.Respells r') (i : Identity)
    (sticky : found'.stickyGid = found.stickyGid) :
    (secondAttempt i found r).Respells Eq (secondAttempt i found' r') := by
  refine (perform_respelled h).bind fun response _ same => ?_
  subst same
  rw [h.createsNode, sticky]
  split
  · exact ((setOwner_respelled h.path none (some i.gid)).before _).before _
  · exact .done rfl

theorem runWithGroup_respelled {found found' : GroupMatch} (h : r.Respells r') (i : Identity)
    (near : found.Respells found') :
    (runWithGroup i found r).Respells Eq (runWithGroup i found' r') := by
  rw [runWithGroup_eq, runWithGroup_eq, near.gid]
  exact (Respells.within_eq (secondAttempt_respelled h i near.stickyGid)).before _

theorem retry_respelled (h : r.Respells r') (user : String) (i : Identity) (refusal : Response) :
    (retry user i r refusal).Respells Eq (retry user i r' refusal) := by
  refine (GroupSearch.run_respelled user i.gid h.path).bind fun result result' accord => ?_
  cases accord with
  | error failed => exact .done rfl
  | ok near =>
    dsimp only
    rw [near.gid]
    split
    · exact .done rfl
    · exact runWithGroup_respelled h i near

theorem handleUser_respelled (h : r.Respells r') (g : Gateway) (user : String) :
    (g.handleUser user r).Respells Eq (g.handleUser user r') := by
  refine .after (Identity.resolve g.config user).run fun resolved => ?_
  cases resolved with
  | error e => exact .done rfl
  | ok i =>
    refine (Respells.within_eq (perform_respelled h)).bind fun result _ same => ?_
    subst same
    cases result with
    | error e => exact .done rfl
    | ok response =>
      dsimp only
      split
      · exact retry_respelled h user i _
      · exact .done rfl

theorem handle_respelled (h : r.Respells r') (g : Gateway) (e : Option Envelope) :
    (g.handle e r).Respells Eq (g.handle e r') := by
  have adjusted := adjust_respelled h g
  unfold handle
  dsimp only
  rcases e with _ | e
  · exact handleInternal_respelled adjusted g
  · dsimp only
    rcases e.principal with refusal | _ | name
    · exact .done rfl
    · exact handleAnonymous_respelled adjusted
    · exact handleUser_respelled adjusted g name

end Gateway

end Impersonation
