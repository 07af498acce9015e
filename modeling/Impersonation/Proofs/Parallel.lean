import Impersonation.Proofs.Search
import Impersonation.Proofs.Plan

namespace Impersonation

open Program

namespace Tree

variable {t t₁ t₂ : Tree} {who : Ids} {c : Call}

/-- Two trees answer a call of a user alike, and it changes neither of them. -/
def Indifferent (t₁ t₂ : Tree) (who : Ids) : Call → Prop
  | .perform r => ∃ y, t₁.perform who r = (.finished y, t₁) ∧ t₂.perform who r = (.finished y, t₂)
  | .probe p => t₁.stat who p = t₂.stat who p
  | .setOwner p uid gid => ∃ f, t₁.chown who p uid gid = .error f ∧ t₂.chown who p uid gid = .error f
  | _ => True

theorem indifferent_of_not_isStorage (hc : c.isStorage = false) : t₁.Indifferent t₂ who c := by
  cases c with
  | perform _ | probe _ | setOwner _ _ _ => simp [Call.isStorage] at hc
  | _ => trivial

end Tree

namespace Station

variable {s : Station} {t t₁ t₂ : Tree} {c : Call}

/-- No call but those for the storage depends on the storage or on what was noted of it, or changes
them. -/
theorem answer_withStorage (hc : c.isStorage = false) (s : Station) (storage : Storage)
    (visits : Visits) :
    answer c (s.withStorage storage visits) =
      ((answer c s).1, (answer c s).2.withStorage storage visits) := by
  obtain ⟨thread, credentials, rules, users, _, groupFailures, _, _, _, _, _⟩ := s
  cases c with
  | ids | hasCapability _ _ | scopeFlags | setActive _ | poison | switchingDisabled
  | disableSwitching | setUmask _ | findUser _ => rfl
  | setFsuid _ | setFsgid _ | setGroups _ => cases credentials <;> rfl
  | raiseCapability cap =>
    simp only [answer, raise, withStorage]
    cases rules.findSome? (·.raised? cap) with
    | some f => rfl
    | none => cases credentials <;> rfl
  | listGroups name primary =>
    simp only [answer, listGroups, withStorage]
    cases groupFailures.lookup name with
    | some e => rfl
    | none => cases users <;> rfl
  | perform _ | probe _ | setOwner _ _ _ => simp [Call.isStorage] at hc

def withTree (s : Station) (t : Tree) : Station :=
  { s with site := { s.site with storage := .tree t } }

theorem answer_withTree_of_not_isStorage (hc : c.isStorage = false) (s : Station) (t : Tree) :
    answer c (s.withTree t) = ((answer c s).1, (answer c s).2.withTree t) := by
  have visits : (answer c s).2.site.visits = s.site.visits :=
    congrArg (·.2.site.visits) (answer_withStorage hc s s.site.storage s.site.visits)
  have with_tree (u : Station) : u.withTree t = u.withStorage (.tree t) u.site.visits := rfl
  rw [with_tree, with_tree, answer_withStorage hc, visits]

theorem answer_perform_withTree {r : Request} {y : Response}
    (h : t.perform s.treeIds r = (.finished y, t)) :
    answer (.perform r) (s.withTree t) = (.finished y,
      (s.withStorage s.site.storage (s.site.visits.request s.treeIds r)).withTree t) := by
  change ((t.perform s.treeIds r).1, s.withStorage (.tree (t.perform s.treeIds r).2)
    (s.site.visits.request s.treeIds r)) = _
  rw [h]
  rfl

theorem answer_setOwner_withTree {p : Path} {uid gid : Option UInt32} {f : Fault}
    (h : t.chown s.treeIds p uid gid = .error f) :
    answer (.setOwner p uid gid) (s.withTree t) = (.finished (.error f),
      (s.withStorage s.site.storage (s.site.visits.change s.treeIds)).withTree t) := by
  have refused : t.chown (s.withTree t).treeIds p uid gid = .error f := h
  have storage : (s.withTree t).site.storage = .tree t := rfl
  simp only [answer, setOwner, storage, refused]
  rfl

/-- A call to which two trees are indifferent is answered alike with either, and leaves it there. -/
theorem answer_withTree (h : t₁.Indifferent t₂ s.treeIds c) :
    ∃ (reply : c.Reply) (next : Station), answer c (s.withTree t₁) = (reply, next.withTree t₁) ∧
      answer c (s.withTree t₂) = (reply, next.withTree t₂) := by
  cases c with
  | perform r =>
    obtain ⟨y, first, second⟩ := h
    exact ⟨_, _, answer_perform_withTree first, answer_perform_withTree second⟩
  | probe p =>
    refine ⟨.finished (t₁.stat s.treeIds p), s.withStorage s.site.storage (s.site.visits.look p),
      rfl, ?_⟩
    have same : t₁.stat s.treeIds p = t₂.stat s.treeIds p := h
    rw [same]
    rfl
  | setOwner p uid gid =>
    obtain ⟨f, first, second⟩ := h
    exact ⟨_, _, answer_setOwner_withTree first, answer_setOwner_withTree second⟩
  | _ =>
    exact ⟨_, _, answer_withTree_of_not_isStorage rfl s t₁,
      answer_withTree_of_not_isStorage rfl s t₂⟩

/-- The same station under the same plan, once with each tree. -/
def Parallel (t₁ t₂ : Tree) (a b : Station × Plan) : Prop :=
  ∃ u rest, a = (withTree u t₁, rest) ∧ b = (withTree u t₂, rest)

theorem Parallel.planned {a b : Station × Plan} (h : Parallel t₁ t₂ a b)
    (indifferent : t₁.Indifferent t₂ a.1.treeIds c) :
    (answer.planned c b).1 = (answer.planned c a).1 ∧
      Parallel t₁ t₂ (answer.planned c a).2 (answer.planned c b).2 := by
  obtain ⟨u, plan, rfl, rfl⟩ := h
  have indifferent' : t₁.Indifferent t₂ u.treeIds c := indifferent
  obtain ⟨reply, next, first, second⟩ := answer_withTree indifferent'
  unfold Machine.planned
  dsimp only
  rw [first, second]
  rcases c.failure? with _ | fail <;> rcases plan with _ | ⟨_ | f, rest⟩
  case some.cons.some => exact ⟨rfl, u, rest, rfl, rfl⟩
  all_goals exact ⟨rfl, next, _, rfl, rfl⟩

/-- A program that makes only calls to which two trees are indifferent comes to the same with either,
and leaves it there. -/
theorem Parallel.run {α : Type} {x : Program α} {a b a' : Station × Plan}
    {calls : List (Moment (Station × Plan))} {o : Outcome α} (h : Parallel t₁ t₂ a b)
    (first : x.Runs answer.planned a calls o a')
    (indifferent : ∀ e ∈ calls, t₁.Indifferent t₂ e.state.1.treeIds e.call) :
    ∃ b', x.run answer.planned b = (o, b') ∧ Parallel t₁ t₂ a' b' :=
  first.lockstep (fun e he _ parallel => parallel.planned (indifferent e he)) h

theorem Parallel.perform {s : Station × Plan} {r : Request} {y : Response}
    (h : Parallel t t s s) (response : t.perform s.1.treeIds r = (.finished y, t)) :
    (answer.planned (.perform r) s).1 = .finished y := by
  obtain ⟨u, plan, rfl, -⟩ := h
  rw [planned_of_failure?_eq_none _ rfl]
  exact congrArg Prod.fst (answer_perform_withTree response)

theorem Parallel.not_crashes {e : Moment (Station × Plan)} (h : Parallel t t e.state e.state)
    (indifferent : t.Indifferent t e.state.1.treeIds e.call) (reason : String) :
    ¬ e.Crashes answer.planned reason := by
  intro crashes
  cases crashes with
  | perform crash =>
    obtain ⟨y, response, -⟩ := indifferent
    have finished := h.perform response
    simp [finished] at crash
  | probe crash =>
    obtain ⟨u, plan, rfl, -⟩ := h
    rw [planned_of_failure?_eq_none _ rfl] at crash
    simp [answer, probe, withTree] at crash
  | setOwner crash =>
    obtain ⟨f, refused, -⟩ := indifferent
    obtain ⟨u, plan, rfl, -⟩ := h
    have finished := answer_setOwner_withTree (s := u) refused
    rw [planned_of_failure?_eq_none _ rfl] at crash
    simp [finished] at crash

theorem Parallel.storage {a b : Station × Plan} (h : Parallel t₁ t₂ a b) :
    a.1.site.storage = .tree t₁ ∧ b.1.site.storage = .tree t₂ := by
  obtain ⟨u, rest, rfl, rfl⟩ := h
  exact ⟨rfl, rfl⟩

end Station

end Impersonation
