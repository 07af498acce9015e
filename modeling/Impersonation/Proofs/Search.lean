import Impersonation.Proofs.Scoped

namespace Impersonation

open Program

variable {σ : Type} {m : Machine σ} {v : View σ}

/-- User id 0 was taken on, and since then nodes were looked at and nothing else was done. -/
def AsRoot (m : Machine σ) (before : List (Moment σ)) : Prop :=
  ∃ front s looks, before = front ++ ⟨.setFsuid 0, s⟩ :: looks ∧
    Moment.succeeds m ⟨.setFsuid 0, s⟩ ∧ ∀ e ∈ looks, ∃ q, e.call = .probe q

theorem AsRoot.after {before : List (Moment σ)} (h : AsRoot m before)
    (earlier : List (Moment σ)) : AsRoot m (earlier ++ before) := by
  obtain ⟨front, s, looks, rfl, ok, only⟩ := h
  exact ⟨earlier ++ front, s, looks, by rw [List.append_assoc], ok, only⟩

structure RootLook (m : Machine σ) (v : View σ) (ps : List Path) (before : List (Moment σ))
    (e : Moment σ) : Prop where
  probe : ∃ p ∈ ps, e.call = .probe p
  asRoot : AsRoot m before
  fsuid : (v.standing e.state).ids.fsuid = 0

theorem RootLook.after {ps : List Path} {before : List (Moment σ)} {e : Moment σ}
    (h : RootLook m v ps before e) (earlier : List (Moment σ)) :
    RootLook m v ps (earlier ++ before) e :=
  ⟨h.probe, h.asRoot.after earlier, h.fsuid⟩

inductive Moment.Crashes (m : Machine σ) (reason : String) : Moment σ → Prop where
  | perform {r : Request} {s : σ} (crash : (m (.perform r) s).1 = .crashed reason) :
      Crashes m reason ⟨.perform r, s⟩
  | probe {p : Path} {s : σ} (crash : (m (.probe p) s).1 = .crashed reason) :
      Crashes m reason ⟨.probe p, s⟩
  | setOwner {p : Path} {uid gid : Option UInt32} {s : σ}
      (crash : (m (.setOwner p uid gid) s).1 = .crashed reason) :
      Crashes m reason ⟨.setOwner p uid gid, s⟩

/-- A run with user id 0: it is refused and does nothing, or all of it is done as that user. -/
theorem RootScope.within_run (hm : Honest m v) {α : Type} {body : Program α} {s t : σ}
    {calls : List (Moment σ)} {o : Outcome (Except Fault α)}
    (h : (within body).run.Runs m s calls o t) :
    (∃ f, o = .finished (.error f) ∧ ∀ e ∈ calls, e.call.isStorage = false) ∨
    ∃ s₁ s₂ mid back inner, calls = ⟨.setFsuid 0, s⟩ :: (mid ++ back) ∧
      Moment.succeeds m ⟨.setFsuid 0, s⟩ ∧ (v.standing s₁).ids.fsuid = 0 ∧
      body.Runs m s₁ mid inner s₂ ∧ (∀ e ∈ back, e.call.isStorage = false) ∧
      o = inner.map .ok := by
  rcases runs_within RootScope.enter_only RootScope.leave_only h with ⟨f, henter, rfl⟩ |
    ⟨scope, s₁, s₂, front, mid, back, inner, henter, hbody, hleave, rfl, rfl⟩
  · exact .inl ⟨f, rfl, henter.only RootScope.enter_only⟩
  · right
    obtain ⟨rfl, ⟨f, ho, -⟩ | ⟨-, hr, hs⟩⟩ := RootScope.enter_run hm henter
    · simp at ho
    · refine ⟨s₁, s₂, mid, back, inner, rfl, ?_, ?_, hbody, hleave.only (leave_only scope), rfl⟩
      · simp [Moment.succeeds, hr, Except.isOk, Except.toBool]
      · rw [hs]
        rfl

theorem Each.of_idle {P : List (Moment σ) → Moment σ → Prop} {before calls : List (Moment σ)}
    (idle : ∀ e ∈ calls, e.call.isStorage = false) :
    Each (fun front e => e.call.isStorage → P front e) before calls :=
  .of_forall fun _ e he hc => absurd (hc.symm.trans (idle e he)) (by simp)

namespace GroupSearch

theorem firstExisting_crash {target : Path} {ps : List Path} {steps : Nat} {s t : σ}
    {calls : List (Moment σ)} {reason : String}
    (h : (firstExisting target ps steps).run.Runs m s calls (.crashed reason) t) :
    ∃ e ∈ calls, e.Crashes m reason := by
  induction ps generalizing steps s calls with
  | nil =>
    have := runs_done.mp h
    simp at this
  | cons p above ih =>
    rcases runs_lift_bind.mp h with ⟨stat, s₁, front, back, hprobe, hrest, rfl⟩ | ⟨r, hprobe, ho⟩
    · have hcrash : ∃ e ∈ back, e.Crashes m reason := by
        rcases stat with f | stat
        · dsimp only at hrest
          split at hrest
          · exact ih hrest
          · have := runs_done.mp hrest
            simp at this
        · have := runs_done.mp hrest
          simp at this
      obtain ⟨e, he, hcrash⟩ := hcrash
      exact ⟨e, List.mem_append_right _ he, hcrash⟩
    · obtain ⟨rfl, hr, -⟩ := runs_probe.mp hprobe
      cases ho
      exact ⟨_, List.mem_singleton_self _, .probe hr.symm⟩

/-- What the search asks of the storage: looks at the paths, with user id 0. -/
theorem looks_run (hm : Honest m v) {target : Path} {ps : List Path} {s t : σ}
    {calls : List (Moment σ)}
    {o : Outcome (Except Fault (Except GroupSearchError (Path × FileStat × Nat)))}
    (h : (RootScope.within (firstExisting target ps 0).run).run.Runs m s calls o t) :
    Each (fun before e => e.call.isStorage → RootLook m v ps before e) [] calls ∧
      ∀ reason, o = .crashed reason → ∃ e ∈ calls, e.Crashes m reason := by
  have only := firstExisting_only target ps 0
  rcases RootScope.within_run hm h with ⟨f, rfl, idle⟩ |
    ⟨s₁, s₂, mid, back, inner, rfl, ok, fsuid, hbody, idle, rfl⟩
  · exact ⟨.of_idle idle, by simp⟩
  have looks : ∀ e ∈ mid, ∃ p ∈ ps, e.call = .probe p := hbody.only only
  have neutral : (firstExisting target ps 0).run.Only (·.isNeutral) True := by
    refine only.mono (fun c hc => ?_) id
    obtain ⟨p, -, rfl⟩ := hc
    rfl
  have same := (hm.standing_of_only neutral hbody).2
  constructor
  · have switch : Each (fun before e => e.call.isStorage → RootLook m v ps before e) []
        [⟨.setFsuid 0, s⟩] := .of_idle (by simp [Call.isStorage])
    refine switch.append (Each.append (fun front e rest split hc => ?_) (.of_idle idle))
    have he : e ∈ mid := by simp [split]
    refine ⟨looks e he, ⟨[], s, front, rfl, ok, fun e' he' => ?_⟩, ?_⟩
    · obtain ⟨p, -, hp⟩ := looks e' (by simp [split, he'])
      exact ⟨p, hp⟩
    · rw [same e he, fsuid]
  · intro reason ho
    cases inner with
    | finished a => simp [Outcome.map] at ho
    | crashed r =>
      obtain rfl : r = reason := by simpa [Outcome.map] using ho
      obtain ⟨e, he, hcrash⟩ := firstExisting_crash hbody
      exact ⟨e, by simp [he], hcrash⟩

/-- The nearest existing node is found by the looks alone. -/
theorem nearestExisting_run {p : Path} {s t : σ} {calls : List (Moment σ)}
    {o : Outcome (Except GroupSearchError (Path × FileStat × Nat))}
    (h : (nearestExisting p).run.Runs m s calls o t) :
    ∃ looked, (RootScope.within (firstExisting p p.ancestors 0).run).run.Runs m s calls looked t ∧
      ∀ reason, o = .crashed reason → looked = .crashed reason := by
  rcases runs_lift_bind.mp h with ⟨r, s₁, front, back, hlooks, hrest, rfl⟩ | ⟨reason, hlooks, rfl⟩
  · have taken : back = [] ∧ (∃ a, o = .finished a) ∧ t = s₁ := by
      rcases r with f | e | found <;> obtain ⟨rfl, rfl, rfl⟩ := runs_done.mp hrest <;>
        exact ⟨rfl, ⟨_, rfl⟩, rfl⟩
    obtain ⟨rfl, ⟨a, rfl⟩, rfl⟩ := taken
    rw [List.append_nil]
    exact ⟨_, hlooks, by simp⟩
  · exact ⟨_, hlooks, fun reason' ho => by simpa using ho⟩

/-- What the search of a group comes to: its looks are made with user id 0; a group that it finds is
among the groups listed for the user; and it crashes only if a look does. -/
theorem run_run (hm : Honest m v) {user : String} {primary : UInt32} {p : Path} {s t : σ}
    {calls : List (Moment σ)} {o : Outcome (Except GroupSearchError GroupMatch)}
    (h : (GroupSearch.run user primary p).run.Runs m s calls o t) :
    Each (fun before e => e.call.isStorage → RootLook m v p.ancestors before e) [] calls ∧
    (∀ found, o = .finished (.ok found) → ∃ s₁ groups,
      ⟨.listGroups user primary, s₁⟩ ∈ calls ∧ (m (.listGroups user primary) s₁).1 = .ok groups ∧
        found.gid ∈ groups) ∧
    ∀ reason, o = .crashed reason → ∃ e ∈ calls, e.Crashes m reason := by
  rcases runs_attempt.mp h with ⟨found, s₁, front, back, hnearest, hrest, rfl⟩ |
    ⟨e, hnearest, rfl⟩ | ⟨reason, hnearest, rfl⟩
  all_goals
    obtain ⟨looked, hlooks, crash⟩ := nearestExisting_run hnearest
    obtain ⟨looks, crashed⟩ := looks_run hm hlooks
  · obtain ⟨governing, stat, steps⟩ := found
    obtain ⟨rest, rfl, hgroups⟩ := runs_ask_bind.mp hrest
    have listed : Each (fun before e => e.call.isStorage → RootLook m v p.ancestors before e)
        ([] ++ front) [⟨.listGroups user primary, s₁⟩] := .of_idle (by simp [Call.isStorage])
    rcases hr : (m (.listGroups user primary) s₁).1 with f | groups
    · rw [hr] at hgroups
      obtain ⟨rfl, rfl, -⟩ := runs_done.mp hgroups
      exact ⟨looks.append listed, by simp, by simp⟩
    · rw [hr] at hgroups
      dsimp only at hgroups
      split at hgroups
      next member =>
        obtain ⟨rfl, rfl, -⟩ := runs_done.mp hgroups
        refine ⟨looks.append listed, fun found ho => ⟨s₁, groups, by simp, hr, ?_⟩, by simp⟩
        cases ho
        exact member
      next =>
        obtain ⟨rfl, rfl, -⟩ := runs_done.mp hgroups
        exact ⟨looks.append listed, by simp, by simp⟩
  · exact ⟨looks, by simp, by simp⟩
  · refine ⟨looks, by simp, fun reason' ho => ?_⟩
    cases ho
    exact crashed reason (crash reason rfl)

end GroupSearch

end Impersonation
