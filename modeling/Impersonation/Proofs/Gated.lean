import Impersonation.Proofs.Daemon
import Impersonation.Proofs.Entrance
import Impersonation.Proofs.Threads

namespace Impersonation

open Program

variable {σ : Type} {m : Machine σ}

/-- A change of ids comes after both privileges were granted. -/
def Gated (m : Machine σ) (before : List (Moment σ)) (e : Moment σ) : Prop :=
  e.call.isSwitch = true → ∀ cap, Capability.Granted m before cap

section

variable {s t : σ} {before calls : List (Moment σ)}

theorem gated_of_not_isSwitch (h : ∀ e ∈ calls, e.call.isSwitch = false) :
    Each (Gated m) before calls :=
  .of_forall fun _ e he hc => absurd (hc.symm.trans (h e he)) (by simp)

theorem gated_of_isQuiet (h : ∀ e ∈ calls, e.call.isQuiet) : Each (Gated m) before calls :=
  gated_of_not_isSwitch fun e he => Call.not_isSwitch_of_isQuiet (h e he)

theorem gated_of_granted (h : ∀ cap, Capability.Granted m before cap) :
    Each (Gated m) before calls :=
  fun _ _ _ _ _ cap => (h cap).mono (List.subset_append_left _ _)

theorem IdentityScope.enter_gated {i : Identity}
    {o : Outcome (Except IdentityError IdentityScope)} (h : (enter i).run.Runs m s calls o t) :
    Each (Gated m) before calls ∧
      ∀ scope, o = .finished (.ok scope) → ∀ cap, Capability.Granted m calls cap := by
  have granted {scope : IdentityScope} (ho : o = .finished (.ok scope)) (cap : Capability) :
      Capability.Granted m calls cap := by
    subst ho
    exact (enter_admitted h).granted cap
  refine ⟨?_, fun _ => granted⟩
  rw [enter_eq] at h
  have quiet := Capability.ensure_only.adapt IdentityError.capabilities
  rcases checkThread_only.runs_attempt h with ⟨_, s₁, front, back, first, h₁, rfl⟩ | ⟨e, first, -⟩
  · have marks : Each (Gated m) before front := gated_of_isQuiet (first.only checkThread_only)
    rcases quiet.runs_attempt h₁ with ⟨_, s₂, mid, last, second, -, rfl⟩ | ⟨e, second, -⟩
    · obtain ⟨-, passed⟩ := Capability.ensure_run (runs_adapt_ok second)
      have check : Each (Gated m) (before ++ front) mid := gated_of_isQuiet (second.only quiet)
      refine marks.append (check.append (gated_of_granted fun cap => ?_))
      exact (passed cap).mono (List.subset_append_right _ _)
    · exact marks.append (gated_of_isQuiet (second.only quiet))
  · exact gated_of_isQuiet (first.only checkThread_only)

theorem Gateway.handleAnonymous_only (r : Request) :
    (handleAnonymous r).Only (·.isSwitch = false) True := by
  refine ⟨rfl, fun flags => ?_⟩
  rcases flags with ⟨active, poisoned⟩
  cases poisoned <;> cases active
  case false.false =>
    -- The scope is marked, the request is made, and the mark is taken back.
    refine ⟨rfl, fun _ => ⟨rfl, fun response => ?_⟩⟩
    cases response <;> exact ⟨rfl, fun _ => trivial⟩
  all_goals trivial

/-- Whatever a client asks for, ids are changed only after both privileges were granted for it. -/
theorem Gateway.handle_gated {g : Gateway} {e : Envelope} {r : Request} {o : Outcome Response}
    (h : (g.handle (some e) r).Runs m s calls o t) : Each (Gated m) [] calls := by
  unfold handle at h
  dsimp only at h
  rcases hp : e.principal with refusal | _ | name <;> rw [hp] at h
  · obtain ⟨rfl, -, -⟩ := runs_done.mp h
    exact gated_of_not_isSwitch (by simp)
  · exact gated_of_not_isSwitch (h.only (handleAnonymous_only _))
  · have quiet := Identity.resolve_only g.config name
    cases handleUser_begins h with
    | unresolved lookups =>
      exact gated_of_isQuiet fun e he => Call.isQuiet_of_isLookup (lookups e he)
    | refused resolving entering =>
      exact .append (gated_of_isQuiet (resolving.only quiet)) (IdentityScope.enter_gated entering).1
    | entered resolving entering =>
      obtain ⟨gated, granted⟩ := IdentityScope.enter_gated entering
      refine .append (gated_of_isQuiet (resolving.only quiet))
        (gated.append (gated_of_granted fun cap => ?_))
      exact (granted _ rfl cap).mono (List.subset_append_right _ _)

end

namespace SimulatedThread

variable (t : SimulatedThread)

/-- What the thread may hold, what it holds, and the user id refused to it. -/
def powers : Bool × Bool × Option UInt32 :=
  (t.permitted, t.effective, t.refusedUid)

theorem powers_setFsuid (uid : UInt32) : (t.setFsuid uid).2.powers = t.powers := by
  unfold setFsuid
  dsimp only
  split <;> rfl

theorem powers_setFsgid (gid : UInt32) : (t.setFsgid gid).2.powers = t.powers := by
  unfold setFsgid
  dsimp only
  split <;> rfl

theorem powers_setGroups (gids : List UInt32) : (t.setGroups gids).2.powers = t.powers := by
  unfold setGroups
  dsimp only
  split <;> rfl

/-- Without privilege a user id is taken on only by who has it already. -/
theorem setFsuid_reply (uids : t.refusedUid = none) (uid : UInt32) : (t.setFsuid uid).1 =
    if t.effective = true ∨ t.ids.fsuid = uid then .ok t.ids.fsuid
    else .error (.os .notPermitted) := by
  by_cases effective : t.effective = true
  · simp [setFsuid, record, uids, effective]
  · by_cases own : t.ids.fsuid = uid
    · simp [setFsuid, record, uids, own]
    · simp [setFsuid, record, uids, effective, own, Ne.symm own]

end SimulatedThread

/-- A thread that may raise its privileges, and to which no user id is refused. -/
structure SimulatedThread.Willing (t : SimulatedThread) : Prop where
  permitted : t.permitted = true
  uids : t.refusedUid = none

def Call.isRaise : Call → Bool
  | raiseCapability _ => true
  | _ => false

/-- Only raising a privilege changes what a thread holds. -/
theorem Station.powers_answer {c : Call} (hc : c.isRaise = false) (s : Station) :
    (answer c s).2.thread.simulated.powers = s.thread.simulated.powers := by
  cases c with
  | raiseCapability cap => cases hc
  | setFsuid uid =>
    simp only [answer, setFsuid]
    split
    · exact s.thread.simulated.powers_setFsuid uid
    · rfl
  | setFsgid gid =>
    simp only [answer, setFsgid]
    split
    · exact s.thread.simulated.powers_setFsgid gid
    · rfl
  | setGroups gids =>
    simp only [answer, setGroups]
    split
    · exact s.thread.simulated.powers_setGroups gids
    · rfl
  | listGroups user primary =>
    simp only [answer, listGroups]
    split
    · rfl
    · split <;> rfl
  | perform _ | probe _ | setOwner _ _ _ => rw [thread_answer_storage rfl]
  | ids | hasCapability _ _ | scopeFlags | setActive _ | poison | switchingDisabled
  | disableSwitching | setUmask _ | findUser _ => rfl

/-- Such a thread with simulated ids, for whose privileges no rule answers and for whose calls nothing
is planned. -/
structure Fit (s : Station × Plan) : Prop where
  simulated : s.1.site.credentials = .simulated
  rules : s.1.site.rules = []
  thread : s.1.thread.simulated.Willing
  unplanned : s.2 = []

namespace Fit

variable {s t : Station × Plan}

theorem planned_eq (fit : Fit s) (c : Call) :
    Station.answer.planned c s = ((Station.answer c s.1).1, (Station.answer c s.1).2, []) := by
  obtain ⟨s, plan⟩ := s
  obtain rfl : plan = [] := fit.unplanned
  exact planned_nil Station.answer c s

theorem powers_answer (fit : Fit s) (c : Call) : (Station.answer c s.1).2.thread.simulated.powers =
    (true, s.1.thread.simulated.effective || c.isRaise, none) := by
  obtain ⟨permitted, uids⟩ := fit.thread
  cases hc : c.isRaise with
  | true =>
    cases c with
    | raiseCapability cap =>
      simp [Station.answer, Station.raise, fit.rules, fit.simulated, Station.setSimulated,
        SimulatedThread.raise, SimulatedThread.powers, permitted, uids]
    | _ => cases hc
  | false =>
    rw [Station.powers_answer hc, Bool.or_false, SimulatedThread.powers, permitted, uids]

theorem answer (fit : Fit s) (c : Call) : Fit (Station.answer.planned c s).2 := by
  rw [fit.planned_eq]
  have powers := fit.powers_answer c
  obtain ⟨_, _, _, _, site⟩ := s.1.site_answer c
  exact ⟨by rw [site]; exact fit.simulated, by rw [site]; exact fit.rules,
    ⟨congrArg (·.1) powers, congrArg (·.2.2) powers⟩, rfl⟩

theorem effective_answer (fit : Fit s) (c : Call) :
    (Station.answer.planned c s).2.1.thread.simulated.effective = true ↔
      s.1.thread.simulated.effective = true ∨ c.isRaise = true := by
  rw [fit.planned_eq, ← Bool.or_eq_true]
  exact iff_of_eq (congrArg (·.2.1 = true) (fit.powers_answer c))

variable {α : Type} {x : Program α} {calls : List (Moment (Station × Plan))} {o : Outcome α}

theorem runs (fit : Fit s) (h : x.Runs Station.answer.planned s calls o t) :
    Fit t ∧ ∀ e ∈ calls, Fit e.state :=
  h.invariant (I := Fit) (fun e _ he => he.answer e.call) fit

theorem effective_runs (fit : Fit s) (h : x.Runs Station.answer.planned s calls o t) :
    t.1.thread.simulated.effective = true ↔
      s.1.thread.simulated.effective = true ∨ ∃ e ∈ calls, e.call.isRaise = true :=
  h.flag_iff (f := fun u => u.1.thread.simulated.effective) (p := (·.isRaise = true))
    fun e he => ((fit.runs h).2 e he).effective_answer e.call

/-- Where a privilege was granted the thread holds it from then on. -/
theorem effective_of_gated (fit : Fit s) (h : x.Runs Station.answer.planned s calls o t)
    (gated : Each (Gated Station.answer.planned) [] calls) {e : Moment (Station × Plan)}
    (he : e ∈ calls) (switch : e.call.isSwitch = true) :
    e.state.1.thread.simulated.effective = true := by
  obtain ⟨front, back, split⟩ := List.append_of_mem he
  have fits := (fit.runs h).2
  have since {e' : Moment (Station × Plan)} (he' : e' ∈ front)
      (holds : e'.state.1.thread.simulated.effective = true ∨ e'.call.isRaise = true) :
      e.state.1.thread.simulated.effective = true := by
    have mem : e' ∈ calls := by simp [split, he']
    exact h.since (I := fun u => u.1.thread.simulated.effective = true)
      (fun e he holds => ((fits e he).effective_answer e.call).mpr (.inl holds)) split he'
      (((fits e' mem).effective_answer e'.call).mpr holds)
  rcases (gated front e back split switch .setuid).effective with ⟨s', hs, told⟩ | ⟨s', hs, -⟩
  · rw [List.nil_append] at hs
    have fit' : Fit s' := fits _ (by rw [split]; exact List.mem_append_left _ hs)
    rw [fit'.planned_eq] at told
    refine since hs (.inl ?_)
    simpa [Station.answer, Station.holds, fit'.rules, fit'.simulated,
      SimulatedThread.holds] using told
  · exact since hs (.inr rfl)

theorem setFsuid_zero (fit : Fit s) :
    (Station.answer.planned (.setFsuid 0) s).1 =
      if s.1.thread.simulated.effective = true ∨ s.1.thread.simulated.ids.fsuid = 0 then
        .ok s.1.thread.simulated.ids.fsuid
      else .error (.os .notPermitted) := by
  rw [fit.planned_eq]
  simp only [Station.answer, Station.setFsuid, fit.simulated, Station.setSimulated]
  exact s.1.thread.simulated.setFsuid_reply fit.thread.uids 0

end Fit

def Served.Raises (n : Nat) (served : Served) : Prop :=
  served.errand.thread = n ∧ ∃ e ∈ served.calls, e.call.isRaise = true

namespace Process

structure Fit (p : Process) : Prop where
  simulated : p.site.credentials = .simulated
  rules : p.site.rules = []
  threads : ∀ n, (p.threads n).simulated.Willing

variable {p : Process} {g : Gateway} {errand : Errand}

theorem Fit.start (fit : p.Fit) (plan : errand.plan = []) : Impersonation.Fit (p.start errand) :=
  ⟨fit.simulated, fit.rules, fit.threads errand.thread, plan⟩

theorem Fit.serve (fit : p.Fit) (g : Gateway) (plan : errand.plan = []) :
    (p.serve g errand).2.Fit := by
  obtain ⟨after, -⟩ := (fit.start plan).runs (p.serve_runs g errand)
  refine ⟨after.simulated, after.rules, fun n => ?_⟩
  by_cases same : n = errand.thread
  · rw [same, threads_serve_self]
    exact after.thread
  · rw [threads_serve_of_ne same]
    exact fit.threads n

theorem Fit.afterAll (fit : p.Fit) (g : Gateway) {errands : List Errand}
    (plans : ∀ e ∈ errands, e.plan = []) : (p.afterAll g errands).Fit := by
  induction errands generalizing p with
  | nil => exact fit
  | cons e rest ih =>
    obtain ⟨plan, plans⟩ := List.forall_mem_cons.mp plans
    exact ih (fit.serve g plan) plans

theorem Fit.effective_serve (fit : p.Fit) (g : Gateway) (plan : errand.plan = []) (n : Nat) :
    ((p.serve g errand).2.threads n).simulated.effective = true ↔
      (p.threads n).simulated.effective = true ∨ Served.Raises n (p.serve g errand).1 := by
  by_cases same : n = errand.thread
  · rw [same, threads_serve_self, (fit.start plan).effective_runs (p.serve_runs g errand)]
    exact or_congr_right (and_iff_right rfl).symm
  · rw [threads_serve_of_ne same]
    exact (or_iff_left fun raises => same raises.1.symm).symm

theorem Fit.effective_afterAll (fit : p.Fit) (g : Gateway) {errands : List Errand}
    (plans : ∀ e ∈ errands, e.plan = []) (n : Nat) :
    ((p.afterAll g errands).threads n).simulated.effective = true ↔
      (p.threads n).simulated.effective = true ∨
        ∃ served ∈ p.serveAll g errands, Served.Raises n served := by
  induction errands generalizing p with
  | nil => simp [Process.afterAll, serveAll]
  | cons e rest ih =>
    obtain ⟨plan, plans⟩ := List.forall_mem_cons.mp plans
    have later := ih (fit.serve g plan) plans
    rw [fit.effective_serve g plan n, or_assoc] at later
    simp only [serveAll, List.mem_cons, exists_eq_or_imp]
    exact later

theorem serve_internal (p : Process) (g : Gateway) (own : errand.envelope = none) :
    Gateway.InternalRun Station.answer.planned g (g.adjust errand.request) (p.start errand)
      (p.serve g errand).1.calls (p.serve g errand).1.outcome := by
  have run := p.serve_runs g errand
  rw [own] at run
  exact Gateway.handleInternal_run run

def AsRoot (g : Gateway) (errand : Errand) : Prop :=
  errand.envelope = none ∧ g.overrides errand.request = true

/-- Any other errand changes ids only while the thread holds its privileges. -/
theorem Fit.serve_effective (fit : p.Fit) (plan : errand.plan = []) (other : ¬ AsRoot g errand)
    {e : Moment (Station × Plan)} (he : e ∈ (p.serve g errand).1.calls)
    (switch : e.call.isSwitch = true) : e.state.1.thread.simulated.effective = true := by
  cases client : errand.envelope with
  | none =>
    have own : g.overrides (g.adjust errand.request) = false :=
      (g.overrides_adjust errand.request).trans (by simpa [AsRoot, client] using other)
    have internal := p.serve_internal g client
    generalize (p.serve g errand).1.calls = calls, (p.serve g errand).1.outcome = o at internal he
    cases internal with
    | plain =>
      rw [List.mem_singleton.mp he] at switch
      cases switch
    | override root | refused root => exact absurd (own.symm.trans root) (by simp)
  | some envelope =>
    have run := p.serve_runs g errand
    rw [client] at run
    exact (fit.start plan).effective_of_gated run (Gateway.handle_gated run) he switch

/-- A request of the daemon that goes with user id 0 gets to the storage if the thread may take on
that id, and else it fails right there. -/
theorem Fit.serve_asRoot (fit : p.Fit) (plan : errand.plan = []) (asRoot : AsRoot g errand) :
    let served := (p.serve g errand).1
    let thread := (p.threads errand.thread).simulated
    let r := g.adjust errand.request
    if thread.effective = true ∨ thread.ids.fsuid = 0 then
      ∃ s₁, served.calls.filter (·.call.isStorage) = [⟨.perform r, s₁⟩] ∧ s₁.1.ids.fsuid = 0 ∧
        served.outcome = (Station.answer.planned (.perform r) s₁).1
    else served.calls = [⟨.setFsuid 0, p.start errand⟩] ∧
      served.outcome = .finished (.ofFault (.os .notPermitted)) := by
  obtain ⟨client, root⟩ := asRoot
  rw [← g.overrides_adjust] at root
  have internal := p.serve_internal g client
  have storage := internal.storage Station.honest.planned
  intro served thread r
  have reply : (Station.answer.planned (.setFsuid 0) (p.start errand)).1 =
      if thread.effective = true ∨ thread.ids.fsuid = 0 then .ok thread.ids.fsuid
      else .error (.os .notPermitted) := (fit.start plan).setFsuid_zero
  change Gateway.InternalRun _ _ _ _ served.calls served.outcome at internal
  generalize served.calls = calls, served.outcome = o at internal storage ⊢
  cases internal with
  | plain own => exact absurd (own.symm.trans root) (by simp)
  | override _ switched =>
    rw [reply] at switched
    split at switched
    next may =>
      rcases storage with ⟨s₁, asked, ho, ids⟩ | ⟨unasked, -⟩
      · rw [Gateway.internalIds, root] at ids
        rw [if_pos may]
        exact ⟨s₁, asked, congrArg Ids.fsuid ids, ho⟩
      · simp [Call.isStorage] at unasked
    next => cases switched
  | refused _ failed =>
    rw [reply] at failed
    split at failed
    next => cases failed
    next mayNot =>
      cases failed
      rw [if_neg mayNot]
      exact ⟨rfl, rfl⟩

/-- Whatever a process has served by then, the ids of a thread are changed only while the thread holds
its privileges, except for a request of the daemon that goes with user id 0. There the id is changed
unchecked: the request gets to the storage with user id 0 if the thread holds its privileges or has
that id already, and else the change fails and the request with it. A thread holds its privileges if
it did at the start or had to raise one for an earlier errand. -/
theorem switches_gated (fit : p.Fit) (g : Gateway) {errands : List Errand}
    (plans : ∀ e ∈ errands, e.plan = []) (plan : errand.plan = []) :
    let q := p.afterAll g errands
    let served := (q.serve g errand).1
    let thread := (q.threads errand.thread).simulated
    let r := g.adjust errand.request
    (¬ AsRoot g errand → ∀ e ∈ served.calls, e.call.isSwitch = true →
      e.state.1.thread.simulated.effective = true) ∧
    (AsRoot g errand →
      if thread.effective = true ∨ thread.ids.fsuid = 0 then
        ∃ s₁, served.calls.filter (·.call.isStorage) = [⟨.perform r, s₁⟩] ∧ s₁.1.ids.fsuid = 0 ∧
          served.outcome = (Station.answer.planned (.perform r) s₁).1
      else served.calls = [⟨.setFsuid 0, q.start errand⟩] ∧
        served.outcome = .finished (.ofFault (.os .notPermitted))) ∧
    (thread.effective = true ↔ (p.threads errand.thread).simulated.effective = true ∨
      ∃ earlier ∈ p.serveAll g errands, earlier.Raises errand.thread) :=
  have later := fit.afterAll g plans
  ⟨fun other _ he switch => later.serve_effective plan other he switch,
    fun asRoot => later.serve_asRoot plan asRoot, fit.effective_afterAll g plans errand.thread⟩

/-- Threads that do not hold their privileges yet, with user id 1000. -/
def unraised : Process :=
  ⟨fun _ => { simulated := { ids := ⟨1000, 1000, []⟩, effective := false } },
    { users := .directory (Directory.add {} "alice" 1001 900 [])
      storage := .tree ((Tree.dir {} .root 0 0 0o755).file (.ofString "/hosts") 0 0 0o600) }⟩

theorem unraised_fit : unraised.Fit :=
  ⟨rfl, rfl, fun _ => ⟨rfl, rfl⟩⟩

def managed : Gateway :=
  ⟨{ clusterManager := true }⟩

def hostsErrand : Errand where
  thread := 0
  envelope := none
  request := .stat (.ofString "/hosts")
  plan := []

def aliceErrand : Errand where
  thread := 0
  envelope := some ⟨some { protocol := "ztn", name := some "alice" }⟩
  request := .stat .root
  plan := []

/-- It gets there on a thread that has served a client. -/
theorem switches_gated_served :
    let q := unraised.afterAll managed [aliceErrand]
    let served := (q.serve managed hostsErrand).1
    (unraised.Fit ∧ (∀ e ∈ [aliceErrand], e.plan = []) ∧ hostsErrand.plan = []) ∧
    ∃ s₁, served.calls.filter (·.call.isStorage) = [⟨.perform hostsErrand.request, s₁⟩] ∧
      s₁.1.ids.fsuid = 0 := by
  intro q served
  have plans : ∀ e ∈ [aliceErrand], e.plan = [] := by simp [aliceErrand]
  have plan : hostsErrand.plan = [] := rfl
  refine ⟨⟨unraised_fit, plans, plan⟩, ?_⟩
  obtain ⟨-, asRoot, -⟩ := switches_gated unraised_fit managed plans plan
  have asRoot := asRoot ⟨rfl, rfl⟩
  rw [if_pos (.inl (by decide +kernel))] at asRoot
  obtain ⟨s₁, asked, fsuid, -⟩ := asRoot
  exact ⟨s₁, asked, fsuid⟩

/-- On a fresh thread it does not, although the thread may raise its privileges. -/
theorem switches_ungated_fresh :
    let served := (unraised.serve managed hostsErrand).1
    unraised.Fit ∧ hostsErrand.plan = [] ∧
      served.calls.map (·.call) = [.setFsuid 0] ∧
      served.calls.map (·.state.1.thread.simulated.effective) = [false] ∧
      served.outcome = .finished (.ofFault (.os .notPermitted)) :=
  ⟨unraised_fit, rfl, by decide +kernel⟩

end Process

end Impersonation
