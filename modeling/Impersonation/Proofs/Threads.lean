import Impersonation.Proofs.Maker
import Mathlib.Logic.Basic

namespace Impersonation

open Program

/-- A thread that holds all privileges and to which no id is refused. -/
structure SimulatedThread.Able (t : SimulatedThread) : Prop where
  permitted : t.permitted = true
  effective : t.effective = true
  uids : t.refusedUid = none
  gids : t.refusedGid = none
  groups : t.refusedGroups = none

namespace SimulatedThread

variable {t : SimulatedThread}

theorem Able.setFsuid (h : t.Able) (uid : UInt32) :
    (t.setFsuid uid).1.isOk ∧ (t.setFsuid uid).2.Able := by
  have eq : t.setFsuid uid = (.ok t.ids.fsuid,
      { t.record (.fsuid uid) with ids := { t.ids with fsuid := uid } }) :=
    if_neg (by simp [record, h.uids, h.effective])
  rw [eq]
  exact ⟨rfl, h.permitted, h.effective, h.uids, h.gids, h.groups⟩

theorem Able.setFsgid (h : t.Able) (gid : UInt32) :
    (t.setFsgid gid).1.isOk ∧ (t.setFsgid gid).2.Able := by
  have eq : t.setFsgid gid = (.ok t.ids.fsgid,
      { t.record (.fsgid gid) with ids := { t.ids with fsgid := gid } }) :=
    if_neg (by simp [record, h.gids, h.effective])
  rw [eq]
  exact ⟨rfl, h.permitted, h.effective, h.uids, h.gids, h.groups⟩

theorem Able.setGroups (h : t.Able) (gids : List UInt32) :
    (t.setGroups gids).1.isOk ∧ (t.setGroups gids).2.Able := by
  have eq : t.setGroups gids = (.ok (),
      { t.record (.groups gids) with ids := { t.ids with groups := gids } }) :=
    if_neg (by simp [record, h.groups, h.effective])
  rw [eq]
  exact ⟨rfl, h.permitted, h.effective, h.uids, h.gids, h.groups⟩

theorem Able.raise (h : t.Able) : t.raise.1.isOk ∧ t.raise.2.Able := by
  have eq : t.raise = (.ok (), { t with effective := true }) := if_pos h.permitted
  rw [eq]
  exact ⟨rfl, h.permitted, rfl, h.uids, h.gids, h.groups⟩

theorem Able.holds (h : t.Able) (set : CapabilitySet) : t.holds set = true := by
  cases set with
  | permitted => exact h.permitted
  | effective => exact h.effective

end SimulatedThread

/-- A site whose threads have simulated ids, none of whose privileges is answered for by a rule, and
where switching was not given up. -/
structure Site.Able (site : Site) : Prop where
  simulated : site.credentials = .simulated
  rules : site.rules = []
  switching : site.switchingDisabled = false

namespace Station

variable {s : Station}

theorem able_answer {c : Call} (hc : c.isLasting) (h : s.site.Able) : (answer c s).2.site.Able := by
  obtain ⟨storage, visits, lookups, umask, eq⟩ := s.site_answer c
  have lasting : c ≠ .disableSwitching := by simpa [Call.isLasting] using hc
  rw [eq]
  exact ⟨h.simulated, h.rules, by simp [lasting, h.switching]⟩

/-- No call fails for an able thread on such a site, and the thread stays able. -/
theorem answer_able {c : Call} (site : s.site.Able) (thread : s.thread.simulated.Able) :
    ¬ c.Fails (answer c s).1 ∧ (answer c s).2.thread.simulated.Able := by
  obtain ⟨simulated, rules, switching⟩ := site
  have done {α : Type} {r : Except Fault α} (h : r.isOk) : ¬ r.isOk = false := by simp [h]
  cases c with
  | setFsuid uid =>
    simp only [answer, setFsuid, simulated, setSimulated]
    exact ⟨done (thread.setFsuid uid).1, (thread.setFsuid uid).2⟩
  | setFsgid gid =>
    simp only [answer, setFsgid, simulated, setSimulated]
    exact ⟨done (thread.setFsgid gid).1, (thread.setFsgid gid).2⟩
  | setGroups gids =>
    simp only [answer, setGroups, simulated, setSimulated]
    exact ⟨done (thread.setGroups gids).1, (thread.setGroups gids).2⟩
  | hasCapability set cap =>
    have held : s.holds set cap = .ok true := by simp [holds, rules, simulated, thread.holds set]
    refine ⟨?_, thread⟩
    cases set <;> simp [answer, held, Call.Fails, Except.isOk, Except.toBool]
  | raiseCapability cap =>
    simp only [answer, raise, rules, List.findSome?_nil, simulated, setSimulated]
    exact ⟨done thread.raise.1, thread.raise.2⟩
  | switchingDisabled => exact ⟨by simp [Call.Fails, answer, switching], thread⟩
  | ids | scopeFlags | setActive _ | poison | disableSwitching | setUmask _ | findUser _ =>
    exact ⟨id, thread⟩
  | listGroups user primary =>
    refine ⟨id, ?_⟩
    simp only [answer, listGroups]
    split
    · exact thread
    · split <;> exact thread
  | perform _ | probe _ | setOwner _ _ _ =>
    refine ⟨id, ?_⟩
    rw [thread_answer_storage rfl]
    exact thread

end Station

def Unplanned (s : Station × Plan) : Prop :=
  s.1.site.Able ∧ s.1.thread.simulated.Able ∧ s.2 = []

theorem planned_nil {σ : Type} (m : Machine σ) (c : Call) (s : σ) :
    m.planned c (s, []) = ((m c s).1, (m c s).2, []) := by
  unfold Machine.planned
  split <;> simp_all

theorem Gateway.handle_unfailing {g : Gateway} {e : Option Envelope} {r : Request}
    {s t : Station × Plan} {calls : List (Moment (Station × Plan))} {o : Outcome Response}
    (h : (g.handle e r).Runs Station.answer.planned s calls o t) (start : Unplanned s) :
    Unplanned t ∧ ∀ e ∈ calls, ¬ e.Fails Station.answer.planned := by
  refine (g.handle_orderly e r).smooth.unfailing (fun c s lasting able => ?_) h start
  obtain ⟨s, plan⟩ := s
  obtain ⟨site, thread, rfl⟩ : _ ∧ _ ∧ plan = [] := able
  rw [planned_nil]
  have answered := Station.answer_able (c := c) site thread
  exact ⟨answered.1, Station.able_answer lasting site, answered.2, rfl⟩

structure Thread.Ready (base : Ids) (th : Thread) : Prop where
  able : th.simulated.Able
  fsuid : th.simulated.ids.fsuid = base.fsuid
  fsgid : th.simulated.ids.fsgid = base.fsgid
  unmarked : th.flags = {}

theorem Gateway.serveOn_of_settled {site site' : Site} (h : site'.settled = site.settled) (g : Gateway)
    (base : Ids) (governs : Tree → Path → Option FileStat) :
    g.serveOn site' base governs = g.serveOn site base governs := by
  have users : site'.identity? g.config = site.identity? g.config :=
    funext (Site.identity?_of_settled h g.config)
  funext t e r
  unfold serveOn turn?
  rw [users]

theorem Gateway.serveAllOn_of_settled {site site' : Site} (h : site'.settled = site.settled)
    (g : Gateway) (base : Ids) (governs : Tree → Path → Option FileStat) (t : Tree)
    (tasks : List (Option Envelope × Request)) :
    g.serveAllOn site' base governs t tasks = g.serveAllOn site base governs t tasks := by
  induction tasks generalizing t with
  | nil => rfl
  | cons task rest ih => simp only [serveAllOn, serveOn_of_settled h, ih]

def Errand.task (e : Errand) : Option Envelope × Request :=
  (e.envelope, e.request)

namespace Process

variable {p : Process} {g : Gateway} {t : Tree} {base : Ids} {errand : Errand}

def afterAll (g : Gateway) (p : Process) (errands : List Errand) : Process :=
  errands.foldl (fun p e => (p.serve g e).2) p

/-- A process with such threads and such a site, and a tree for its storage. -/
structure Ready (p : Process) (base : Ids) (t : Tree) : Prop where
  site : p.site.Able
  threads : ∀ n, (p.threads n).Ready base
  storage : p.site.storage = .tree t
  statFailures : t.statFailures = []

theorem Ready.unplanned (ready : p.Ready base t) (plan : errand.plan = []) :
    Unplanned (p.start errand) :=
  ⟨ready.site, (ready.threads errand.thread).able, plan⟩

theorem Ready.standing (ready : p.Ready base t) (errand : Errand) :
    (Station.view.ofFst Plan).standing (p.start errand) =
      ⟨⟨base.fsuid, base.fsgid, (p.threads errand.thread).simulated.ids.groups⟩, {}⟩ := by
  have thread := ready.threads errand.thread
  change (⟨(p.threads errand.thread).ids p.site.credentials, (p.threads errand.thread).flags⟩ :
    Standing) = _
  rw [ready.site.simulated, thread.unmarked, ← thread.fsuid, ← thread.fsgid]
  rfl

/-- An errand is served as the reference serves it. -/
theorem Ready.serve_eq (ready : p.Ready base t) (g : Gateway) (plan : errand.plan = []) :
    ∃ next, (p.serve g errand).2.site.storage = .tree next ∧
      ((p.serve g errand).1.outcome, next) =
        g.serveOn p.site base Tree.governing t errand.envelope errand.request := by
  obtain ⟨next, after, served⟩ := p.serve_onTree ready.site.simulated ready.storage g errand
  have standing := ready.standing errand
  have unhindered : ¬ Hindered Station.answer.planned (Station.view.ofFst Plan) (p.start errand)
      (p.serve g errand).1.calls := by
    rintro (marked | ⟨e, he, failed⟩)
    · exact marked (by rw [standing])
    · exact (Gateway.handle_unfailing (p.serve_runs g errand) (ready.unplanned plan)).2 e he failed
  have eq := Gateway.serveOn_of_unhindered served unhindered
  rw [standing] at eq
  refine ⟨next, after, eq.trans ?_⟩
  rw [← Gateway.serveOn_nearest ready.statFailures]
  exact g.serveOn_groups _ _ _

theorem Ready.serve (ready : p.Ready base t) (g : Gateway) (plan : errand.plan = []) :
    (p.serve g errand).2.Ready base
      (g.serveOn p.site base Tree.governing t errand.envelope errand.request).2 := by
  obtain ⟨next, after, eq⟩ := ready.serve_eq g plan
  obtain ⟨⟨site, able, -⟩, fine⟩ :=
    Gateway.handle_unfailing (p.serve_runs g errand) (ready.unplanned plan)
  rw [← eq]
  refine ⟨site, fun n => ?_, after, ?_⟩
  · have before := ready.threads n
    obtain ⟨unmarked, groups, ids⟩ := serve_thread before.unmarked fine
    rw [ready.site.simulated] at ids
    refine ⟨?_, (congrArg (·.fsuid) ids).trans before.fsuid,
      (congrArg (·.fsgid) ids).trans before.fsgid, unmarked⟩
    by_cases same : n = errand.thread
    · rw [same, threads_serve_self]
      exact able
    · rw [threads_serve_of_ne same]
      exact before.able
  · have kept := g.serveOn_statFailures p.site base Tree.governing t errand.envelope errand.request
    rw [← eq] at kept
    exact kept.trans ready.statFailures

/-- Errands on any threads of a process get the responses that the reference gives to what they ask
for, and leave the tree that it leaves, if every thread starts with the daemon's ids and all
privileges and no call is made to fail. The further groups that the threads start with have no say,
nor has the thread that an errand is given to. -/
theorem serveAll_eq_reference (ready : p.Ready base t) (g : Gateway) {errands : List Errand}
    (plans : ∀ e ∈ errands, e.plan = []) :
    let reference := g.serveAllOn p.site base Tree.governing t (errands.map (·.task))
    (p.serveAll g errands).map (·.outcome) = reference.1 ∧
      (p.afterAll g errands).site.storage = .tree reference.2 := by
  induction errands generalizing p t with
  | nil => exact ⟨rfl, ready.storage⟩
  | cons e rest ih =>
    obtain ⟨plan, plans⟩ := List.forall_mem_cons.mp plans
    obtain ⟨next, after, eq⟩ := ready.serve_eq g plan
    -- The rest goes by the users of the site as it is by then, and they are the same.
    have later := ih (ready.serve g plan) plans
    rw [Gateway.serveAllOn_of_settled (p.settled_serve (g := g) e)] at later
    simp only [List.map_cons, serveAll, Gateway.serveAllOn, Errand.task]
    exact ⟨congrArg₂ List.cons (congrArg Prod.fst eq) later.1, later.2⟩

def sharedProcess : Process :=
  ⟨fun n => { simulated := { ids := ⟨0, 0, [n.toUInt32]⟩ } }, sharedSite⟩

theorem sharedProcess_ready :
    sharedProcess.Ready {} ((Tree.dir {} .root 0 0 0o755).dir (.ofString "/data") 0 800 0o770) where
  site := ⟨rfl, rfl, rfl⟩
  threads _ := ⟨⟨rfl, rfl, rfl, rfl, rfl⟩, rfl, rfl, rfl⟩
  storage := rfl
  statFailures := rfl

/-- A node is made on one thread and looked at on another one. -/
theorem serveAll_eq_reference_shared :
    let t : Tree := (Tree.dir {} .root 0 0 0o755).dir (.ofString "/data") 0 800 0o770
    let errands := [creation, { lookup with thread := 5 }]
    let reference :=
      Gateway.serveAllOn ⟨{}⟩ sharedSite {} Tree.governing t (errands.map (·.task))
    (sharedProcess.Ready {} t ∧ ∀ e ∈ errands, e.plan = []) ∧
    (sharedProcess.serveAll ⟨{}⟩ errands).map (·.outcome) = reference.1 ∧
      (sharedProcess.afterAll ⟨{}⟩ errands).site.storage = .tree reference.2 := by
  intro t errands reference
  have plans : ∀ e ∈ errands, e.plan = [] := by simp [errands, creation, lookup]
  exact ⟨⟨sharedProcess_ready, plans⟩, serveAll_eq_reference sharedProcess_ready ⟨{}⟩ plans⟩

/-- A site with a file in a directory that a further group of the user opens. -/
def fileSite : Site :=
  { sharedSite with
    storage := .tree (((Tree.dir {} .root 0 0 0o755).dir (.ofString "/data") 0 800 0o770).file
      (.ofString "/data/f") 0 800 0o660) }

def beneath : Errand :=
  { creation with request := .stat (.ofString "/data/f/x") }

/-- A file that the path goes through does not govern it, although it is the nearest node. The file's
group would show that it is no directory; as the search does not get past the file, the first refusal
stands. -/
theorem serveAll_ne_reference_nearestNode :
    let t : Tree := ((Tree.dir {} .root 0 0 0o755).dir (.ofString "/data") 0 800 0o770).file
      (.ofString "/data/f") 0 800 0o660
    let p : Process := ⟨fun _ => {}, fileSite⟩
    (p.Ready {} t ∧ beneath.plan = []) ∧
    (p.serveAll ⟨{}⟩ [beneath]).map (·.outcome) = [.finished .denied] ∧
    (Gateway.serveAllOn ⟨{}⟩ fileSite {} Tree.nearestNode t [beneath.task]).1 =
      [.finished (.error .notDirectory)] := by
  intro t p
  refine ⟨⟨⟨⟨rfl, rfl, rfl⟩, fun _ => ⟨⟨rfl, rfl, rfl, rfl, rfl⟩, rfl, rfl, rfl⟩, rfl, rfl⟩, rfl⟩,
    ?_, ?_⟩ <;> decide +kernel

end Process

end Impersonation
