import Impersonation.Proofs.Admission
import Impersonation.Proofs.Plan

namespace Impersonation

open Program

/-- The threads of a process, beside what they share. -/
structure Process where
  threads : Nat → Thread
  site : Site

/-- A request that is served on one of the threads, with a plan for its calls. -/
structure Errand where
  thread : Nat
  envelope : Option Envelope
  request : Request
  plan : Plan

/-- An errand that was served: the calls it took and what it came to. -/
structure Served where
  errand : Errand
  calls : List (Moment (Station × Plan))
  outcome : Outcome Response

namespace Process

def start (p : Process) (e : Errand) : Station × Plan :=
  (⟨p.threads e.thread, p.site⟩, e.plan)

def finish (g : Gateway) (p : Process) (e : Errand) : Station × Plan :=
  ((g.handle e.envelope e.request).run Station.answer.planned (p.start e)).2

def serve (g : Gateway) (p : Process) (e : Errand) : Served × Process :=
  let x := g.handle e.envelope e.request
  let after := (p.finish g e).1
  (⟨e, x.trace Station.answer.planned (p.start e), (x.run Station.answer.planned (p.start e)).1⟩,
    ⟨fun n => if n = e.thread then after.thread else p.threads n, after.site⟩)

theorem serve_runs (g : Gateway) (p : Process) (e : Errand) :
    (g.handle e.envelope e.request).Runs Station.answer.planned (p.start e) (p.serve g e).1.calls
      (p.serve g e).1.outcome (p.finish g e) :=
  runs_self ..

theorem threads_serve_self (g : Gateway) (p : Process) (e : Errand) :
    (p.serve g e).2.threads e.thread = (p.finish g e).1.thread :=
  if_pos rfl

theorem threads_serve_of_ne {g : Gateway} {p : Process} {e : Errand} {n : Nat}
    (other : n ≠ e.thread) : (p.serve g e).2.threads n = p.threads n :=
  if_neg other

def serveAll (g : Gateway) : Process → List Errand → List Served
  | _, [] => []
  | p, e :: rest => (p.serve g e).1 :: (p.serve g e).2.serveAll g rest

end Process

def Site.findUser (site : Site) (name : String) : Except Fault (Option UserEntry) :=
  (Station.mk {} site).findUser name

def Site.listGroups (site : Site) (name : String) (primary : UInt32) :
    Except Fault (List UInt32) :=
  ((Station.mk {} site).listGroups name primary).1

theorem Station.findUser_of_settled {s : Station} {site : Site}
    (h : s.site.settled = site.settled) (name : String) : s.findUser name = site.findUser name := by
  obtain ⟨hc, hr, hu, hl, hg⟩ : _ ∧ _ ∧ _ ∧ _ ∧ _ := by simpa [Site.settled] using h
  simp [Site.findUser, findUser, hu, hl]

theorem Station.listGroups_of_settled {s : Station} {site : Site}
    (h : s.site.settled = site.settled) (name : String) (primary : UInt32) :
    (s.listGroups name primary).1 = site.listGroups name primary := by
  obtain ⟨hc, hr, hu, hl, hg⟩ : _ ∧ _ ∧ _ ∧ _ ∧ _ := by simpa [Site.settled] using h
  simp only [Site.listGroups, listGroups, hu, hg]
  cases site.groupFailures.lookup name with
  | some e => rfl
  | none => cases site.users <;> rfl

theorem settled_planned (c : Call) (s : Station × Plan) :
    (Station.answer.planned c s).2.1.site.settled = s.1.site.settled := by
  rcases planned_cases Station.answer c s with ⟨_, _, _, _, hs⟩ | ⟨_, hs⟩
  · rw [hs]
  · rw [hs, Station.settled_answer]

theorem settled_of_runs {α : Type} {x : Program α} {s t : Station × Plan}
    {calls : List (Moment (Station × Plan))} {o : Outcome α}
    (h : x.Runs Station.answer.planned s calls o t) :
    t.1.site.settled = s.1.site.settled ∧
      ∀ e ∈ calls, e.state.1.site.settled = s.1.site.settled :=
  h.invariant (I := fun u => u.1.site.settled = s.1.site.settled)
    (fun e _ hs => (settled_planned e.call e.state).trans hs) rfl

/-- A gateway that has started goes by settings that were found valid. -/
theorem Gateway.start_run {σ : Type} {m : Machine σ} {c : Config} {g : Gateway} {s t : σ}
    {calls : List (Moment σ)} (h : (Gateway.start c).run.Runs m s calls (.finished (.ok g)) t) :
    g.config = c ∧ c.validate = .ok () := by
  obtain ⟨_, ho, run⟩ := start_startRun h
  cases ho
  cases run with
  | unmasked valid | masked valid => exact ⟨rfl, valid⟩

theorem Gateway.adjust_path (g : Gateway) (r : Request) : (g.adjust r).path = r.path := by
  cases r <;> rfl

/-- The thread runs with the ids that the directory of the site has for a user, and with this
group. -/
def Site.RunsAs (site : Site) (i : Identity) (gid : UInt32) (s : Station × Plan) : Prop :=
  s.1.ids = ⟨i.uid, gid, site.credentials.keep i.groups⟩

/-- How the storage of a site may be called for a request of a user. -/
inductive Site.CalledFor (site : Site) (user : String) (i : Identity) (r : Request)
    (before : List (Moment (Station × Plan))) : Moment (Station × Plan) → Prop where
  | attempt {s : Station × Plan} (ids : site.RunsAs i i.gid s) :
      CalledFor site user i r before ⟨.perform r, s⟩
  | retry {s : Station × Plan} {found : GroupMatch}
      (searched : Searched Station.answer.planned user i r before found)
      (member : found.gid ∈ i.groups) (ids : site.RunsAs i found.gid s) :
      CalledFor site user i r before ⟨.perform r, s⟩
  | handBack {s : Station × Plan} {found : GroupMatch}
      (searched : Searched Station.answer.planned user i r before found)
      (member : found.gid ∈ i.groups) (ids : site.RunsAs i found.gid s) :
      CalledFor site user i r before ⟨.setOwner r.path none (some i.gid), s⟩
  | look {p : Path} {s : Station × Plan} (above : p ∈ r.path.ancestors)
      (fsuid : s.1.ids.fsuid = 0) : CalledFor site user i r before ⟨.probe p, s⟩

/-- An errand for a user was served as that user, with an id that the settings allow and that is not
root's; the client got the answer of the last attempt, or was denied, unless the storage crashed. -/
def Served.AsUser (site : Site) (c : Config) (g : Gateway) (served : Served) : Prop :=
  ∀ envelope user, served.errand.envelope = some envelope → envelope.principal = .ok (.user user) →
    let r := g.adjust served.errand.request
    Answered Station.answer.planned r served.calls served.outcome ∧
      ((∀ e ∈ served.calls, e.call.isStorage = false) ∨
        ∃ i : Identity, site.findUser user = .ok (some ⟨i.uid, i.gid⟩) ∧
          site.listGroups user i.gid = .ok i.groups ∧ c.minUid ≤ i.uid ∧ i.uid ≠ 0 ∧
          Each (fun before e => e.call.isStorage → site.CalledFor user i r before e) []
            served.calls)

theorem Searched.member {site : Site} {user : String} {i : Identity} {r : Request}
    {before : List (Moment (Station × Plan))} {found : GroupMatch}
    (h : Searched Station.answer.planned user i r before found)
    (settled : ∀ e ∈ before, e.state.1.site.settled = site.settled)
    (listed : site.listGroups user i.gid = .ok i.groups) : found.gid ∈ i.groups := by
  obtain ⟨s, calls, t, mem, run⟩ := h
  obtain ⟨-, hfound, -⟩ := GroupSearch.run_run Station.honest.planned run
  obtain ⟨s₁, groups, he, hr, member⟩ := hfound found rfl
  have hs := settled _ (mem.subset he)
  rw [planned_of_failure?_eq_none _ rfl] at hr
  have same : groups = i.groups := by
    have eq := (Station.listGroups_of_settled hs user i.gid).symm.trans hr
    rw [listed] at eq
    exact (Except.ok.inj eq).symm
  rwa [← same]

variable {c : Config} {g : Gateway}

theorem Site.runsAs_of_standing {site : Site} {i : Identity} {s : Station × Plan} (gid : UInt32)
    (settled : s.1.site.settled = site.settled)
    (inside : (Station.view.ofFst Plan).standing s =
      (i.withGid gid).standing ((Station.view.ofFst Plan).keep s)) : site.RunsAs i gid s := by
  have hcred : s.1.site.credentials = site.credentials := congrArg Prod.fst settled
  have := congrArg Standing.ids inside
  rw [Site.RunsAs, ← hcred]
  exact this

theorem Process.serve_user {p : Process} {errand : Errand} {envelope : Envelope} {user : String}
    (sent : errand.envelope = some envelope) (named : envelope.principal = .ok (.user user)) :
    let served := (p.serve g errand).1
    served.outcome = .finished .denied ∧ (∀ e ∈ served.calls, e.call.isStorage = false) ∨
    ∃ i : Identity, p.site.findUser user = .ok (some ⟨i.uid, i.gid⟩) ∧
      p.site.listGroups user i.gid = .ok i.groups ∧ g.config.minUid ≤ i.uid ∧
      Gateway.TriedFor Station.answer.planned (Station.view.ofFst Plan) g.config user i
        (g.adjust errand.request) (p.start errand) (p.finish g errand) served.calls
        served.outcome := by
  intro served
  have run := p.serve_runs g errand
  have settled : ∀ e ∈ served.calls, e.state.1.site.settled = p.site.settled :=
    (settled_of_runs run).2
  have handled : g.handle errand.envelope errand.request =
      g.handleUser user (g.adjust errand.request) := by
    rw [sent, Gateway.handle]
    simp only [named]
  rw [handled] at run
  rcases Gateway.handleUser_run Station.honest.planned run with ⟨denied, idle⟩ | ⟨i, tried⟩
  · exact .inl ⟨denied, fun e he => (idle e he).1⟩
  obtain ⟨⟨s₁, he₁, hfound⟩, ⟨s₂, he₂, hlisted⟩, uid_le, -⟩ := tried.resolved
  rw [planned_of_failure?_eq_none _ rfl] at hfound hlisted
  exact .inr ⟨i, (Station.findUser_of_settled (settled _ he₁) user).symm.trans hfound,
    (Station.listGroups_of_settled (settled _ he₂) user i.gid).symm.trans hlisted, uid_le, tried⟩

theorem Gateway.TriedFor.calledFor {site : Site} {user : String} {i : Identity} {r : Request}
    {s t : Station × Plan} {calls : List (Moment (Station × Plan))} {o : Outcome Response}
    (h : TriedFor Station.answer.planned (Station.view.ofFst Plan) c user i r s t calls o)
    (settled : ∀ e ∈ calls, e.state.1.site.settled = site.settled)
    (listed : site.listGroups user i.gid = .ok i.groups) :
    Each (fun before e => e.call.isStorage → site.CalledFor user i r before e) [] calls ∧
      Answered Station.answer.planned r calls o := by
  obtain ⟨made, answered⟩ := h.each Station.honest.planned
  refine ⟨fun front e back split hc => ?_, answered⟩
  have before : ∀ e ∈ front, e.state.1.site.settled = site.settled := fun e he =>
    settled e (split ▸ List.mem_append_left _ he)
  have here : e.state.1.site.settled = site.settled :=
    settled e (split ▸ List.mem_append_right _ List.mem_cons_self)
  cases made front e back split hc with
  | attempt inside => exact .attempt (Site.runsAs_of_standing i.gid here inside)
  | look h =>
    obtain ⟨⟨q, hq, hcall⟩, -, fsuid⟩ := h
    obtain ⟨call, s⟩ := e
    obtain rfl : call = .probe q := hcall
    exact .look hq fsuid
  | retry searched inside =>
    exact .retry searched (searched.member before listed) (Site.runsAs_of_standing _ here inside)
  | handBack searched inside =>
    exact .handBack searched (searched.member before listed)
      (Site.runsAs_of_standing _ here inside)

theorem Process.serve_asUser (started : g.config = c) (valid : c.validate = .ok ()) {p : Process}
    {site : Site} (same : p.site.settled = site.settled) (errand : Errand) :
    (p.serve g errand).1.AsUser site c g := by
  intro envelope user sent named r
  change errand.envelope = some envelope at sent
  rcases serve_user (p := p) (g := g) sent named with ⟨denied, idle⟩ |
    ⟨i, found, listed, uid_le, tried⟩
  · rw [denied]
    exact ⟨.denied, .inl idle⟩
  have settled : ∀ e ∈ (p.serve g errand).1.calls, e.state.1.site.settled = site.settled :=
    fun e he => ((settled_of_runs (p.serve_runs g errand)).2 e he).trans same
  have found' : site.findUser user = .ok (some ⟨i.uid, i.gid⟩) :=
    (Station.findUser_of_settled same user).symm.trans found
  have listed' : site.listGroups user i.gid = .ok i.groups :=
    (Station.listGroups_of_settled same user i.gid).symm.trans listed
  obtain ⟨called, answered⟩ := tried.calledFor settled listed'
  rw [started] at uid_le
  have uid_ne : i.uid ≠ 0 := by
    have := (Config.validate_ok_iff.mp valid).2
    intro h
    rw [h] at uid_le
    exact this (UInt32.le_zero_iff.mp uid_le)
  exact ⟨answered, .inr ⟨i, found', listed', uid_le, uid_ne, called⟩⟩

theorem Process.settled_serve (p : Process) (errand : Errand) :
    (p.serve g errand).2.site.settled = p.site.settled :=
  (settled_of_runs (p.serve_runs g errand)).1

/-- A gateway that was started with settings `c` serves errands on any threads of a process, with any
calls for ids and privileges failing: each errand for a user is served as that user. -/
theorem Process.served_as_user {s t : Station × Plan} {calls : List (Moment (Station × Plan))}
    (started : (Gateway.start c).run.Runs Station.answer.planned s calls (.finished (.ok g)) t)
    (p : Process) (errands : List Errand) :
    ∀ served ∈ p.serveAll g errands, served.AsUser p.site c g := by
  obtain ⟨config, valid⟩ := Gateway.start_run started
  -- The directory of the site is the invariant: later errands start from another process.
  have from_site (errands : List Errand) (q : Process) (same : q.site.settled = p.site.settled) :
      ∀ served ∈ q.serveAll g errands, served.AsUser p.site c g := by
    induction errands generalizing q with
    | nil => simp [serveAll]
    | cons errand rest ih =>
      intro served hserved
      rcases List.mem_cons.mp hserved with rfl | hrest
      · exact serve_asUser config valid same errand
      · exact ih (q.serve g errand).2 ((q.settled_serve errand).trans same) served hrest
  exact from_site errands p rfl

/-- A site where a user may write to a directory with a further group only. -/
def sharedSite : Site where
  users := .directory (Directory.add {} "alice" 1001 900 [800])
  storage := .tree ((Tree.dir {} .root 0 0 0o755).dir (.ofString "/data") 0 800 0o770)

def creation : Errand where
  thread := 3
  envelope := some ⟨some { protocol := "ztn", name := some "alice" }⟩
  request := .create (.ofString "/data/out") 0o640
  plan := []

/-- The first attempt is refused, the second one has the group of the directory, and the node is
handed back to the primary group. -/
theorem Process.served_as_user_creation :
    let start : Station × Plan := (⟨{}, sharedSite⟩, [])
    let served := Process.serveAll ⟨{}⟩ ⟨fun _ => {}, sharedSite⟩ [creation, creation]
    ((Gateway.start {}).run.run Station.answer.planned start).1 = .finished (.ok ⟨{}⟩) ∧
    (served.map fun served =>
      ((served.calls.filter (·.call.isStorage)).map fun e => e.state.1.ids.fsgid)) =
        [[900, 0, 0, 800, 800], [900, 0]] ∧
    ∀ one ∈ served, one.AsUser sharedSite {} ⟨{}⟩ := by
  intro start served
  have started : ((Gateway.start {}).run.run Station.answer.planned start).1 =
      .finished (.ok ⟨{}⟩) := rfl
  refine ⟨started, by decide +kernel, ?_⟩
  have runs : (Gateway.start {}).run.Runs Station.answer.planned start
      ((Gateway.start {}).run.trace Station.answer.planned start) (.finished (.ok ⟨{}⟩))
      ((Gateway.start {}).run.run Station.answer.planned start).2 :=
    ⟨rfl, Prod.ext started rfl⟩
  exact served_as_user runs ⟨fun _ => {}, sharedSite⟩ [creation, creation]

end Impersonation
