import Impersonation.Proofs.Barrier
import Impersonation.Proofs.Parallel
import Impersonation.Proofs.Service

namespace Impersonation

open Program

namespace Tree

variable {t₁ t₂ : Tree} {who : Ids} {dir : Path} {r : Request}

/-- A path is out of a user's reach in two trees, because of the same failure. -/
def Unreached (t₁ t₂ : Tree) (p : Path) (who : Ids) : Prop :=
  ∃ f, t₁.checkSearch who p = .error f ∧ t₂.checkSearch who p = .error f

theorem Unreached.indifferent (h : Unreached t₁ t₂ r.path who) (agree : AgreesOutside dir t₁ t₂) :
    t₁.Indifferent t₂ who (.perform r) ∧
      ∀ uid gid, t₁.Indifferent t₂ who (.setOwner r.path uid gid) := by
  obtain ⟨f, first, second⟩ := h
  refine ⟨⟨t₁.refusal f r, perform_of_unreached first, ?_⟩, fun uid gid => ?_⟩
  · rw [agree.refusal_eq]
    exact perform_of_unreached second
  · refine ⟨t₁.failure f, chown_of_unreached first, ?_⟩
    rw [agree.failure_eq]
    exact chown_of_unreached second

end Tree

/-- The ids that a user may come with: one of the user's groups stands in front. -/
def Identity.Guise (i : Identity) (who : Ids) : Prop :=
  ∃ gid ∈ i.gid :: i.groups, who = ⟨i.uid, gid, i.groups⟩

/-- The directory of a site has these ids for a user. -/
def Site.Knows (site : Site) (user : String) (i : Identity) : Prop :=
  site.findUser user = .ok (some ⟨i.uid, i.gid⟩) ∧ site.listGroups user i.gid = .ok i.groups

def Site.Bars (site : Site) (user : String) (n : Node) : Prop :=
  ∀ i, site.Knows user i → ∀ who, i.Guise who → n.stat.allows who .search = false

theorem Site.CalledFor.cases {site : Site} {user : String} {i : Identity} {r : Request}
    {before : List (Moment (Station × Plan))} {e : Moment (Station × Plan)}
    (h : site.CalledFor user i r before e) (simulated : site.credentials = .simulated)
    (settled : e.state.1.site.settled = site.settled) :
    (∃ a ∈ r.path.ancestors, e.call = .probe a) ∨
      (e.call = .perform r ∨ e.call = .setOwner r.path none (some i.gid)) ∧
        i.Guise e.state.1.treeIds := by
  have guise {gid : UInt32} (hgid : gid ∈ i.gid :: i.groups) (ids : site.RunsAs i gid e.state) :
      i.Guise e.state.1.treeIds := by
    have credentials : e.state.1.site.credentials = .simulated :=
      (congrArg Prod.fst settled).trans simulated
    rw [Site.RunsAs, simulated, Station.ids, credentials] at ids
    exact ⟨gid, hgid, ids⟩
  cases h with
  | attempt ids => exact .inr ⟨.inl rfl, guise List.mem_cons_self ids⟩
  | retry _ member ids => exact .inr ⟨.inl rfl, guise (List.mem_cons_of_mem _ member) ids⟩
  | handBack _ member ids => exact .inr ⟨.inr rfl, guise (List.mem_cons_of_mem _ member) ids⟩
  | look above _ => exact .inl ⟨_, above, rfl⟩

namespace Process

variable {p : Process} {g : Gateway} {errand : Errand} {envelope : Envelope} {user : String}
  {t t₁ t₂ : Tree} {dir : Path}

def withTree (p : Process) (t : Tree) : Process :=
  { p with site := { p.site with storage := .tree t } }

theorem listGroups_withTree (p : Process) (t : Tree) (user : String) (primary : UInt32) :
    (p.withTree t).site.listGroups user primary = p.site.listGroups user primary :=
  have settled : (p.withTree t).site.settled = p.site.settled := rfl
  Station.listGroups_of_settled (s := ⟨{}, (p.withTree t).site⟩) settled user primary

theorem parallel_start (p : Process) (errand : Errand) (t₁ t₂ : Tree) :
    Station.Parallel t₁ t₂ ((p.withTree t₁).start errand) ((p.withTree t₂).start errand) :=
  ⟨⟨p.threads errand.thread, p.site⟩, errand.plan, rfl, rfl⟩

/-- The path of an errand is out of its user's reach in two trees. -/
def Shut (p : Process) (user : String) (errand : Errand) (t₁ t₂ : Tree) : Prop :=
  ∀ i, p.site.Knows user i → ∀ who, i.Guise who → t₁.Unreached t₂ errand.request.path who

def Refused (p : Process) (g : Gateway) (user : String) (errand : Errand) (t : Tree)
    (o : Outcome Response) : Prop :=
  ∃ i who f, p.site.Knows user i ∧ i.Guise who ∧
    t.checkSearch who errand.request.path = .error f ∧
    o = .finished (t.refusal f (g.adjust errand.request))

/-- If a failure is the only one that keeps the user from the path, the refusal is told by it. -/
theorem Refused.eq {f : Fault} {o : Outcome Response} (h : p.Refused g user errand t o)
    (only : ∀ i, p.site.Knows user i → ∀ who, i.Guise who →
      t.checkSearch who errand.request.path = .error f) :
    o = .finished (t.refusal f (g.adjust errand.request)) := by
  obtain ⟨i, who, f', known, guise, unreached, rfl⟩ := h
  have same := (only i known who guise).symm.trans unreached
  rw [Except.error.inj same]

section

variable (simulated : p.site.credentials = .simulated) (sent : errand.envelope = some envelope)
  (named : envelope.principal = .ok (.user user))
include simulated sent named

/-- Where a path is out of reach, all but the looks is refused alike. -/
theorem serve_indifferent (agree : t₁.AgreesOutside dir t₂) (shut : p.Shut user errand t₁ t₂)
    (looks : ∀ e ∈ ((p.withTree t₁).serve g errand).1.calls,
      ∀ a ∈ errand.request.path.ancestors, e.call = .probe a →
        ∀ who, t₁.stat who a = t₂.stat who a) :
    ∀ e ∈ ((p.withTree t₁).serve g errand).1.calls,
      t₁.Indifferent t₂ e.state.1.treeIds e.call := by
  intro e he
  cases hc : e.call.isStorage with
  | false => exact Tree.indifferent_of_not_isStorage hc
  | true =>
    have settled := (settled_of_runs ((p.withTree t₁).serve_runs g errand)).2
    rcases (p.withTree t₁).serve_user (g := g) sent named with ⟨-, idle⟩ |
      ⟨i, found, listed, -, tried⟩
    · simp [idle e he] at hc
    obtain ⟨called, -⟩ := tried.calledFor settled listed
    obtain ⟨before, here⟩ := called.mem he
    rcases (here hc).cases simulated (settled e he) with ⟨a, ha, look⟩ | ⟨call, guise⟩
    · rw [g.adjust_path] at ha
      rw [look]
      exact looks e he a ha look _
    · rw [listGroups_withTree] at listed
      have unreached := shut i ⟨found, listed⟩ _ guise
      rw [← g.adjust_path] at unreached
      obtain ⟨perform, setOwner⟩ := unreached.indifferent agree
      rcases call with call | call
      · rw [call]
        exact perform
      · rw [call]
        exact setOwner _ _

/-- Where a path is out of reach, the tree stays as it was, an attempt is answered by its refusal, and
the client is denied or gets such an answer. -/
theorem serve_shut (shut : p.Shut user errand t t) :
    let served := (p.withTree t).serve g errand
    served.2.site.storage = .tree t ∧
      (∀ s, ⟨.perform (g.adjust errand.request), s⟩ ∈ served.1.calls →
        p.Refused g user errand t
          (Station.answer.planned (.perform (g.adjust errand.request)) s).1) ∧
      (served.1.outcome = .finished .denied ∨ p.Refused g user errand t served.1.outcome) := by
  intro served
  have agree := Tree.AgreesOutside.refl .root t
  have run := (p.withTree t).serve_runs g errand
  have settled := (settled_of_runs run).2
  have indifferent := serve_indifferent (g := g) simulated sent named agree shut
    fun _ _ _ _ _ _ => rfl
  have parallel := run.invariant (I := fun s => Station.Parallel t t s s)
    (fun e he h => (h.planned (indifferent e he)).2) (p.parallel_start errand t t)
  refine ⟨parallel.1.storage.1, ?_⟩
  rcases (p.withTree t).serve_user (g := g) sent named with ⟨denied, idle⟩ |
    ⟨i, found, listed, -, tried⟩
  · refine ⟨fun s hs => ?_, .inl denied⟩
    simpa [Call.isStorage] using idle _ hs
  obtain ⟨called, answered⟩ := tried.calledFor settled listed
  rw [listGroups_withTree] at listed
  have attempts : ∀ s, ⟨.perform (g.adjust errand.request), s⟩ ∈ served.1.calls →
      p.Refused g user errand t
        (Station.answer.planned (.perform (g.adjust errand.request)) s).1 := by
    intro s hs
    obtain ⟨before, here⟩ := called.mem hs
    rcases (here rfl).cases simulated (settled _ hs) with ⟨a, ha, look⟩ | ⟨-, guise⟩
    · simp at look
    · obtain ⟨f, unreached, -⟩ := shut i ⟨found, listed⟩ _ guise
      refine ⟨i, _, f, ⟨found, listed⟩, guise, unreached, ?_⟩
      rw [← g.adjust_path] at unreached
      exact (parallel.2 _ hs).perform (Tree.perform_of_unreached unreached)
  refine ⟨attempts, ?_⟩
  generalize served.1.outcome = o at answered
  cases answered with
  | denied => exact .inl rfl
  | @answer s front back split last =>
    exact .inr (attempts s (split ▸ List.mem_append_right _ List.mem_cons_self))
  | @crash reason crashes =>
    obtain ⟨e, he, hc⟩ := crashes
    exact absurd hc ((parallel.2 e he).not_crashes (indifferent e he) reason)

theorem serve_denied (denied : ∀ i, p.site.Knows user i → ∀ who, i.Guise who →
      t.checkSearch who errand.request.path = .error (.os .accessDenied))
    (refusal : t.refusal (.os .accessDenied) (g.adjust errand.request) = .denied) :
    ((p.withTree t).serve g errand).1.outcome = .finished .denied := by
  have shut : p.Shut user errand t t := by
    intro i known who guise
    have unreached := denied i known who guise
    exact ⟨_, unreached, unreached⟩
  obtain ⟨-, -, outcome⟩ := serve_shut (g := g) simulated sent named shut
  rcases outcome with outcome | refused
  · exact outcome
  · rw [refused.eq denied, refusal]

/-- Where a path is out of reach in two trees and looks at what is above it are alike, errands end
alike. -/
theorem serve_alike (agree : t₁.AgreesOutside dir t₂) (shut : p.Shut user errand t₁ t₂)
    (looks : ∀ e ∈ ((p.withTree t₁).serve g errand).1.calls,
      ∀ a ∈ errand.request.path.ancestors, e.call = .probe a →
        ∀ who, t₁.stat who a = t₂.stat who a) :
    ((p.withTree t₂).serve g errand).1.outcome = ((p.withTree t₁).serve g errand).1.outcome := by
  have indifferent := serve_indifferent simulated sent named agree shut looks
  obtain ⟨last, run, -⟩ := (p.parallel_start errand t₁ t₂).run
    ((p.withTree t₁).serve_runs g errand) indifferent
  have outcome := congrArg Prod.fst run
  exact outcome

omit simulated in
theorem serve_denied_of_probe {e : Moment (Station × Plan)} (he : e ∈ (p.serve g errand).1.calls)
    {a : Path} (look : e.call = .probe a) :
    ∃ u, ⟨.perform (g.adjust errand.request), u⟩ ∈ (p.serve g errand).1.calls ∧
      (Station.answer.planned (.perform (g.adjust errand.request)) u).1 = .finished .denied := by
  rcases p.serve_user (g := g) sent named with ⟨-, idle⟩ | ⟨i, -, -, -, tried⟩
  · have := idle e he
    simp [look, Call.isStorage] at this
  · exact tried.denied_of_probe he look

/-- A user who may not search a directory in either of two trees that differ only below it is told the
same about a path below it, whatever the gateway does to find a group for the path. -/
theorem serve_hidden (agree : t₁.AgreesOutside dir t₂) {n : Node} (node : t₁.find? dir = some n)
    (isDir : n.stat.isDir) (barred : p.site.Bars user n)
    (below : ∃ q ∈ errand.request.path.above, q.same dir) :
    let first := (p.withTree t₁).serve g errand
    let second := (p.withTree t₂).serve g errand
    ∃ response, first.1.outcome = .finished response ∧ second.1.outcome = .finished response ∧
      first.2.site.storage = .tree t₁ ∧ second.2.site.storage = .tree t₂ := by
  intro first second
  obtain ⟨q, hq, same⟩ := below
  have node_q : t₁.find? q = some n := (Nodes.find?_congr same t₁.nodes).trans node
  -- Both trees keep the user out, so each run leaves its tree alone and comes to a refusal.
  have cases := agree.closed_cases same node_q isDir hq
  have shut : p.Shut user errand t₁ t₂ := by
    intro i known who guise
    rcases cases with denied | alike
    · exact ⟨_, denied who (barred i known who guise)⟩
    · exact (alike who).1
  have shut₁ : p.Shut user errand t₁ t₁ := fun i known who guise =>
    (shut i known who guise).imp fun _ h => ⟨h.1, h.1⟩
  have shut₂ : p.Shut user errand t₂ t₂ := fun i known who guise =>
    (shut i known who guise).imp fun _ h => ⟨h.2, h.2⟩
  obtain ⟨kept₁, attempts₁, outcome₁⟩ := serve_shut (g := g) simulated sent named shut₁
  obtain ⟨kept₂, -, outcome₂⟩ := serve_shut (g := g) simulated sent named shut₂
  have finished : ∃ response, first.1.outcome = .finished response := by
    rcases outcome₁ with denied | ⟨_, _, _, _, _, _, refused⟩
    · exact ⟨_, denied⟩
    · exact ⟨_, refused⟩
  obtain ⟨response, first_response⟩ := finished
  refine ⟨response, first_response, ?_, kept₁, kept₂⟩
  rw [← first_response]
  rcases cases with denied | alike
  · have denied₁ (i) (known : p.site.Knows user i) (who) (guise : i.Guise who) :=
      (denied who (barred i known who guise)).1
    have denied₂ (i) (known : p.site.Knows user i) (who) (guise : i.Guise who) :=
      (denied who (barred i known who guise)).2
    let r := g.adjust errand.request
    by_cases refusal : t₁.refusal (.os .accessDenied) r = .denied
    · -- What is looked at may decide about a further attempt here, but that is denied too.
      have refusal₂ : t₂.refusal (.os .accessDenied) r = .denied := by
        rw [← agree.refusal_eq, refusal]
      calc second.1.outcome
          = .finished .denied := serve_denied simulated sent named denied₂ refusal₂
        _ = first.1.outcome := (serve_denied simulated sent named denied₁ refusal).symm
    · -- No attempt is denied, so nothing is looked at.
      refine serve_alike simulated sent named agree shut fun e he a _ look => ?_
      obtain ⟨u, mem, answer⟩ := serve_denied_of_probe sent named he look
      have refused := (attempts₁ u mem).eq denied₁
      rw [answer] at refused
      exact absurd (Outcome.finished.inj refused).symm refusal
  · exact serve_alike simulated sent named agree shut fun _ _ a ha _ who => (alike who).2 a ha

end

def vault : Tree :=
  (Tree.dir {} .root 0 0 0o755).dir (.ofString "/vault") 0 0 0o700

def intrusion : Errand where
  thread := 0
  envelope := some ⟨some { protocol := "ztn", name := some "alice" }⟩
  request := .create (.ofString "/vault/team/out") 0o640
  plan := []

/-- With a directory of the user's group below there is a second attempt, without it there is none, and
the user cannot tell. -/
theorem serve_hidden_vault :
    let p : Process := ⟨fun _ => {}, sharedSite⟩
    let filled := vault.dir (.ofString "/vault/team") 0 800 0o770
    let first := (p.withTree vault).serve ⟨{}⟩ intrusion
    let second := (p.withTree filled).serve ⟨{}⟩ intrusion
    ([first, second].map fun served =>
      ((served.1.calls.filter (·.call.isStorage)).map fun e => e.state.1.ids.fsgid)) =
        [[900, 0, 0, 0], [900, 0, 0, 800]] ∧
    ∃ response, first.1.outcome = .finished response ∧ second.1.outcome = .finished response ∧
      first.2.site.storage = .tree vault ∧ second.2.site.storage = .tree filled := by
  intro p filled first second
  refine ⟨by decide +kernel, ?_⟩
  have named : Envelope.principal ⟨some { protocol := "ztn", name := some "alice" }⟩ =
      .ok (.user "alice") := rfl
  have inside : (Path.ofString "/vault/team").isBelow (.ofString "/vault") := by
    constructor <;> decide
  have agree : vault.AgreesOutside (.ofString "/vault") filled := .plant vault inside _ _ _
  have node : vault.find? (.ofString "/vault") = some (.ofStat (Mode.directory ||| 0o700) 0 0) := rfl
  have barred : sharedSite.Bars "alice" (.ofStat (Mode.directory ||| 0o700) 0 0) := by
    rintro ⟨uid, gid, groups⟩ ⟨found, listed⟩ who ⟨front, mem, rfl⟩
    have entry : sharedSite.findUser "alice" = .ok (some ⟨1001, 900⟩) := rfl
    obtain ⟨rfl, rfl⟩ : 1001 = uid ∧ 900 = gid := by simpa [entry] using found
    have members : sharedSite.listGroups "alice" 900 = .ok [900, 800] := rfl
    obtain rfl : [900, 800] = groups := by simpa [members] using listed
    simp only [List.mem_cons, List.not_mem_nil, or_false] at mem
    rcases mem with rfl | rfl | rfl <;> decide
  have below : ∃ q ∈ intrusion.request.path.above, q.same (.ofString "/vault") := by
    have above : intrusion.request.path.above =
        [.root, .ofString "/vault", .ofString "/vault/team"] := by decide +kernel
    rw [above]
    exact ⟨.ofString "/vault", by simp, Path.same_refl _⟩
  exact serve_hidden (p := p) rfl rfl named agree node rfl barred below

end Process

end Impersonation
