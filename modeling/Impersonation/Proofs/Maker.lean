import Impersonation.Proofs.FailClosed
import Impersonation.Proofs.Reference

namespace Impersonation

namespace Tree

variable {t next : Tree} {i : Identity} {p above : Path} {kind mode : UInt32} {holder : Node}

namespace Created

theorem makes (created : Created t i p kind mode above holder next) :
    ∃ who made, Makes t who p kind mode above holder made := by
  rcases created.made with ⟨made, makes⟩ | ⟨-, -, made, makes⟩ <;> exact ⟨_, made, makes⟩

/-- A look at the new node shows it to those who got to its path before it was made, and to no
others. -/
theorem stat_eq (created : Created t i p kind mode above holder next)
    (statFailures : t.statFailures = []) (who : Ids) :
    (t.checkSearch who p = .ok () ∧
        next.stat who p = .ok (newNode i.ids holder.stat kind mode).stat) ∨
      t.checkSearch who p ≠ .ok () ∧ next.stat who p = .error (.os .accessDenied) := by
  obtain ⟨who', made, makes⟩ := created.makes
  have same := created.sameBut
  have free : next.stuck = false := same.stuck.trans makes.stuck
  rw [stat_eq_reach (same.statFailures.trans statFailures) free, reach,
    same.checkSearch_eq makes.apart, created.node]
  rcases (passable_of_checkSearch makes.reached).checkSearch_cases who with ok | denied
  · rw [ok]
    exact .inl ⟨rfl, rfl⟩
  · rw [denied]
    exact .inr ⟨by simp, rfl⟩

theorem nearest_eq (created : Created t i p kind mode above holder next)
    (statFailures : t.statFailures = []) :
    next.nearest p.ancestors = some (newNode i.ids holder.stat kind mode).stat := by
  obtain ⟨who, made, makes⟩ := created.makes
  have root := (passable_of_checkSearch makes.reached).checkSearch_root
  rcases created.stat_eq statFailures {} with ⟨-, seen⟩ | ⟨barred, -⟩
  · rw [Path.ancestors_eq_cons, nearest, seen]
  · exact absurd root barred

theorem take_stat_cases (created : Created t i p kind mode above holder next)
    (statFailures : t.statFailures = []) (turn : Turn) :
    t.checkSearch turn.who p = .ok () ∧ (next.take turn (.stat p)).1 =
        .finished (.attr (newNode i.ids holder.stat kind mode).stat) ∨
      t.checkSearch turn.who p ≠ .ok () ∧ (next.take turn (.stat p)).1 = .finished .denied := by
  rw [take_of_not_createsNode rfl, perform]
  rcases created.stat_eq statFailures turn.who with ⟨reached, seen⟩ | ⟨barred, denied⟩
  · rw [seen]
    exact .inl ⟨reached, rfl⟩
  · rw [denied]
    exact .inr ⟨barred, rfl⟩

theorem userTurn_stat (created : Created t i p kind mode above holder next)
    (statFailures : t.statFailures = []) :
    let turn := next.userTurn true i (next.nearest p.ancestors) (.stat p)
    (t.checkSearch i.ids p = .ok () ∨ holder.stat.isSetgid → (next.take turn (.stat p)).1 =
      .finished (.attr (newNode i.ids holder.stat kind mode).stat)) ∧
    (¬ (t.checkSearch i.ids p = .ok () ∨ holder.stat.isSetgid) →
      (next.take turn (.stat p)).1 = .finished .denied) := by
  intro turn
  rcases created.take_stat_cases statFailures ⟨i.ids, none⟩ with ⟨reached, shown⟩ | ⟨barred, denied⟩
  · have first : turn = ⟨i.ids, none⟩ := by
      refine userTurn_of_not_denied fun h => ?_
      rw [take_of_not_handBack, h] at shown
      simp [Response.denied] at shown
    rw [first]
    exact ⟨fun _ => shown, fun h => absurd (.inl reached) h⟩
  rw [take_of_not_handBack] at denied
  have second : turn = _ := userTurn_of_denied denied
  rw [created.nearest_eq statFailures] at second
  have gid := newNode_gid i.ids holder.stat kind mode
  cases sticky : holder.stat.isSetgid with
  | true =>
    -- The new node has the group of its directory, with which the user has made it.
    rw [sticky, if_pos rfl] at gid
    rcases created.made with ⟨_, makes⟩ | ⟨member, other, _, makes⟩
    · exact absurd makes.reached barred
    have who : turn.who = (i.withGid holder.stat.gid).ids := by
      simp [second, Identity.furtherTurn?, gid, member, other]
    rcases created.take_stat_cases statFailures turn with ⟨-, shown⟩ | ⟨barred', -⟩
    · exact ⟨fun _ => shown, fun h => absurd (.inr rfl) h⟩
    · rw [who] at barred'
      exact absurd makes.reached barred'
  | false =>
    -- The new node has the primary group, which leaves no other group to try.
    have gid : (newNode i.ids holder.stat kind mode).stat.gid = i.gid := by
      rw [gid, sticky]
      rfl
    have same : turn = ⟨i.ids, none⟩ := by simp [second, Identity.furtherTurn?, gid]
    rw [same, take_of_not_handBack]
    exact ⟨fun h => by simp [barred] at h, fun _ => denied⟩

end Created

end Tree

namespace Process

variable {p : Process} {g : Gateway}

theorem serve_thread {errand : Errand} {n : Nat} (unmarked : (p.threads n).flags = {})
    (fine : ∀ e ∈ (p.serve g errand).1.calls, ¬ e.Fails Station.answer.planned) :
    ((p.serve g errand).2.threads n).flags = {} ∧ ∃ groups,
      ((p.serve g errand).2.threads n).ids p.site.credentials =
        { (p.threads n).ids p.site.credentials with groups } := by
  by_cases same : n = errand.thread
  · subst same
    have credentials : (p.finish g errand).1.site.credentials = p.site.credentials :=
      congrArg Prod.fst (p.settled_serve (g := g) errand)
    obtain ⟨groups, back⟩ := (g.handle_scoped errand.envelope errand.request).restored
      Station.honest.planned (p.serve_runs g errand) fine unmarked
    rw [threads_serve_self, ← credentials]
    refine ⟨(congrArg (·.flags) back).trans unmarked, groups, (congrArg (·.ids) back).trans ?_⟩
    rw [credentials]
    rfl
  · rw [threads_serve_of_ne same]
    exact ⟨unmarked, _, rfl⟩

theorem unmarked_of_not_denied {errand : Errand} {envelope : Envelope} {user : String}
    (sent : errand.envelope = some envelope) (named : envelope.principal = .ok (.user user))
    (other : (p.serve g errand).1.outcome ≠ .finished .denied) :
    (p.threads errand.thread).flags = {} := by
  rcases p.serve_user (g := g) sent named with ⟨denied, -⟩ | ⟨i, -, -, -, tried⟩
  · exact absurd denied other
  · exact (tried.opened Station.honest.planned).1

theorem unmarked_of_ok {errand : Errand} {envelope : Envelope} {user : String}
    (sent : errand.envelope = some envelope) (named : envelope.principal = .ok (.user user))
    (answered : (p.serve g errand).1.outcome = .finished .ok) :
    (p.threads errand.thread).flags = {} := by
  apply unmarked_of_not_denied sent named
  rw [answered]
  decide

/-- The user who made a node looks at it in the next errand, on the same thread or on one without a
mark, and no call fails in either of the two. The look shows the node unless a directory above it is
closed to the user with the primary group and the directory that holds it does not hand its group
down; then it is denied. -/
theorem serve_stat_after_creation {t : Tree} {first second : Errand} {envelope envelope' : Envelope}
    {user : String} {entry : UserEntry} {kind mode : UInt32}
    (simulated : p.site.credentials = .simulated) (storage : p.site.storage = .tree t)
    (statFailures : t.statFailures = []) (retries : g.config.groupRetry = true)
    (sent : first.envelope = some envelope) (named : envelope.principal = .ok (.user user))
    (found : p.site.findUser user = .ok (some entry))
    (creates : (g.adjust first.request).creation? = some (kind, mode))
    (answered : (p.serve g first).1.outcome = .finished .ok)
    (sent' : second.envelope = some envelope') (named' : envelope'.principal = .ok (.user user))
    (looks : second.request = .stat first.request.path)
    (other : second.thread ≠ first.thread → (p.threads second.thread).flags = {})
    (fine : ∀ e ∈ (p.serve g first).1.calls, ¬ e.Fails Station.answer.planned)
    (fine' : ∀ e ∈ ((p.serve g first).2.serve g second).1.calls,
      ¬ e.Fails Station.answer.planned) :
    ∃ above holder next node, first.request.path.parent? = some above ∧
      t.find? above = some holder ∧ (p.serve g first).2.site.storage = .tree next ∧
      next.find? first.request.path = some node ∧
      (t.checkSearch ⟨entry.uid, entry.gid, []⟩ first.request.path = .ok () ∨
          holder.stat.isSetgid →
        ((p.serve g first).2.serve g second).1.outcome = .finished (.attr node.stat)) ∧
      (¬ (t.checkSearch ⟨entry.uid, entry.gid, []⟩ first.request.path = .ok () ∨
          holder.stat.isSetgid) →
        ((p.serve g first).2.serve g second).1.outcome = .finished .denied) := by
  obtain ⟨i, above, holder, next, known, rfl, after, created⟩ :=
    serve_created simulated storage statFailures sent named found creates answered
  obtain ⟨_, _, makes⟩ := created.makes
  refine ⟨above, holder, next, _, makes.parent, makes.found, after, created.node, ?_⟩
  have settled := p.settled_serve (g := g) first
  have simulated' : (p.serve g first).2.site.credentials = .simulated :=
    (congrArg Prod.fst settled).trans simulated
  have known' : (p.serve g first).2.site.identity? g.config user = some i :=
    (Site.identity?_of_settled settled g.config user).trans known
  have unmarked : (p.threads second.thread).flags = {} := by
    by_cases same : second.thread = first.thread
    · rw [same]
      exact unmarked_of_ok sent named answered
    · exact other same
  have unhindered : ¬ Hindered Station.answer.planned (Station.view.ofFst Plan)
      ((p.serve g first).2.start second) ((p.serve g first).2.serve g second).1.calls := by
    rintro (marked | ⟨e, he, failed⟩)
    · exact marked (serve_thread unmarked fine).1
    · exact fine' e he failed
  obtain ⟨last, -, served⟩ := (p.serve g first).2.serve_onTree simulated' after g second
  have outcome := congrArg Prod.fst (Gateway.serveOn_of_unhindered served unhindered)
  have turn_eq (base : Ids) (governs : Option FileStat) :
      g.turn? (p.serve g first).2.site base next governs second.envelope
        (.stat first.request.path) =
      some (next.userTurn true i governs (.stat first.request.path)) := by
    simp [Gateway.turn?, sent', named', known', retries]
  simp only [Gateway.serveOn, looks, Gateway.adjust, turn_eq] at outcome
  have own : t.checkSearch ⟨i.uid, i.gid, []⟩ first.request.path =
      t.checkSearch i.ids first.request.path := rfl
  rw [own, outcome]
  exact created.userTurn_stat statFailures

def lookup : Errand :=
  { creation with request := .stat creation.request.path }

/-- The maker of a node is denied a look at it: the directory lets in its own group only, and the node
was handed back to the primary group. -/
theorem serve_stat_after_creation_denied :
    let p : Process := ⟨fun _ => {}, sharedSite⟩
    let served := p.serveAll ⟨{}⟩ [creation, lookup]
    served.map (·.outcome) = [.finished .ok, .finished .denied] ∧
      (∀ one ∈ served, ∀ e ∈ one.calls, ¬ e.Fails Station.answer.planned) ∧
      ∀ n, (p.threads n).flags = {} := by
  refine ⟨?_, ?_, fun _ => rfl⟩ <;> decide +kernel

def handingSite : Site :=
  { sharedSite with
    storage := .tree ((Tree.dir {} .root 0 0 0o755).dir (.ofString "/data") 0 800 0o2770) }

/-- In a directory that hands its group down the maker sees the new node. -/
theorem serve_stat_after_creation_handed :
    let p : Process := ⟨fun _ => {}, handingSite⟩
    (p.serve ⟨{}⟩ creation).1.outcome = .finished .ok ∧ ∃ next node,
      (p.serve ⟨{}⟩ creation).2.site.storage = .tree next ∧
      next.find? creation.request.path = some node ∧
      ((p.serve ⟨{}⟩ creation).2.serve ⟨{}⟩ lookup).1.outcome = .finished (.attr node.stat) := by
  intro p
  have answered : (p.serve ⟨{}⟩ creation).1.outcome = .finished .ok := by decide +kernel
  have storage : p.site.storage =
      .tree ((Tree.dir {} .root 0 0 0o755).dir (.ofString "/data") 0 800 0o2770) := rfl
  have found : p.site.findUser "alice" = .ok (some ⟨1001, 900⟩) := rfl
  have creates : (Gateway.adjust ⟨{}⟩ creation.request).creation? = some (Mode.regular, 0o640) := rfl
  have fine : ∀ e ∈ (p.serve ⟨{}⟩ creation).1.calls, ¬ e.Fails Station.answer.planned := by
    decide +kernel
  have fine' : ∀ e ∈ ((p.serve ⟨{}⟩ creation).2.serve ⟨{}⟩ lookup).1.calls,
      ¬ e.Fails Station.answer.planned := by decide +kernel
  obtain ⟨above, holder, next, node, parent, held, after, made, shown, -⟩ :=
    serve_stat_after_creation rfl storage rfl rfl rfl rfl found creates answered rfl rfl rfl
      (fun _ => rfl) fine fine'
  refine ⟨answered, next, node, after, made, shown (.inr ?_)⟩
  cases parent
  cases held
  rfl

end Process

end Impersonation
