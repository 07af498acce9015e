import Impersonation.Proofs.Parallel
import Impersonation.Proofs.SpelledCalls
import Impersonation.Proofs.SpelledTree
import Impersonation.Proofs.Threads

namespace Impersonation

open Program

/-- One storage, up to the spelling of the paths of its nodes. -/
inductive Storage.Respells : Storage → Storage → Prop where
  | tree {t t' : Tree} (h : t.Respells t') : Respells (.tree t) (.tree t')
  | statOnly {t t' : Tree} (h : t.Respells t') : Respells (.statOnly t) (.statOnly t')
  | mount (m : Mount) (fs : Filesystem) : Respells (.mount m fs) (.mount m fs)

theorem Storage.Respells.refl (storage : Storage) : storage.Respells storage := by
  cases storage with
  | tree t => exact .tree (.refl t)
  | statOnly t => exact .statOnly (.refl t)
  | mount m fs => exact .mount m fs

theorem Storage.Respells.exists_tree {storage storage' : Storage} {t : Tree}
    (h : storage.Respells storage') (eq : storage = .tree t) :
    ∃ t', storage' = .tree t' ∧ t.Respells t' := by
  subst eq
  cases h with
  | tree ht => exact ⟨_, rfl, ht⟩

structure Visits.Respells (v v' : Visits) : Prop where
  stats : List.Forall₂ Path.Respells v.stats v'.stats
  changes : v'.changes = v.changes

namespace Visits.Respells

variable {v v' : Visits} {p q : Path} {r r' : Request}

theorem refl (v : Visits) : v.Respells v :=
  ⟨List.forall₂_same.mpr fun p _ => .refl p, rfl⟩

theorem look (h : v.Respells v') (hp : p.Respells q) : (v.look p).Respells (v'.look q) :=
  ⟨List.rel_append h.stats (.cons hp .nil), h.changes⟩

theorem change (h : v.Respells v') (who : Ids) : (v.change who).Respells (v'.change who) :=
  ⟨h.stats, by rw [Visits.change, Visits.change, h.changes]⟩

theorem request (h : v.Respells v') (asked : r.Respells r') (who : Ids) :
    (v.request who r).Respells (v'.request who r') := by
  cases asked with
  | stat hp => exact h.look hp
  | mkdir _ _ | create _ _ | unlink _ | write _ _ _ => exact h.change who
  | rmdir _ | rename _ _ | truncate _ _ | chmod _ _ | readDir _ | read _ _ _ => exact h

end Visits.Respells

structure Site.Respells (a b : Site) : Prop where
  rest : b = { a with storage := b.storage, visits := b.visits }
  storage : a.storage.Respells b.storage
  visits : a.visits.Respells b.visits

theorem Site.Respells.refl (site : Site) : site.Respells site :=
  ⟨rfl, .refl _, .refl _⟩

structure Station.Respells (s s' : Station) : Prop where
  thread : s'.thread = s.thread
  site : s.site.Respells s'.site

theorem Station.Respells.refl (s : Station) : s.Respells s :=
  ⟨rfl, .refl _⟩

namespace Station

variable {s s' : Station} {c c' : Call} {p q : Path}

theorem respells_withStorage {storage storage' : Storage} {visits visits' : Visits} (u : Station)
    (hs : storage.Respells storage') (hv : visits.Respells visits') :
    (u.withStorage storage visits).Respells (u.withStorage storage' visits') :=
  ⟨rfl, rfl, hs, hv⟩

/-- Such stations are one station with two storages and two lists of visits. -/
theorem Respells.exists_withStorage (h : s.Respells s') :
    ∃ (u : Station) (storage storage' : Storage) (visits visits' : Visits),
      storage.Respells storage' ∧ visits.Respells visits' ∧
        s = u.withStorage storage visits ∧ s' = u.withStorage storage' visits' := by
  obtain ⟨thread, site⟩ := s'
  obtain ⟨same, rest, hs, hv⟩ := h
  cases same
  exact ⟨s, s.site.storage, site.storage, s.site.visits, site.visits, hs, hv, rfl,
    congrArg (Station.mk s.thread) rest⟩

theorem perform_respelled {r r' : Request} (asked : r.Respells r') (h : s.Respells s') :
    (s'.perform r').1 = (s.perform r).1 ∧ (s.perform r).2.Respells (s'.perform r').2 := by
  obtain ⟨u, storage, storage', visits, visits', hs, hv, rfl, rfl⟩ := h.exists_withStorage
  cases hs with
  | tree ht =>
    obtain ⟨same, later⟩ := ht.perform asked u.treeIds
    exact ⟨same, respells_withStorage u (.tree later) (hv.request asked u.treeIds)⟩
  | statOnly ht =>
    cases asked with
    | stat hp =>
      have looked := ht.stat hp u.treeIds
      have same := congrArg (fun found => Outcome.finished (Response.ofResult (found.map .attr))) looked
      exact ⟨same, respells_withStorage u (.statOnly ht) (hv.look hp)⟩
    | _ => exact ⟨rfl, respells_withStorage u (.statOnly ht) hv⟩
  | mount m fs =>
    unfold perform
    dsimp only [withStorage]
    rw [Mount.perform_respelled asked]
    exact ⟨rfl, respells_withStorage u (.mount m _) hv⟩

theorem probe_respelled (hp : p.Respells q) (h : s.Respells s') :
    (s'.probe q).1 = (s.probe p).1 ∧ (s.probe p).2.Respells (s'.probe q).2 := by
  obtain ⟨u, storage, storage', visits, visits', hs, hv, rfl, rfl⟩ := h.exists_withStorage
  cases hs with
  | tree ht =>
    exact ⟨congrArg Outcome.finished (ht.stat hp u.treeIds),
      respells_withStorage u (.tree ht) (hv.look hp)⟩
  | statOnly ht =>
    exact ⟨congrArg Outcome.finished (ht.stat hp u.treeIds),
      respells_withStorage u (.statOnly ht) (hv.look hp)⟩
  | mount m fs =>
    exact ⟨congrArg Outcome.finished (Mount.stat_respelled hp m fs u.hostIds),
      respells_withStorage u (.mount m fs) hv⟩

theorem setOwner_tree (u : Station) (t : Tree) (visits : Visits) (p : Path)
    (uid gid : Option UInt32) :
    (u.withStorage (.tree t) visits).setOwner p uid gid =
      match t.chown u.treeIds p uid gid with
      | .ok next => (.finished (.ok ()), u.withStorage (.tree next) (visits.change u.treeIds))
      | .error f => (.finished (.error f), u.withStorage (.tree t) (visits.change u.treeIds)) :=
  rfl

theorem setOwner_mount (u : Station) (m : Mount) (fs : Filesystem) (visits : Visits) (p : Path)
    (uid gid : Option UInt32) :
    (u.withStorage (.mount m fs) visits).setOwner p uid gid =
      match m.chown fs u.hostIds p uid gid with
      | .ok next => (.finished (.ok ()), u.withStorage (.mount m next) visits)
      | .error f => (.finished (.error f), u.withStorage (.mount m fs) visits) :=
  rfl

theorem setOwner_respelled (hp : p.Respells q) (uid gid : Option UInt32) (h : s.Respells s') :
    (s'.setOwner q uid gid).1 = (s.setOwner p uid gid).1 ∧
      (s.setOwner p uid gid).2.Respells (s'.setOwner q uid gid).2 := by
  obtain ⟨u, storage, storage', visits, visits', hs, hv, rfl, rfl⟩ := h.exists_withStorage
  cases hs with
  | @tree t t' ht =>
    rw [setOwner_tree, setOwner_tree]
    have changed := ht.chown hp u.treeIds uid gid
    generalize t.chown u.treeIds p uid gid = next, t'.chown u.treeIds q uid gid = next' at changed
    cases changed with
    | ok later => exact ⟨rfl, respells_withStorage u (.tree later) (hv.change u.treeIds)⟩
    | error same =>
      subst same
      exact ⟨rfl, respells_withStorage u (.tree ht) (hv.change u.treeIds)⟩
  | statOnly ht => exact ⟨rfl, respells_withStorage u (.statOnly ht) hv⟩
  | mount m fs =>
    rw [setOwner_mount, setOwner_mount, Mount.chown_respelled hp]
    split
    · exact ⟨rfl, respells_withStorage u (.mount m _) hv⟩
    · exact ⟨rfl, respells_withStorage u (.mount m fs) hv⟩

/-- A station does not tell spellings apart: calls that differ in spelling get the same reply, and the
stations stay the same up to spelling. -/
theorem answer_overlooks : answer.Overlooks Respells := by
  intro c c' asked s s' h
  cases asked with
  | perform asked =>
    obtain ⟨reply, next⟩ := perform_respelled asked h
    exact ⟨heq_of_eq reply.symm, next⟩
  | probe hp =>
    obtain ⟨reply, next⟩ := probe_respelled hp h
    exact ⟨heq_of_eq reply.symm, next⟩
  | setOwner hp uid gid =>
    obtain ⟨reply, next⟩ := setOwner_respelled hp uid gid h
    exact ⟨heq_of_eq reply.symm, next⟩
  | same c idle =>
    obtain ⟨u, storage, storage', visits, visits', hs, hv, rfl, rfl⟩ := h.exists_withStorage
    rw [answer_withStorage idle, answer_withStorage idle]
    exact ⟨.rfl, respells_withStorage _ hs hv⟩

theorem planned_overlooks :
    answer.planned.Overlooks fun a b => a.1.Respells b.1 ∧ b.2 = a.2 := by
  intro c c' asked ⟨s, plan⟩ ⟨s', plan'⟩ ⟨h, same⟩
  obtain rfl : plan' = plan := same
  obtain ⟨reply, next⟩ := answer_overlooks c c' asked s s' h
  cases asked with
  | perform _ | probe _ | setOwner _ _ _ =>
    rw [planned_of_failure?_eq_none _ rfl, planned_of_failure?_eq_none _ rfl]
    exact ⟨reply, next, rfl⟩
  | same c idle =>
    unfold Machine.planned
    dsimp only
    rcases c.failure? with _ | fail <;> rcases plan' with _ | ⟨_ | f, rest⟩
    case some.cons.some => exact ⟨.rfl, h, rfl⟩
    all_goals exact ⟨reply, next, rfl⟩

end Station

structure Errand.Respells (e e' : Errand) : Prop where
  thread : e'.thread = e.thread
  envelope : e'.envelope = e.envelope
  plan : e'.plan = e.plan
  request : e.request.Respells e'.request

structure Process.Respells (a b : Process) : Prop where
  threads : b.threads = a.threads
  site : a.site.Respells b.site

namespace Process

variable {a b : Process} {e e' : Errand} {errands errands' : List Errand}

theorem Respells.refl (p : Process) : p.Respells p :=
  ⟨rfl, .refl _⟩

theorem Respells.start (h : a.Respells b) (he : e.Respells e') :
    (a.start e).1.Respells (b.start e').1 ∧ (b.start e').2 = (a.start e).2 :=
  ⟨⟨by simp only [Process.start, h.threads, he.thread], h.site⟩, he.plan⟩

/-- An errand in two spellings comes to the same, and leaves processes that are the same up to
spelling. -/
theorem Respells.serve (h : a.Respells b) (he : e.Respells e') (g : Gateway) :
    (b.serve g e').1.outcome = (a.serve g e).1.outcome ∧
      (a.serve g e).2.Respells (b.serve g e').2 := by
  have asked : (g.handle e.envelope e.request).Respells Eq (g.handle e'.envelope e'.request) := by
    rw [he.envelope]
    exact g.handle_respelled he.request e.envelope
  obtain ⟨outcome, station, -⟩ := asked.run Station.planned_overlooks (h.start he)
  refine ⟨outcome.eq, funext fun n => ?_, station.site⟩
  by_cases own : n = e.thread
  · have own' : n = e'.thread := own.trans he.thread.symm
    rw [own, threads_serve_self, ← own, own', threads_serve_self]
    exact station.thread
  · have other' : n ≠ e'.thread := fun eq => own (eq.trans he.thread)
    rw [threads_serve_of_ne own, threads_serve_of_ne other', h.threads]

theorem Respells.serveAll (h : a.Respells b) (g : Gateway)
    (he : List.Forall₂ Errand.Respells errands errands') :
    (b.serveAll g errands').map (·.outcome) = (a.serveAll g errands).map (·.outcome) ∧
      (a.afterAll g errands).Respells (b.afterAll g errands') := by
  induction he generalizing a b with
  | nil => exact ⟨rfl, h⟩
  | cons first _ ih =>
    obtain ⟨outcome, next⟩ := h.serve first g
    obtain ⟨outcomes, last⟩ := ih next
    simp only [Process.serveAll, List.map_cons, outcome, outcomes]
    exact ⟨trivial, last⟩

/-- How clients spell paths does not matter. Errands that differ only in slashes that are repeated or
at the end come to the same, on any threads, with any settings and with any calls failing, and leave
trees that are equal node for node. For two spellings of a path the search ends with the same finding
or in the same failure, but for the spelling of the path that it names, and a mount comes to the same
host path. -/
theorem served_in_any_spelling (p : Process) (g : Gateway)
    (spelled : List.Forall₂ Errand.Respells errands errands') {path path' : Path}
    (same : path.Respells path') :
    (p.serveAll g errands').map (·.outcome) = (p.serveAll g errands).map (·.outcome) ∧
    (p.afterAll g errands).Respells (p.afterAll g errands') ∧
    (∀ t, (p.afterAll g errands).site.storage = .tree t →
      ∃ t', (p.afterAll g errands').site.storage = .tree t' ∧
        List.Forall₂ (fun entry entry' => entry.1.same entry'.1 ∧ entry'.2 = entry.2)
          t.nodes t'.nodes ∧
        ∀ a b, a.same b → t'.node? b = t.node? a) ∧
    (∀ s user primary,
      ((GroupSearch.run user primary path).run.run Station.answer.planned s).1.Accord
        (Accord GroupSearchError.Respells GroupMatch.Respells)
        ((GroupSearch.run user primary path').run.run Station.answer.planned s).1) ∧
    ∀ m : Mount, m.resolve path' = m.resolve path := by
  obtain ⟨outcomes, after⟩ := (Respells.refl p).serveAll g spelled
  refine ⟨outcomes, after, fun t eq => ?_, fun s user primary => ?_, Mount.resolve_respelled same⟩
  · obtain ⟨t', eq', trees⟩ := after.site.storage.exists_tree eq
    exact ⟨t', eq', trees.nodes.same, fun a b hab => trees.node? hab⟩
  · have alike : s.1.Respells s.1 ∧ s.2 = s.2 := ⟨.refl s.1, rfl⟩
    exact ((GroupSearch.run_respelled user primary same).run Station.planned_overlooks alike).1

/-- The node is made under a path with further slashes, and looked at under another one. -/
theorem served_in_any_spelling_creation :
    let p : Process := ⟨fun _ => {}, sharedSite⟩
    let path := Path.ofString "/data/out"
    let path' := Path.ofString "//data///out/"
    let creation' := { creation with request := .create path' 0o640 }
    let lookup' := { lookup with request := .stat (.ofString "/data/out//"), envelope := none }
    let errands := [creation, { lookup with envelope := none }]
    let errands' := [creation', lookup']
    (List.Forall₂ Errand.Respells errands errands' ∧ path.Respells path') ∧
    (p.serveAll ⟨{}⟩ errands').map (·.outcome) = (p.serveAll ⟨{}⟩ errands).map (·.outcome) ∧
    (p.serveAll ⟨{}⟩ errands).map (·.outcome) =
      [.finished .ok, .finished (.attr ⟨Mode.regular ||| 0o640, 1001, 900, 0⟩)] ∧
    Mount.resolve ⟨.ofString "/srv"⟩ path' = Mount.resolve ⟨.ofString "/srv"⟩ path := by
  intro p path path' creation' lookup' errands errands'
  have same : path.Respells path' := ⟨by decide +kernel, by decide +kernel⟩
  have trailing : path.Respells (.ofString "/data/out//") := ⟨by decide +kernel, by decide +kernel⟩
  have spelled : List.Forall₂ Errand.Respells errands errands' :=
    .cons ⟨rfl, rfl, rfl, .create _ same⟩ (.cons ⟨rfl, rfl, rfl, .stat trailing⟩ .nil)
  obtain ⟨outcomes, -, -, -, mounted⟩ := served_in_any_spelling p ⟨{}⟩ spelled same
  exact ⟨⟨spelled, same⟩, outcomes, by decide +kernel, mounted _⟩

end Process

end Impersonation
