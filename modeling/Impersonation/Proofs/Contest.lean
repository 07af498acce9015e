import Impersonation.Proofs.Creation
import Impersonation.Proofs.Pursuit
import Impersonation.Proofs.Shift

namespace Impersonation

open Program

namespace Tree

variable {t : Tree} {who : Ids} {p : Path} {r : Request}

/-- A request to make a node fails and changes nothing, or makes it where there was none. -/
theorem perform_create_cases (creates : r.createsNode) (t : Tree) (who : Ids) :
    (∃ f, t.perform who r = (.finished (.ofFault f), t)) ∨
      ∃ next, t.perform who r = (.finished .ok, next) ∧ t.find? r.path = none ∧
        (next.find? r.path).isSome := by
  obtain ⟨⟨kind, mode⟩, creation⟩ : ∃ made, r.creation? = some made := by
    cases r with
    | mkdir p mode | create p mode => exact ⟨_, rfl⟩
    | _ => cases creates
  rw [perform_creation who creation]
  cases made : t.make who r.path kind mode with
  | error f => exact .inl ⟨f, rfl⟩
  | ok next =>
    obtain ⟨above, holder, makes⟩ := make_eq_ok made
    refine .inr ⟨next, rfl, makes.absent, ?_⟩
    rw [makes.next_eq, find?_put]
    rfl

theorem isSome_leave_chown (there : (t.find? p).isSome) (who : Ids) (uid gid : Option UInt32) :
    ((t.leave (t.chown who p uid gid)).find? p).isSome := by
  cases changed : t.chown who p uid gid with
  | error f => exact there
  | ok next =>
    obtain ⟨_, -, h⟩ := bind_eq_ok changed
    obtain ⟨n, -, h⟩ := bind_eq_ok h
    split at h
    next => cases h
    next =>
      cases h
      simp [leave, find?_put]

theorem take_create_finished (creates : r.createsNode) (t : Tree) (turn : Turn) :
    ∃ y, (t.take turn r).1 = .finished y ∧ (y.isOk → y = .ok) := by
  rcases perform_create_cases creates t turn.who with ⟨f, failed⟩ | ⟨next, made, -⟩
  · exact ⟨_, congrArg Prod.fst (take_of_finished failed), fun h => by cases h⟩
  · exact ⟨_, congrArg Prod.fst (take_of_finished made), fun _ => rfl⟩

/-- Where a node was made, and what it is. -/
theorem Created.node_eq {i : Identity} {kind mode : UInt32} {above : Path} {holder : Node}
    {next : Tree} (created : Created t i p kind mode above holder next) :
    p.parent? = some above ∧ t.find? above = some holder ∧
      next.node? p = some (newNode i.ids holder.stat kind mode) := by
  have place : p.parent? = some above ∧ t.find? above = some holder ∧ t.stuck = false := by
    rcases created.made with ⟨_, makes⟩ | ⟨-, -, _, makes⟩ <;>
      exact ⟨makes.parent, makes.found, makes.stuck⟩
  obtain ⟨parent, held, free⟩ := place
  refine ⟨parent, held, ?_⟩
  rw [node?, created.sameBut.stuck, free]
  exact created.node

end Tree

namespace Shift

variable {site : Site} {t now : Tree} {path : Path} {winner : Option Nat} {s : Shift} {n : Nat}
  {task : Task} {o : Outcome Response}

/-- Requests that are to make a node at a path are being served. None of them has made it and the
tree is the first one, or it was made by one of them. -/
structure Racing (site : Site) (t : Tree) (path : Path) (winner : Option Nat) (now : Tree)
    (s : Shift) : Prop where
  settled : s.process.site.settled = site.settled
  storage : s.process.site.storage = .tree now
  unmade : winner = none → now = t
  made : ∀ n, winner = some n → n < s.tasks.length ∧ (now.find? path).isSome
  pursues : ∀ (n : Nat) (task : Task), s.tasks[n]? = some task → ∃ r : Request, r.createsNode ∧
    r.path = path ∧ task.rest.Pursues r Response.isOk (decide (winner = some n))

/-- A task has made a call, and by it the node or not. -/
theorem Racing.advance (racing : Racing site t path winner now s) (here : s.tasks[n]? = some task)
    {after : Station × Plan} {rest : Program Response} {winner' : Option Nat} {next : Tree}
    (bears : Station.Bears site next after)
    (others : ∀ i, i ≠ n → (winner' = some i ↔ winner = some i))
    (unmade : winner' = none → next = t) (made : ∀ i, winner' = some i → (next.find? path).isSome)
    {r : Request} (creates : r.createsNode) (at_path : r.path = path)
    (pursues : rest.Pursues r Response.isOk (decide (winner' = some n))) :
    Racing site t path winner' next (s.advance n task after rest) where
  settled := bears.1
  storage := bears.2
  unmade := unmade
  made i h := by
    refine ⟨?_, made i h⟩
    change i < (s.tasks.set n _).length
    rw [List.length_set]
    by_cases own : i = n
    · rw [own]
      exact (List.getElem?_eq_some_iff.mp here).1
    · exact (racing.made i ((others i own).mp h)).1
  pursues i other there := by
    by_cases own : i = n
    · subst own
      rw [tasks_advance_self here] at there
      cases there
      exact ⟨r, creates, at_path, pursues⟩
    · rw [tasks_advance_of_ne (Ne.symm own)] at there
      obtain ⟨r', creates', at_path', pursues'⟩ := racing.pursues i other there
      refine ⟨r', creates', at_path', ?_⟩
      simp only [others i own]
      exact pursues'

/-- A call after which nobody else has made the node, and after which it is there if it was before. -/
theorem Racing.proceed (racing : Racing site t path winner now s) (here : s.tasks[n]? = some task)
    {after : Station × Plan} {rest : Program Response} {next : Tree}
    (bears : Station.Bears site next after) (changed : winner ≠ some n → next = now)
    (kept : (now.find? path).isSome → (next.find? path).isSome)
    {r : Request} (creates : r.createsNode) (at_path : r.path = path)
    (pursues : rest.Pursues r Response.isOk (decide (winner = some n))) :
    Racing site t path winner next (s.advance n task after rest) := by
  refine racing.advance here bears (fun _ _ => Iff.rfl) (fun none => ?_)
    (fun i h => kept (racing.made i h).2) creates at_path pursues
  rw [changed (by simp [none]), racing.unmade none]

/-- Had the node been made before it would be in the way. -/
theorem Racing.nobody_before (racing : Racing site t path winner now s)
    (absent : now.find? path = none) : winner = none := by
  cases winner with
  | none => rfl
  | some i =>
    have there := (racing.made i rfl).2
    rw [absent] at there
    cases there

theorem Racing.win (racing : Racing site t path winner now s) (here : s.tasks[n]? = some task)
    {after : Station × Plan} {rest : Program Response} {next : Tree}
    (bears : Station.Bears site next after) (absent : now.find? path = none)
    (there : (next.find? path).isSome) {r : Request} (creates : r.createsNode)
    (at_path : r.path = path) (pursues : rest.Pursues r Response.isOk true) :
    Racing site t path (some n) next (s.advance n task after rest) := by
  refine racing.advance here bears (fun i other => ?_) (by simp) (fun _ _ => there) creates at_path
    (by simpa using pursues)
  rw [racing.nobody_before absent]
  simp [Ne.symm other]

/-- In a turn the node may be made, if it was not made before; and unless the task whose turn it is
has made it, the storage stays as it is. -/
theorem Racing.turn (racing : Racing site t path winner now s)
    (simulated : site.credentials = .simulated) (n : Nat) :
    ∃ winner' next, Racing site t path winner' next (s.turn n) ∧
      (∀ i, winner = some i → winner' = some i) ∧ (winner' ≠ some n → next = now) := by
  rcases s.turn_cases n with same | ⟨task, c, k, here, rest, after⟩
  · rw [same]
    exact ⟨winner, now, racing, fun _ h => h, fun _ => rfl⟩
  obtain ⟨r, creates, at_path, pursues⟩ := racing.pursues n task here
  rw [rest] at pursues
  obtain ⟨fits, goes_on⟩ := pursues
  have later := goes_on (Station.answer.planned c (s.stand task)).1
  rw [after]
  have onTree := Station.onTree simulated
  have bears : Station.Bears site now (s.stand task) := ⟨racing.settled, racing.storage⟩
  by_cases harmless : c.isHarmless
  · have still : Station.Bears site now (Station.answer.planned c (s.stand task)).2 := by
      cases c with
      | probe p => exact (onTree.probe p bears).2
      | perform _ | setOwner _ _ _ => cases harmless
      | _ => exact onTree.idle rfl bears
    rw [Call.succeeds_of_isHarmless harmless] at later
    exact ⟨winner, now, racing.proceed here still (fun _ => rfl) id creates at_path later,
      fun _ h => h, fun _ => rfl⟩
  cases c with
  | perform r' =>
    obtain ⟨rfl, unwon⟩ := fits
    obtain ⟨reply, bears'⟩ := onTree.perform r' bears
    rcases Tree.perform_create_cases creates now
        ((Station.view.ofFst Plan).standing (s.stand task)).ids with
      ⟨f, failed⟩ | ⟨next, made, absent, there⟩
    · rw [failed] at reply bears'
      have unsuccessful : Call.succeeds (decide (winner = some n)) (.perform r')
          (Station.answer.planned (.perform r') (s.stand task)).1 = decide (winner = some n) := by
        rw [unwon]
        exact congrArg Outcome.isOk reply
      rw [unsuccessful] at later
      exact ⟨winner, now, racing.proceed here bears' (fun _ => rfl) id creates at_path later,
        fun _ h => h, fun _ => rfl⟩
    · rw [made] at reply bears'
      rw [at_path] at absent there
      have successful : Call.succeeds (decide (winner = some n)) (.perform r')
          (Station.answer.planned (.perform r') (s.stand task)).1 = true :=
        congrArg Outcome.isOk reply
      rw [successful] at later
      exact ⟨some n, next, racing.win here bears' absent there creates at_path later,
        by simp [racing.nobody_before absent], by simp⟩
  | setOwner p uid gid =>
    obtain ⟨rfl, won⟩ := fits
    -- Only the task that has made the node hands it back.
    have mine : winner = some n := of_decide_eq_true won
    refine ⟨winner, _, racing.proceed here (onTree.setOwner r.path uid gid bears).2
      (fun other => absurd mine other) (fun there => ?_) creates at_path later, fun _ h => h,
      fun other => absurd mine other⟩
    rw [← at_path] at there ⊢
    exact Tree.isSome_leave_chown there _ uid gid
  | _ => exact absurd rfl harmless

/-- Under any schedule the node is made by one task at most, and no other one changes the storage. -/
theorem Racing.run (racing : Racing site t path winner now s)
    (simulated : site.credentials = .simulated) (schedule : List Nat) :
    ∃ winner' next, Racing site t path winner' next (s.run schedule) ∧
      (∀ i, winner = some i → winner' = some i) ∧
      ∀ n, winner' = some n → s.Undisturbed n schedule := by
  induction schedule generalizing s winner now with
  | nil => exact ⟨winner, now, racing, fun _ h => h, fun _ _ => trivial⟩
  | cons i rest ih =>
    obtain ⟨winner₁, next₁, racing₁, kept₁, same₁⟩ := racing.turn simulated i
    obtain ⟨winner₂, next₂, racing₂, kept₂, spared⟩ := ih racing₁
    refine ⟨winner₂, next₂, racing₂, fun j h => kept₂ j (kept₁ j h), fun n won => ?_⟩
    refine ⟨fun other => ?_, spared n won⟩
    have lost : winner₁ ≠ some i := by
      intro h
      have both := (kept₂ i h).symm.trans won
      exact other (Option.some.inj both)
    rw [racing₁.storage, same₁ lost, racing.storage]

/-- A task that has its answer was told that it made the node if, and only if, it did. -/
theorem Racing.isOk_iff (racing : Racing site t path winner now s) {y : Response}
    (answered : s.outcome? n = some (.finished y)) : y.isOk ↔ winner = some n := by
  obtain ⟨task, here, came⟩ := Option.bind_eq_some_iff.mp answered
  obtain ⟨r, -, -, pursues⟩ := racing.pursues n task here
  cases rest : task.rest with
  | done a =>
    rw [rest] at came pursues
    cases came
    have told : y.isOk = decide (winner = some n) := pursues
    simp [told]
  | crash reason =>
    rw [rest] at came
    cases came
  | call c k =>
    rw [rest] at came
    cases came

variable {p : Process} {errands : List Errand} {schedule : List Nat}

theorem Racing.of_errands (g : Gateway) (storage : p.site.storage = .tree t)
    (creations : ∀ e ∈ errands, e.request.createsNode ∧ e.request.path = path) :
    Racing p.site t path none t (ofErrands g p errands) where
  settled := rfl
  storage := storage
  unmade _ := rfl
  made _ h := by cases h
  pursues n task here := by
    have taken : (errands[n]?).map (fun e =>
        (⟨e.thread, e.plan, g.handle e.envelope e.request⟩ : Task)) = some task := by
      rw [← List.getElem?_map]
      exact here
    obtain ⟨e, sent, rfl⟩ := Option.map_eq_some_iff.mp taken
    obtain ⟨creates, at_path⟩ := creations e (List.mem_of_getElem? sent)
    refine ⟨g.adjust e.request, ?_, ?_, g.handle_pursues e.envelope e.request⟩
    · rw [← creates]
      cases e.request <;> rfl
    · rw [g.adjust_path, at_path]

/-- A request that is served among others, of which none changes the storage, is served on the tree as
if there were no others. -/
theorem served_among (g : Gateway) (simulated : p.site.credentials = .simulated)
    (storage : p.site.storage = .tree t) (distinct : (errands.map (·.thread)).Nodup) {errand : Errand}
    (sent : errands[n]? = some errand)
    (undisturbed : (ofErrands g p errands).Undisturbed n schedule)
    (finished : ((ofErrands g p errands).run schedule).outcome? n = some o) :
    ∃ next s calls, ((ofErrands g p errands).run schedule).process.site.storage = .tree next ∧
      ServedOn Station.amid Station.amidView p.site g errand.envelope (g.adjust errand.request) t s
        calls o next := by
  have here : (ofErrands g p errands).tasks[n]? =
      some ⟨errand.thread, errand.plan, g.handle errand.envelope errand.request⟩ := by
    simp [ofErrands, sent]
  have distinct' : ((ofErrands g p errands).tasks.map (·.thread)).Nodup := by
    simpa [ofErrands, Function.comp_def] using distinct
  obtain ⟨first, later, calls, last, quiet, all, run, site⟩ :=
    run_among distinct' here undisturbed finished
  have start : Station.Bears p.site t ((ofErrands g p errands).stand
      ⟨errand.thread, errand.plan, g.handle errand.envelope errand.request⟩) := ⟨rfl, storage⟩
  obtain ⟨next, ⟨⟨-, after⟩, -⟩, served⟩ := Gateway.handle_onTree Station.amid_honest
    (Station.amid_onTree simulated) run ⟨quiet.bears start, all⟩
  rw [site] at after
  exact ⟨next, _, calls, after, served⟩

/-- The request by which the node was made is told so once it has its answer, and it was served as if
there were no others. -/
theorem winner_served (g : Gateway) (simulated : p.site.credentials = .simulated)
    (storage : p.site.storage = .tree t) (distinct : (errands.map (·.thread)).Nodup)
    (creations : ∀ e ∈ errands, e.request.createsNode ∧ e.request.path = path)
    (racing : Racing p.site t path (some n) now ((ofErrands g p errands).run schedule))
    (undisturbed : (ofErrands g p errands).Undisturbed n schedule)
    (finished : (((ofErrands g p errands).run schedule).outcome? n).isSome) :
    ((ofErrands g p errands).run schedule).outcome? n = some (.finished .ok) ∧
      ∃ errand s calls, errands[n]? = some errand ∧
        ServedOn Station.amid Station.amidView p.site g errand.envelope (g.adjust errand.request) t s
          calls (.finished .ok) now := by
  have bound : n < errands.length := by
    rw [← length_run_ofErrands g p errands schedule]
    exact (racing.made n rfl).1
  obtain ⟨errand, sent⟩ : ∃ errand, errands[n]? = some errand := ⟨_, List.getElem?_eq_getElem bound⟩
  obtain ⟨o, came⟩ := Option.isSome_iff_exists.mp finished
  obtain ⟨next, s, calls, after, served⟩ :=
    served_among g simulated storage distinct sent undisturbed came
  obtain rfl : now = next := Storage.tree.inj (racing.storage.symm.trans after)
  have creates : (g.adjust errand.request).createsNode := by
    rw [← (creations errand (List.mem_of_getElem? sent)).1]
    cases errand.request <;> rfl
  have well : o = .finished .ok := by
    cases served with
    | refused why =>
      have told := (racing.isOk_iff came).mpr rfl
      cases told
    | @took governs turn chosen nearest called _ _ taken =>
      obtain ⟨y, answer, ok⟩ := Tree.take_create_finished creates t turn
      rw [taken] at answer
      subst answer
      rw [ok ((racing.isOk_iff came).mpr rfl)]
  subst well
  exact ⟨came, errand, s, calls, sent, served⟩

/-- Requests to make a node at one path are served at the same time, each on a thread of its own, with
any calls for ids and privileges failing. However their calls follow one another, one of them at most
is told that the node was made. When all are finished and one was told so, the node belongs to the user
of that request and is of the kind asked for; its group is that of the directory which holds it if that
hands its group down, and else the user's primary group. If none was told so there is no node, and the
tree is what it was. -/
theorem one_creation (g : Gateway) (simulated : p.site.credentials = .simulated)
    (storage : p.site.storage = .tree t) (statFailures : t.statFailures = [])
    (absent : t.find? path = none) (distinct : (errands.map (·.thread)).Nodup)
    (creations : ∀ e ∈ errands, e.request.createsNode ∧ e.request.path = path)
    (schedule : List Nat) :
    let last := (ofErrands g p errands).run schedule
    (∀ i j, last.outcome? i = some (.finished .ok) → last.outcome? j = some (.finished .ok) →
      i = j) ∧
    ((∀ i < errands.length, (last.outcome? i).isSome) →
      ∃ next, last.process.site.storage = .tree next ∧
        (∀ i errand envelope user kind mode, errands[i]? = some errand →
          errand.envelope = some envelope → envelope.principal = .ok (.user user) →
          (g.adjust errand.request).creation? = some (kind, mode) →
          last.outcome? i = some (.finished .ok) →
          ∃ entry above holder node, p.site.findUser user = .ok (some entry) ∧
            path.parent? = some above ∧ t.find? above = some holder ∧
            next.node? path = some node ∧ node.stat.uid = entry.uid ∧
            node.stat.gid = (if holder.stat.isSetgid then holder.stat.gid else entry.gid) ∧
            node.stat.mode &&& Mode.kindMask = kind ∧
            node.stat.mode &&& Mode.permissions = mode &&& Mode.permissions |||
              (if kind = Mode.directory ∧ holder.stat.isSetgid then Mode.setgid else 0)) ∧
        ((∀ i, last.outcome? i ≠ some (.finished .ok)) → next.node? path = none ∧ next = t)) := by
  intro last
  obtain ⟨winner, next, racing, -, spared⟩ :=
    (Racing.of_errands g storage creations).run simulated schedule
  have won {i : Nat} (answered : last.outcome? i = some (.finished .ok)) : winner = some i :=
    (racing.isOk_iff answered).mp rfl
  refine ⟨fun i j hi hj => Option.some.inj ((won hi).symm.trans (won hj)), fun finished => ?_⟩
  refine ⟨next, racing.storage, ?_, fun nobody => ?_⟩
  · intro i errand envelope user kind mode sent enveloped named creates answered
    obtain rfl := won answered
    obtain ⟨-, errand', s, calls, sent', served⟩ := winner_served g simulated storage distinct
      creations racing (spared i rfl) (by simp [last, answered])
    obtain rfl : errand = errand' := Option.some.inj (sent.symm.trans sent')
    rw [enveloped] at served
    obtain ⟨owner, above, holder, known, created⟩ := served.created statFailures named creates
    rw [g.adjust_path, (creations errand (List.mem_of_getElem? sent)).2] at created
    obtain ⟨parent, held, node⟩ := created.node_eq
    have bits := Tree.newNode_bits owner.ids holder.stat mode (Request.kind_of_creation? creates)
    exact ⟨⟨owner.uid, owner.gid⟩, above, holder, _, (Site.identity?_listed known).1, parent, held,
      node, Tree.newNode_uid .., Tree.newNode_gid .., bits⟩
  · cases winner with
    | none =>
      obtain rfl := racing.unmade rfl
      exact ⟨by simp [Tree.node?, absent], rfl⟩
    | some n =>
      have bound : n < errands.length := by
        rw [← length_run_ofErrands g p errands schedule]
        exact (racing.made n rfl).1
      obtain ⟨answered, -⟩ := winner_served g simulated storage distinct creations racing
        (spared n rfl) (finished n bound)
      exact absurd answered (nobody n)

/-- The shared site with a second user who may write there. -/
def pairSite : Site :=
  { sharedSite with
    users := .directory ((Directory.add {} "alice" 1001 900 [800]).add "bob" 1002 901 [800]) }

def rival : Errand where
  thread := 4
  envelope := some ⟨some { protocol := "ztn", name := some "bob" }⟩
  request := .mkdir (.ofString "/data/out") 0o750
  plan := []

/-- The two take turns. Both are refused at first and find the group of the directory; the file is
made and handed back, and the directory comes too late. -/
theorem one_creation_pair :
    let p : Process := ⟨fun _ => {}, pairSite⟩
    let last := (ofErrands ⟨{}⟩ p [creation, rival]).run ((List.range 90).map (· % 2))
    (last.outcome? 0 = some (.finished .ok) ∧
      last.outcome? 1 = some (.finished (.error .fileExists))) ∧
    ∃ next node, last.process.site.storage = .tree next ∧
      next.node? (.ofString "/data/out") = some node ∧ node.stat.uid = 1001 ∧
      node.stat.gid = 900 ∧ node.stat.mode &&& Mode.kindMask = Mode.regular := by
  intro p last
  have first : last.outcome? 0 = some (.finished .ok) := by decide +kernel
  have second : last.outcome? 1 = some (.finished (.error .fileExists)) := by decide +kernel
  have storage : p.site.storage =
      .tree ((Tree.dir {} .root 0 0 0o755).dir (.ofString "/data") 0 800 0o770) := rfl
  have creations : ∀ e ∈ [creation, rival],
      e.request.createsNode ∧ e.request.path = .ofString "/data/out" := by
    simp [creation, rival, Request.createsNode, Request.path]
  have finished : ∀ i < [creation, rival].length, (last.outcome? i).isSome := by
    intro i bound
    have two : i < 2 := bound
    obtain rfl | rfl : i = 0 ∨ i = 1 := by omega
    · simp [first]
    · simp [second]
  have absent : ((Tree.dir {} .root 0 0 0o755).dir (.ofString "/data") 0 800 0o770).find?
      (.ofString "/data/out") = none := by decide +kernel
  obtain ⟨-, ended⟩ := one_creation ⟨{}⟩ rfl storage rfl absent (by decide) creations
    ((List.range 90).map (· % 2))
  obtain ⟨next, after, made, -⟩ := ended finished
  obtain ⟨entry, above, holder, node, found, parent, held, there, uid, gid, kind, -⟩ :=
    made 0 creation _ "alice" Mode.regular 0o640 rfl rfl rfl rfl first
  have entry_eq : entry = ⟨1001, 900⟩ := by
    have known : p.site.findUser "alice" = .ok (some ⟨1001, 900⟩) := rfl
    rw [known] at found
    simpa using found.symm
  have above_eq : above = .ofString "/data" := by
    have eq : (Path.ofString "/data/out").parent? = some (.ofString "/data") := by decide +kernel
    exact Option.some.inj (parent.symm.trans eq)
  subst entry_eq above_eq
  have plain : holder.stat.isSetgid = false := by
    have eq : ((Tree.dir {} .root 0 0 0o755).dir (.ofString "/data") 0 800 0o770).find?
        (.ofString "/data") = some (.ofStat (Mode.directory ||| 0o770) 0 800) := by decide +kernel
    obtain rfl := Option.some.inj (held.symm.trans eq)
    rfl
  rw [plain] at gid
  refine ⟨⟨first, second⟩, next, node, ?_, there, uid, gid, kind⟩
  simp only [last]
  exact after

end Shift

end Impersonation
