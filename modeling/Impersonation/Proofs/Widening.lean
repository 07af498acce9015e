import Impersonation.Proofs.Maker

namespace Impersonation

open Program

/-- A directory that knows a user as another one does, and lists at least the groups that it lists. -/
structure Directory.Widens (d d' : Directory) (user : String) : Prop where
  found : d'.find? user = d.find? user
  listed : ∀ primary, d.groupsOf user primary ⊆ d'.groupsOf user primary

theorem ledBy_subset {primary : UInt32} {gids more : List UInt32} (sub : gids ⊆ more) :
    ledBy primary gids ⊆ ledBy primary more := by
  intro gid mem
  rw [ledBy, List.mem_cons, List.mem_filter] at mem ⊢
  exact mem.imp id (And.imp_left fun h => sub h)

/-- The order in which the groups of a user are added has no say. -/
theorem Directory.widens_add (d : Directory) (user : String) (uid gid : UInt32)
    {further more : List UInt32} (sub : further ⊆ more) :
    (d.add user uid gid further).Widens (d.add user uid gid more) user where
  found := by simp [add, find?]
  listed primary := by
    have inner : ledBy gid further ⊆ ledBy gid more := ledBy_subset sub
    simpa [add, groupsOf] using ledBy_subset inner

namespace Tree

variable {t next : Tree} {i : Identity} {r : Request} {y : Response} {groups : List UInt32}

/-- A node can be given to a group of the user, whatever further groups there are. -/
theorem chown_groups {who : Ids} {gid : UInt32} (mem : gid ∈ who.groups) (mem' : gid ∈ groups)
    (t : Tree) (p : Path) :
    t.chown { who with groups } p none (some gid) = t.chown who p none (some gid) := by
  have allowed (s : FileStat) :
      mayChown { who with groups } s none (some gid) = mayChown who s none (some gid) := by
    simp [mayChown, mem, mem']
  simp only [chown, allowed]
  rfl

theorem handedBack_groups {turn : Turn} (mem : ∀ gid ∈ turn.handBack, gid ∈ turn.who.groups)
    (mem' : ∀ gid ∈ turn.handBack, gid ∈ groups) (t : Tree) (p : Path) :
    t.handedBack { turn with who := { turn.who with groups } } p = t.handedBack turn p := by
  unfold handedBack
  cases back : turn.handBack with
  | none => rfl
  | some gid =>
    dsimp only
    rw [chown_groups (mem gid back) (mem' gid back)]

/-- A turn comes to the same with other groups, if the one that a node is handed back to is among
them. -/
theorem take_groups (turn : Turn) (mem : ∀ gid ∈ turn.handBack, gid ∈ turn.who.groups)
    (mem' : ∀ gid ∈ turn.handBack, gid ∈ groups) (t : Tree) (r : Request) :
    t.take { turn with who := { turn.who with groups } } r = t.take turn r := by
  simp only [take, perform_groups, handedBack_groups mem mem']

/-- What a user succeeds in comes to the same if the user has more groups. The first turn may have
been chosen without the node that governs the path. -/
theorem take_userTurn_widened {retries : Bool} {governs governs' : Option FileStat}
    (primary : i.gid ∈ i.groups) (sub : i.groups ⊆ groups)
    (seen : governs = governs' ∨ governs = none)
    (taken : t.take (t.userTurn retries i governs r) r = (.finished y, next)) (ok : y.isOk) :
    t.take (t.userTurn retries { i with groups } governs' r) r = (.finished y, next) := by
  have alike : t.perform (Identity.ids { i with groups }) r = t.perform i.ids r :=
    t.perform_groups i.ids groups r
  by_cases denied : (t.perform i.ids r).1 = .finished .denied
  · have refuses : t.take ⟨i.ids, none⟩ r ≠ (.finished y, next) := by
      intro h
      rw [take_of_not_handBack] at h
      have answer := Outcome.finished.inj (denied.symm.trans (congrArg Prod.fst h))
      rw [← answer] at ok
      cases ok
    rcases t.userTurn_cases retries i governs r with own | further
    · rw [own] at taken
      exact absurd taken refuses
    · obtain ⟨s, governed, member, other, turn_eq⟩ := Identity.furtherTurn?_eq_some further
      obtain rfl : governs = governs' := by
        rcases seen with same | none
        · exact same
        · rw [none] at governed
          cases governed
      have again : retries = true := by
        cases retries with
        | true => rfl
        | false =>
          have own : t.userTurn false i governs r = ⟨i.ids, none⟩ := by simp [userTurn]
          rw [own] at taken
          exact absurd taken refuses
      subst again
      have chosen : t.userTurn true { i with groups } governs r =
          ⟨{ (i.withGid s.gid).ids with groups }, if s.isSetgid then none else some i.gid⟩ := by
        rw [userTurn_of_denied (by rw [alike, denied]), governed, Identity.furtherTurn?,
          if_pos ⟨sub member, other⟩]
        rfl
      have back : ∀ gid ∈ (if s.isSetgid then none else some i.gid : Option UInt32),
          gid = i.gid := by
        intro gid mem
        split at mem
        · cases mem
        · exact (Option.some.inj mem).symm
      rw [turn_eq] at taken
      rw [chosen, ← taken]
      apply take_groups ⟨(i.withGid s.gid).ids, if s.isSetgid then none else some i.gid⟩
      · intro gid mem
        rw [back gid mem]
        exact primary
      · intro gid mem
        rw [back gid mem]
        exact sub primary
  · have own : t.userTurn retries i governs r = ⟨i.ids, none⟩ := userTurn_of_not_denied denied
    have own' : t.userTurn retries { i with groups } governs' r =
        ⟨Identity.ids { i with groups }, none⟩ :=
      userTurn_of_not_denied (by rw [alike]; exact denied)
    rw [own, take_of_not_handBack] at taken
    rw [own', take_of_not_handBack, alike, taken]

end Tree

def Site.withUsers (site : Site) (d : Directory) : Site :=
  { site with users := .directory d }

/-- A site with a wider directory knows the user with more groups, and the same otherwise. -/
theorem Site.identity?_widened {site : Site} {c : Config} {d d' : Directory} {user : String}
    (widens : d.Widens d' user) {i : Identity}
    (known : (site.withUsers d).identity? c user = some i) :
    ∃ groups, (site.withUsers d').identity? c user = some { i with groups } ∧ i.groups ⊆ groups := by
  have found : (site.withUsers d').findUser user = (site.withUsers d).findUser user := by
    simp [findUser, Station.findUser, withUsers, widens.found]
  have listed (primary : UInt32) {groups : List UInt32}
      (h : (site.withUsers d).listGroups user primary = .ok groups) :
      ∃ more, (site.withUsers d').listGroups user primary = .ok more ∧ groups ⊆ more := by
    unfold listGroups Station.listGroups at h ⊢
    dsimp only [withUsers] at h ⊢
    split at h
    next => cases h
    next =>
      cases h
      exact ⟨_, rfl, widens.listed primary⟩
  unfold identity? at known ⊢
  rw [found]
  split at known
  next entry eq =>
    split at known
    next => cases known
    next allowed =>
      split at known
      next groups lists =>
        cases known
        obtain ⟨more, lists', sub⟩ := listed entry.gid lists
        refine ⟨more, ?_, sub⟩
        simp only [if_neg allowed, lists']
      next => cases known
  next => cases known

theorem Gateway.serveOn_user {g : Gateway} {site : Site} {envelope : Envelope} {user : String}
    {i : Identity} (named : envelope.principal = .ok (.user user))
    (known : site.identity? g.config user = some i) (base : Ids)
    (governs : Tree → Path → Option FileStat) (t : Tree) (request : Request) :
    let r := g.adjust request
    g.serveOn site base governs t (some envelope) request =
      t.take (t.userTurn g.config.groupRetry i (governs t r.path) r) r := by
  simp [serveOn, turn?, named, known]

def Process.withUsers (p : Process) (d : Directory) : Process :=
  { p with site := p.site.withUsers d }

/-- What a user succeeds in with one directory comes to the same with a wider one, if no call for ids
or privileges fails there. -/
theorem Process.serve_widened {p : Process} {g : Gateway} {t : Tree} {errand : Errand}
    {envelope : Envelope} {user : String} {d d' : Directory} {y : Response}
    (simulated : p.site.credentials = .simulated) (storage : p.site.storage = .tree t)
    (widens : d.Widens d' user) (sent : errand.envelope = some envelope)
    (named : envelope.principal = .ok (.user user))
    (fine : ∀ e ∈ ((p.withUsers d').serve g errand).1.calls, ¬ e.Fails Station.answer.planned)
    (answered : ((p.withUsers d).serve g errand).1.outcome = .finished y) (ok : y.isOk) :
    ((p.withUsers d').serve g errand).1.outcome = .finished y ∧
      ∃ next, ((p.withUsers d).serve g errand).2.site.storage = .tree next ∧
        ((p.withUsers d').serve g errand).2.site.storage = .tree next := by
  have unmarked : (p.threads errand.thread).flags = {} := by
    apply unmarked_of_not_denied (p := p.withUsers d) (g := g) sent named
    rw [answered]
    rintro ⟨⟩
    cases ok
  obtain ⟨next, after, served⟩ := (p.withUsers d).serve_onTree simulated storage g errand
  obtain ⟨next', after', served'⟩ := (p.withUsers d').serve_onTree simulated storage g errand
  have unhindered : ¬ Hindered Station.answer.planned (Station.view.ofFst Plan)
      ((p.withUsers d').start errand) ((p.withUsers d').serve g errand).1.calls := by
    rintro (marked | ⟨e, he, failed⟩)
    · exact marked unmarked
    · exact fine e he failed
  have eq := Gateway.serveOn_of_unhindered served' unhindered
  rw [answered] at served
  cases served with
  | refused => cases ok
  | @took governs turn chosen nearest called _ _ taken =>
    simp only [Gateway.turn?, sent, named, Option.map_eq_some_iff] at chosen
    obtain ⟨i, known, rfl⟩ := chosen
    have primary : i.gid ∈ i.groups := Site.primary_mem (Site.identity?_listed known).2
    obtain ⟨groups, known', sub⟩ : ∃ groups, (p.withUsers d').site.identity? g.config user =
        some { i with groups } ∧ i.groups ⊆ groups := Site.identity?_widened widens known
    have taken' := Tree.take_userTurn_widened primary sub (nearest.imp id (·.1)) taken ok
    rw [sent, Gateway.serveOn_user named known'] at eq
    obtain ⟨outcome, tree⟩ := Prod.mk.inj (eq.trans taken')
    rw [tree] at after'
    exact ⟨outcome, next, after, after'⟩

namespace Gateway

def withRetry (g : Gateway) (on : Bool) : Gateway :=
  ⟨{ g.config with groupRetry := on }⟩

def Asks (r : Request) (c : Call) : Prop :=
  c.isStorage = false ∨ c = .perform r

theorem asks_of_idle {α : Type} {x : Program α} (r : Request) (h : x.Only (·.isStorage = false) False) :
    x.Only (Asks r) True :=
  h.mono (fun _ => .inl) fun crash => crash.elim

theorem asks_perform (r : Request) : (perform r).Only (Asks r) True :=
  only_perform (.inr rfl) trivial

theorem handleInternal_asks (g : Gateway) (r : Request) : (g.handleInternal r).Only (Asks r) True := by
  unfold handleInternal
  split
  · refine (Only.within (asks_of_idle r RootScope.enter_only)
      (fun scope => asks_of_idle r (RootScope.leave_only scope)) (asks_perform r)).bind fun response => ?_
    cases response <;> exact only_pure _
  · exact asks_perform r

theorem handleAnonymous_asks (r : Request) : (handleAnonymous r).Only (Asks r) True := by
  refine (Only.within (asks_of_idle r IdentityScope.enterAnonymous_only)
    (fun scope => asks_of_idle r (IdentityScope.leave_only scope)) (asks_perform r)).bind
    fun response => ?_
  cases response <;> exact only_pure _

theorem handleUser_asks {g : Gateway} (once : g.config.groupRetry = false) (user : String)
    (r : Request) : (g.handleUser user r).Only (Asks r) True := by
  have quiet := (Identity.resolve_only g.config user).mono
    (fun _ => Call.not_isStorage_of_isQuiet) id
  refine (asks_of_idle r quiet).bind fun i => ?_
  cases i with
  | error e => exact only_pure _
  | ok i =>
    refine (Only.within (asks_of_idle r (IdentityScope.enter_only i))
      (fun scope => asks_of_idle r (IdentityScope.leave_only scope)) (asks_perform r)).bind
      fun response => ?_
    cases response with
    | error e => exact only_pure _
    | ok response =>
      dsimp only
      rw [if_neg (by simp [once])]
      exact only_pure _

/-- A gateway that tries nothing again asks the storage for the request, and for nothing else. -/
theorem handle_asks {g : Gateway} (once : g.config.groupRetry = false) (e : Option Envelope)
    (request : Request) : (g.handle e request).Only (Asks (g.adjust request)) True := by
  unfold handle
  cases e with
  | none => exact g.handleInternal_asks _
  | some e =>
    dsimp only
    cases e.principal with
    | error refusal => exact only_pure _
    | ok principal =>
      cases principal with
      | anonymous => exact handleAnonymous_asks _
      | user name => exact handleUser_asks once name _

variable {σ : Type} {m : Machine σ} {g : Gateway} {user : String} {r : Request} {s t : σ}
  {calls : List (Moment σ)} {o : Outcome Response}

/-- A run that is not denied is the same run if there is a further attempt for those that are. -/
theorem handleUser_retried (h : ((g.withRetry false).handleUser user r).Runs m s calls o t)
    (other : o ≠ .finished .denied) :
    ((g.withRetry true).handleUser user r).Runs m s calls o t := by
  rcases runs_bind.mp h with ⟨resolved, s₁, front, back, resolving, rest, rfl⟩ |
    ⟨reason, resolving, rfl⟩
  · refine runs_bind.mpr (.inl ⟨resolved, s₁, front, back, resolving, ?_, rfl⟩)
    cases resolved with
    | error e => exact rest
    | ok i =>
      rcases runs_bind.mp rest with ⟨answer, s₂, mid, last, attempt, final, rfl⟩ |
        ⟨reason, attempt, rfl⟩
      · refine runs_bind.mpr (.inl ⟨answer, s₂, mid, last, attempt, ?_, rfl⟩)
        cases answer with
        | error e => exact final
        | ok response =>
          dsimp only at final ⊢
          rw [if_neg (by simp [withRetry])] at final
          obtain ⟨rfl, rfl, rfl⟩ := runs_done.mp final
          rw [if_neg fun again => other (congrArg Outcome.finished again.1)]
          exact runs_done.mpr ⟨rfl, rfl, rfl⟩
      · exact runs_bind.mpr (.inr ⟨reason, attempt, rfl⟩)
  · exact runs_bind.mpr (.inr ⟨reason, resolving, rfl⟩)

theorem handle_retried {e : Option Envelope} {request : Request}
    (h : ((g.withRetry false).handle e request).Runs m s calls o t)
    (other : o ≠ .finished .denied) : ((g.withRetry true).handle e request).Runs m s calls o t := by
  have adjusted : (g.withRetry true).adjust request = (g.withRetry false).adjust request := by
    cases request <;> rfl
  unfold handle at h ⊢
  rw [adjusted]
  cases e with
  | none => exact h
  | some e =>
    dsimp only at h ⊢
    cases he : e.principal with
    | error refusal =>
      rw [he] at h
      exact h
    | ok principal =>
      rw [he] at h
      cases principal with
      | anonymous => exact h
      | user name => exact handleUser_retried h other

end Gateway

/-- More groups never hurt, and trying again replaces refusals only. What a user succeeds in with one
directory comes to the same, in response and tree, with a directory that differs in listing further
groups, if no call for ids or privileges fails there. And whatever the machine answers, a run that
does not come to a refusal without the further attempt is the same run with it, call by call, and
looks for no group. -/
theorem Process.groups_never_hurt (g : Gateway) :
    (∀ (p : Process) (t : Tree) (d d' : Directory) (errand : Errand) (envelope : Envelope)
        (user : String) (y : Response),
      p.site.credentials = .simulated → p.site.storage = .tree t → d.Widens d' user →
      errand.envelope = some envelope → envelope.principal = .ok (.user user) →
      (∀ e ∈ ((p.withUsers d').serve g errand).1.calls, ¬ e.Fails Station.answer.planned) →
      ((p.withUsers d).serve g errand).1.outcome = .finished y → y.isOk →
      ((p.withUsers d').serve g errand).1.outcome = .finished y ∧
        ∃ next, ((p.withUsers d).serve g errand).2.site.storage = .tree next ∧
          ((p.withUsers d').serve g errand).2.site.storage = .tree next) ∧
    ∀ {σ : Type} (m : Machine σ) (e : Option Envelope) (r : Request) (s : σ),
      let once := (g.withRetry false).handle e r
      let again := (g.withRetry true).handle e r
      (once.run m s).1 ≠ .finished .denied →
      again.run m s = once.run m s ∧ again.trace m s = once.trace m s ∧
        ∀ one ∈ again.trace m s, ∀ q, one.call ≠ .probe q := by
  constructor
  · intro p t d d' errand envelope user y simulated storage widens sent named fine answered ok
    exact serve_widened simulated storage widens sent named fine answered ok
  · intro σ m e r s once again other
    have run := Gateway.handle_retried (runs_self m once s) other
    refine ⟨run.run_eq, run.calls_eq, fun one mem q look => ?_⟩
    rw [run.calls_eq] at mem
    rcases (runs_self m once s).only (Gateway.handle_asks rfl e r) one mem with idle | request
    · rw [look] at idle
      cases idle
    · rw [look] at request
      cases request

/-- The user who makes a node with a further group makes it as well with two groups more; and a look
at the root, which is not refused, is made once. -/
theorem Process.groups_never_hurt_shared :
    let d := Directory.add {} "alice" 1001 900 [800]
    let d' := Directory.add {} "alice" 1001 900 [42, 800, 7]
    let p : Process := ⟨fun _ => {}, sharedSite⟩
    let g : Gateway := ⟨{}⟩
    let s : Station × Plan := p.start creation
    (d.Widens d' "alice" ∧ ((p.withUsers d).serve g creation).1.outcome = .finished .ok) ∧
    ((p.withUsers d').serve g creation).1.outcome = .finished .ok ∧
    ((g.withRetry false).handle creation.envelope (.stat .root)).run Station.answer.planned s =
      ((g.withRetry true).handle creation.envelope (.stat .root)).run Station.answer.planned s := by
  intro d d' p g s
  have widens : d.Widens d' "alice" := Directory.widens_add {} "alice" 1001 900 (by simp)
  have answered : ((p.withUsers d).serve g creation).1.outcome = .finished .ok := by decide +kernel
  have fine : ∀ e ∈ ((p.withUsers d').serve g creation).1.calls,
      ¬ e.Fails Station.answer.planned := by decide +kernel
  obtain ⟨monotone, retried⟩ := groups_never_hurt g
  obtain ⟨outcome, -⟩ := monotone p _ d d' creation _ "alice" .ok rfl rfl widens rfl rfl fine
    answered rfl
  obtain ⟨same, -⟩ := retried Station.answer.planned creation.envelope (.stat .root) s
    (by decide +kernel)
  exact ⟨⟨widens, answered⟩, outcome, same.symm⟩

end Impersonation
