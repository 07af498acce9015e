import Impersonation.Proofs.Service
import Impersonation.Proofs.Smooth
import Impersonation.Proofs.Turn

namespace Impersonation

open Program

def Site.identity? (site : Site) (c : Config) (user : String) : Option Identity :=
  match site.findUser user with
  | .ok (some entry) =>
    if entry.uid < c.minUid ∨ entry.gid < c.minGid then none
    else
      match site.listGroups user entry.gid with
      | .ok groups => some ⟨entry.uid, entry.gid, groups⟩
      | .error _ => none
  | _ => none

theorem Site.identity?_listed {site : Site} {c : Config} {user : String} {i : Identity}
    (h : site.identity? c user = some i) :
    site.findUser user = .ok (some ⟨i.uid, i.gid⟩) ∧
      site.listGroups user i.gid = .ok i.groups := by
  unfold Site.identity? at h
  split at h
  next entry found =>
    split at h
    next => cases h
    next =>
      split at h
      next groups listed =>
        cases h
        exact ⟨found, listed⟩
      next => cases h
  next => cases h

theorem Site.identity?_of_settled {site site' : Site} (h : site'.settled = site.settled) (c : Config)
    (user : String) : site'.identity? c user = site.identity? c user := by
  have users (name : String) : site'.findUser name = site.findUser name :=
    Station.findUser_of_settled (s := ⟨{}, site'⟩) h name
  have groups (name : String) (primary : UInt32) :
      site'.listGroups name primary = site.listGroups name primary :=
    Station.listGroups_of_settled (s := ⟨{}, site'⟩) h name primary
  simp only [Site.identity?, users, groups]

/-- A machine whose storage is a tree and whose users are those of a site. `bears t s` tells that the
state `s` has the tree `t`. -/
structure OnTree {σ : Type} (m : Machine σ) (v : View σ) (site : Site) (bears : Tree → σ → Prop) :
    Prop where
  keep : ∀ {t s}, bears t s → v.keep s = id
  idle : ∀ {c t s}, c.isStorage = false → bears t s → bears t (m c s).2
  findUser : ∀ {t s} user, bears t s → (m (.findUser user) s).1 = site.findUser user
  listGroups : ∀ {t s} user primary, bears t s →
    (m (.listGroups user primary) s).1 = site.listGroups user primary
  perform : ∀ {t s} r, bears t s →
    (m (.perform r) s).1 = (t.perform (v.standing s).ids r).1 ∧
      bears (t.perform (v.standing s).ids r).2 (m (.perform r) s).2
  probe : ∀ {t s} p, bears t s →
    (m (.probe p) s).1 = .finished (t.stat (v.standing s).ids p) ∧ bears t (m (.probe p) s).2
  setOwner : ∀ {t s} p uid gid, bears t s →
    (∃ result, (m (.setOwner p uid gid) s).1 = .finished result) ∧
      bears (t.leave (t.chown (v.standing s).ids p uid gid)) (m (.setOwner p uid gid) s).2

variable {σ : Type} {m : Machine σ} {v : View σ} {site : Site} {bears : Tree → σ → Prop}
  {t : Tree} {s s' : σ} {calls : List (Moment σ)}

namespace OnTree

theorem idle_run (ht : OnTree m v site bears) {α : Type} {x : Program α} {b : Prop} {o : Outcome α}
    (only : x.Only (·.isStorage = false) b) (h : x.Runs m s calls o s') (start : bears t s) :
    bears t s' :=
  (h.invariant (fun e he => ht.idle (h.only only e he)) start).1

theorem perform_run (ht : OnTree m v site bears) {r : Request} {o : Outcome Response}
    (h : (Program.perform r).Runs m s calls o s') (start : bears t s) :
    calls = [⟨.perform r, s⟩] ∧ o = (t.perform (v.standing s).ids r).1 ∧
      bears (t.perform (v.standing s).ids r).2 s' := by
  obtain ⟨rfl, rfl, rfl⟩ := runs_perform.mp h
  obtain ⟨reply, next⟩ := ht.perform r start
  exact ⟨rfl, reply, next⟩

theorem resolve_run (ht : OnTree m v site bears) {c : Config} {user : String}
    {o : Outcome (Except IdentityError Identity)}
    (h : (Identity.resolve c user).run.Runs m s calls o s') (start : bears t s) :
    bears t s' ∧ ((∃ e, o = .finished (.error e) ∧ site.identity? c user = none) ∨
      ∃ i, o = .finished (.ok i) ∧ site.identity? c user = some i) := by
  have only := (Identity.resolve_only c user).mono (fun _ => Call.not_isStorage_of_isQuiet) id
  refine ⟨ht.idle_run only h start, ?_⟩
  obtain ⟨rest, -, h₁⟩ := runs_ask_bind.mp h
  have next := ht.idle (c := .findUser user) rfl start
  rw [ht.findUser user start] at h₁
  unfold Site.identity?
  rcases hfind : site.findUser user with f | entry | entry <;> rw [hfind] at h₁
  · obtain ⟨-, rfl, -⟩ := runs_done.mp h₁
    exact .inl ⟨_, rfl, rfl⟩
  · obtain ⟨-, rfl, -⟩ := runs_done.mp h₁
    exact .inl ⟨_, rfl, rfl⟩
  dsimp only at h₁ ⊢
  by_cases hu : entry.uid < c.minUid
  · rw [if_pos hu] at h₁
    obtain ⟨-, rfl, -⟩ := runs_done.mp h₁
    exact .inl ⟨_, rfl, if_pos (.inl hu)⟩
  by_cases hg : entry.gid < c.minGid
  · rw [if_neg hu, if_pos hg] at h₁
    obtain ⟨-, rfl, -⟩ := runs_done.mp h₁
    exact .inl ⟨_, rfl, if_pos (.inr hg)⟩
  rw [if_neg hu, if_neg hg] at h₁
  rw [if_neg (by simp [hu, hg])]
  obtain ⟨rest', -, h₂⟩ := runs_ask_bind.mp h₁
  rw [ht.listGroups user entry.gid next] at h₂
  cases hlist : site.listGroups user entry.gid with
  | error f =>
    rw [hlist] at h₂
    obtain ⟨-, rfl, -⟩ := runs_done.mp h₂
    exact .inl ⟨_, rfl, rfl⟩
  | ok groups =>
    rw [hlist] at h₂
    obtain ⟨-, rfl, -⟩ := runs_done.mp h₂
    exact .inr ⟨_, rfl, rfl⟩

/-- The looks with user id 0 find the nearest existing node. -/
theorem firstExisting_run (hm : Honest m v) (ht : OnTree m v site bears) {target : Path}
    {ps : List Path} {steps : Nat} {o : Outcome (Except GroupSearchError (Path × FileStat × Nat))}
    (h : (GroupSearch.firstExisting target ps steps).run.Runs m s calls o s') (start : bears t s)
    (root : (v.standing s).ids.fsuid = 0) :
    bears t s' ∧ ((∃ e, o = .finished (.error e) ∧ t.nearest ps = none) ∨
      ∃ governing stat steps, o = .finished (.ok (governing, stat, steps)) ∧
        t.nearest ps = some stat) := by
  -- Each look counts a step and leads to another state, with the same ids and the same tree.
  induction ps generalizing steps s calls with
  | nil =>
    obtain ⟨-, rfl, rfl⟩ := runs_done.mp h
    exact ⟨start, .inl ⟨_, rfl, rfl⟩⟩
  | cons p above ih =>
    obtain ⟨reply, next⟩ := ht.probe p start
    rw [t.stat_root root] at reply
    unfold Tree.nearest
    rcases runs_lift_bind.mp h with ⟨seen, s₁, front, back, hprobe, hrest, rfl⟩ | ⟨r, hprobe, -⟩
    · obtain ⟨-, hseen, rfl⟩ := runs_probe.mp hprobe
      obtain rfl : seen = t.stat {} p := Outcome.finished.inj (hseen.trans reply)
      cases hstat : t.stat {} p with
      | ok stat =>
        rw [hstat] at hrest
        obtain ⟨-, rfl, rfl⟩ := runs_done.mp hrest
        exact ⟨next, .inr ⟨_, _, _, rfl, rfl⟩⟩
      | error f =>
        rw [hstat] at hrest
        dsimp only at hrest ⊢
        split at hrest
        next missing =>
          rw [if_pos missing]
          refine ih hrest next ?_
          rw [hm.standing_of_neutral rfl]
          exact root
        next other =>
          rw [if_neg other]
          obtain ⟨-, rfl, rfl⟩ := runs_done.mp hrest
          exact ⟨next, .inl ⟨_, rfl, rfl⟩⟩
    · obtain ⟨-, hcrash, -⟩ := runs_probe.mp hprobe
      have := hcrash.trans reply
      simp at this

end OnTree

/-- The thread bears a mark, or one of the calls failed. -/
def Hindered (m : Machine σ) (v : View σ) (s : σ) (calls : List (Moment σ)) : Prop :=
  (v.standing s).flags ≠ {} ∨ ∃ e ∈ calls, e.Fails m

theorem Hindered.mono {more : List (Moment σ)} (h : Hindered m v s calls) (sub : calls ⊆ more) :
    Hindered m v s more :=
  h.imp id fun ⟨e, he, failed⟩ => ⟨e, sub he, failed⟩

theorem Hindered.after (hm : Honest m v) {α : Type} {x : Program α} (byScopes : Scoped x)
    {o : Outcome α} {later : List (Moment σ)} (run : x.Runs m s calls o s')
    (h : Hindered m v s' later) : Hindered m v s (calls ++ later) := by
  rcases h with marked | ⟨e, he, failed⟩
  · by_cases unmarked : (v.standing s).flags = {}
    · refine .inr (Classical.byContradiction fun none => ?_)
      have fine : ∀ e ∈ calls, ¬ e.Fails m := fun e he failed =>
        none ⟨e, List.mem_append_left _ he, failed⟩
      obtain ⟨groups, same⟩ := byScopes.restored hm run fine unmarked
      exact marked (by rw [same]; exact unmarked)
    · exact .inl unmarked
  · exact .inr ⟨e, List.mem_append_right _ he, failed⟩

/-- A program is run with the given ids, and nothing else is done to the tree. -/
def RanAs (m : Machine σ) (v : View σ) (bears : Tree → σ → Prop) (who : Ids) {α : Type}
    (x : Program α) (t : Tree) (calls : List (Moment σ)) (o : Outcome α) (s' : σ) : Prop :=
  ∃ s₁ mid s₂, x.Runs m s₁ mid o s₂ ∧ mid ⊆ calls ∧ bears t s₁ ∧ (v.standing s₁).ids = who ∧
    ∀ t', bears t' s₂ → bears t' s'

namespace OnTree

/-- In a scope that can be entered and left without the storage a program is run, unless the scope
is refused. -/
theorem within_run (ht : OnTree m v site bears) {α ε S : Type} {entering : Attempt ε S}
    {leave : S → Program Unit} {body : Program α} {o : Outcome (Except ε α)} {who : Ids}
    (entering_only : entering.run.Only (·.isStorage = false) False)
    (leave_only : ∀ scope, (leave scope).Only (·.isStorage = false) False)
    (refused : ∀ {e calls s'}, entering.run.Runs m s calls (.finished (.error e)) s' →
      Hindered m v s calls)
    (opened : ∀ {scope calls s'}, entering.run.Runs m s calls (.finished (.ok scope)) s' →
      (v.standing s').ids = who)
    (h : ((do let scope ← entering; liftM (body.closing (leave scope)) : Attempt ε α).run).Runs
      m s calls o s') (start : bears t s) :
    (∃ e, o = .finished (.error e) ∧ bears t s' ∧ Hindered m v s calls) ∨
      ∃ inner, o = inner.map .ok ∧ RanAs m v bears who body t calls inner s' := by
  rcases runs_within entering_only leave_only h with ⟨e, henter, rfl⟩ |
    ⟨scope, s₁, s₂, front, mid, back, inner, henter, hbody, hleave, rfl, rfl⟩
  · exact .inl ⟨e, rfl, ht.idle_run entering_only henter start, refused henter⟩
  · refine .inr ⟨inner, rfl, s₁, mid, s₂, hbody, by simp, ht.idle_run entering_only henter start,
      opened henter, fun t' => ht.idle_run (leave_only scope) hleave⟩

theorem asRoot_run (hm : Honest m v) (ht : OnTree m v site bears) {α : Type} {body : Program α}
    {o : Outcome (Except Fault α)} (h : (RootScope.within body).run.Runs m s calls o s')
    (start : bears t s) :
    (∃ f, o = .finished (.error f) ∧ bears t s' ∧ Hindered m v s calls) ∨
      ∃ inner, o = inner.map .ok ∧
        RanAs m v bears { (v.standing s).ids with fsuid := 0 } body t calls inner s' := by
  refine ht.within_run RootScope.enter_only RootScope.leave_only (fun henter => ?_)
    (fun henter => ?_) h start
  · obtain ⟨rfl, ⟨f, -, -, failed⟩ | ⟨ho, -⟩⟩ := RootScope.enter_run hm henter
    · exact .inr ⟨_, List.mem_singleton_self _, Moment.fails_of_not_succeeds failed⟩
    · simp at ho
  · obtain ⟨-, ⟨f, ho, -⟩ | ⟨-, -, standing⟩⟩ := RootScope.enter_run hm henter
    · simp at ho
    · rw [standing]
      rfl

theorem asUser_run (hm : Honest m v) (ht : OnTree m v site bears) {i : Identity} {α : Type}
    {body : Program α} {o : Outcome (Except IdentityError α)}
    (h : (IdentityScope.within (IdentityScope.enter i) body).run.Runs m s calls o s')
    (start : bears t s) :
    (∃ e, o = .finished (.error e) ∧ bears t s' ∧ Hindered m v s calls) ∨
      ∃ inner, o = inner.map .ok ∧ RanAs m v bears i.ids body t calls inner s' := by
  refine ht.within_run (IdentityScope.enter_only i) IdentityScope.leave_only
    (IdentityScope.enter_refused hm) (fun henter => ?_) h start
  obtain ⟨r, hr, entered⟩ := IdentityScope.enter_run hm henter
  cases hr
  cases entered with
  | entered front unmarked front_calls replaced_gid replaced_uid standing =>
    rw [standing, ht.keep (ht.idle_run (IdentityScope.enter_only i) henter start)]
    rfl

theorem asNobody_run (hm : Honest m v) (ht : OnTree m v site bears) {α : Type} {body : Program α}
    {o : Outcome (Except IdentityError α)}
    (h : (IdentityScope.within IdentityScope.enterAnonymous body).run.Runs m s calls o s')
    (start : bears t s) :
    (∃ e, o = .finished (.error e) ∧ bears t s' ∧ Hindered m v s calls) ∨
      ∃ inner, o = inner.map .ok ∧ RanAs m v bears (v.standing s).ids body t calls inner s' := by
  refine ht.within_run IdentityScope.enterAnonymous_only IdentityScope.leave_only
    (fun henter => ?_) (fun henter => ?_) h start
  · rcases IdentityScope.enterAnonymous_run hm henter with ⟨e, -, marked, -⟩ | ⟨_, _, ho, -⟩
    · exact .inl marked
    · simp at ho
  · rcases IdentityScope.enterAnonymous_run hm henter with ⟨e, ho, -⟩ | ⟨_, _, -, -, standing, -⟩
    · simp at ho
    · rw [standing]
      rfl

theorem looks_run (hm : Honest m v) (ht : OnTree m v site bears) {target : Path} {ps : List Path}
    {o : Outcome (Except Fault (Except GroupSearchError (Path × FileStat × Nat)))}
    (h : (RootScope.within (GroupSearch.firstExisting target ps 0).run).run.Runs m s calls o s')
    (start : bears t s) :
    bears t s' ∧ ((∃ f, o = .finished (.error f) ∧ Hindered m v s calls) ∨
      (∃ e, o = .finished (.ok (.error e)) ∧ t.nearest ps = none) ∨
      ∃ governing stat steps, o = .finished (.ok (.ok (governing, stat, steps))) ∧
        t.nearest ps = some stat) := by
  rcases ht.asRoot_run hm h start with ⟨f, rfl, same, hindered⟩ |
    ⟨inner, rfl, s₁, mid, s₂, hbody, -, entered, ids, left⟩
  · exact ⟨same, .inl ⟨f, rfl, hindered⟩⟩
  · obtain ⟨after, ⟨e, rfl, none⟩ | ⟨governing, stat, steps, rfl, found⟩⟩ :=
      ht.firstExisting_run hm hbody entered (congrArg Ids.fsuid ids)
    · exact ⟨left t after, .inr (.inl ⟨e, rfl, none⟩)⟩
    · exact ⟨left t after, .inr (.inr ⟨governing, stat, steps, rfl, found⟩)⟩

theorem nearestExisting_run (hm : Honest m v) (ht : OnTree m v site bears) {p : Path}
    {o : Outcome (Except GroupSearchError (Path × FileStat × Nat))}
    (h : (GroupSearch.nearestExisting p).run.Runs m s calls o s') (start : bears t s) :
    bears t s' ∧ ((∃ e, o = .finished (.error e) ∧
        (Hindered m v s calls ∨ t.nearest p.ancestors = none)) ∨
      ∃ governing stat steps, o = .finished (.ok (governing, stat, steps)) ∧
        t.nearest p.ancestors = some stat) := by
  rcases runs_lift_bind.mp h with ⟨found, s₁, front, back, hlooks, hrest, rfl⟩ | ⟨reason, hlooks, rfl⟩
  · obtain ⟨after, ⟨f, ho, hindered⟩ | ⟨e, ho, none⟩ | ⟨governing, stat, steps, ho, found⟩⟩ :=
      ht.looks_run hm hlooks start
    all_goals
      cases ho
      obtain ⟨rfl, rfl, rfl⟩ := runs_done.mp hrest
    · exact ⟨after, .inl ⟨_, rfl, .inl (hindered.mono (List.subset_append_left _ _))⟩⟩
    · exact ⟨after, .inl ⟨e, rfl, .inr none⟩⟩
    · exact ⟨after, .inr ⟨governing, stat, steps, rfl, found⟩⟩
  · obtain ⟨-, ⟨f, ho, -⟩ | ⟨e, ho, -⟩ | ⟨governing, stat, steps, ho, -⟩⟩ :=
      ht.looks_run hm hlooks start <;> simp at ho

/-- The search of a group finds the group of the nearest existing node if it is one of those listed
for the user. -/
theorem search_run (hm : Honest m v) (ht : OnTree m v site bears) {user : String}
    {primary : UInt32} {p : Path} {groups : List UInt32}
    {o : Outcome (Except GroupSearchError GroupMatch)}
    (h : (GroupSearch.run user primary p).run.Runs m s calls o s') (start : bears t s)
    (listed : site.listGroups user primary = .ok groups) :
    bears t s' ∧ ((∃ e, o = .finished (.error e) ∧ (Hindered m v s calls ∨
        ∀ stat, t.nearest p.ancestors = some stat → stat.gid ∉ groups)) ∨
      ∃ found stat, o = .finished (.ok found) ∧ t.nearest p.ancestors = some stat ∧
        stat.gid ∈ groups ∧ found.gid = stat.gid ∧ found.stickyGid = stat.isSetgid) := by
  rcases runs_attempt.mp h with ⟨found, s₁, front, back, hnearest, hrest, rfl⟩ |
    ⟨e, hnearest, rfl⟩ | ⟨reason, hnearest, rfl⟩
  · obtain ⟨after, ⟨e, ho, -⟩ | ⟨governing, stat, steps, ho, nearest⟩⟩ :=
      ht.nearestExisting_run hm hnearest start
    · simp at ho
    · cases ho
      obtain ⟨rest, rfl, hgroups⟩ := runs_ask_bind.mp hrest
      have next := ht.idle (c := .listGroups user primary) rfl after
      rw [ht.listGroups user primary after, listed] at hgroups
      dsimp only at hgroups
      split at hgroups
      next member =>
        obtain ⟨-, rfl, rfl⟩ := runs_done.mp hgroups
        exact ⟨next, .inr ⟨_, stat, rfl, nearest, member, rfl, rfl⟩⟩
      next other =>
        obtain ⟨-, rfl, rfl⟩ := runs_done.mp hgroups
        refine ⟨next, .inl ⟨_, rfl, .inr fun stat' nearest' => ?_⟩⟩
        obtain rfl : stat = stat' := Option.some.inj (nearest.symm.trans nearest')
        exact other
  · obtain ⟨after, ⟨e', ho, hindered | none⟩ | ⟨governing, stat, steps, ho, -⟩⟩ :=
      ht.nearestExisting_run hm hnearest start
    · exact ⟨after, .inl ⟨e, rfl, .inl hindered⟩⟩
    · exact ⟨after, .inl ⟨e, rfl, .inr (by simp [none])⟩⟩
    · simp at ho
  · obtain ⟨-, ⟨e, ho, -⟩ | ⟨governing, stat, steps, ho, -⟩⟩ :=
      ht.nearestExisting_run hm hnearest start <;> simp at ho

end OnTree

end Impersonation
