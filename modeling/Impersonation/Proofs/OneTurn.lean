import Impersonation.Proofs.OnTree

namespace Impersonation

open Program

variable {σ : Type} {m : Machine σ} {v : View σ} {site : Site} {bears : Tree → σ → Prop}
  {t : Tree} {s s' : σ} {calls : List (Moment σ)} {r : Request} {o : Outcome Response}

/-- The request was carried out on the tree in a turn. -/
structure Took (m : Machine σ) (v : View σ) (bears : Tree → σ → Prop) (t : Tree) (turn : Turn)
    (r : Request) (calls : List (Moment σ)) (o : Outcome Response) (s' : σ) : Prop where
  outcome : o = (t.take turn r).1
  after : bears (t.take turn r).2 s'
  called : ∃ u, ⟨.perform r, u⟩ ∈ calls ∧ (v.standing u).ids = turn.who

theorem Took.mono {turn : Turn} {more : List (Moment σ)} (h : Took m v bears t turn r calls o s')
    (sub : calls ⊆ more) : Took m v bears t turn r more o s' :=
  ⟨h.outcome, h.after, let ⟨u, mem, ids⟩ := h.called; ⟨u, sub mem, ids⟩⟩

namespace OnTree

theorem handBack_run (ht : OnTree m v site bears) {gid : UInt32} {o : Outcome Unit}
    (h : (Gateway.handBack r gid).Runs m s calls o s') (start : bears t s) :
    o = .finished () ∧
      bears (t.leave (t.chown (v.standing s).ids r.path none (some gid))) s' := by
  obtain ⟨⟨result, reply⟩, next⟩ := ht.setOwner r.path none (some gid) start
  rcases runs_bind.mp h with ⟨_, s₁, front, back, howner, hdone, rfl⟩ | ⟨reason, howner, -⟩
  · obtain ⟨-, -, rfl⟩ := runs_setOwner.mp howner
    obtain ⟨-, rfl, rfl⟩ := runs_done.mp hdone
    exact ⟨rfl, next⟩
  · obtain ⟨-, ho, -⟩ := runs_setOwner.mp howner
    have := ho.trans reply
    simp at this

/-- A second attempt is a turn with the ids that it is made with. -/
theorem secondAttempt_run (hm : Honest m v) (ht : OnTree m v site bears) {i : Identity}
    {found : GroupMatch} {turn : Turn}
    (h : (Gateway.secondAttempt i found r).Runs m s calls o s') (start : bears t s)
    (who : (v.standing s).ids = turn.who)
    (handBack : turn.handBack = if found.stickyGid then none else some i.gid) :
    Took m v bears t turn r calls o s' := by
  rcases runs_bind.mp h with ⟨response, s₁, front, back, hperform, hrest, rfl⟩ |
    ⟨reason, hperform, rfl⟩
  all_goals
    obtain ⟨rfl, ho, made⟩ := ht.perform_run hperform start
    rw [who] at ho made
    have called : ⟨.perform r, s⟩ ∈ [(⟨.perform r, s⟩ : Moment σ)] := List.mem_singleton_self _
  · have taken : t.take turn r = _ := Tree.take_of_finished (Prod.ext ho.symm rfl)
    -- A node is handed back with the ids that it was made with.
    have same : v.standing s₁ = v.standing s :=
      (hm.standing_of_only (only_perform rfl trivial) hperform).1
    by_cases creates : response.isOk && r.createsNode
    · rw [if_pos creates] at taken
      rw [creates, Bool.true_and] at hrest
      cases sticky : found.stickyGid with
      | true =>
        rw [sticky] at hrest handBack
        obtain ⟨rfl, rfl, rfl⟩ := runs_done.mp hrest
        refine ⟨by rw [taken], ?_, s, by simp, who⟩
        rw [taken, Tree.handedBack, handBack]
        exact made
      | false =>
        rw [sticky] at hrest handBack
        rcases runs_bind.mp hrest with ⟨_, s₂, front, back, hback, hdone, rfl⟩ | ⟨reason, hback, -⟩
        · obtain ⟨-, given⟩ := ht.handBack_run hback made
          obtain ⟨rfl, rfl, rfl⟩ := runs_done.mp hdone
          refine ⟨by rw [taken], ?_, s, by simp, who⟩
          rw [same, who] at given
          rw [taken, Tree.handedBack, handBack]
          exact given
        · have := (ht.handBack_run hback made).1
          simp at this
    · rw [if_neg creates] at taken
      rw [Bool.eq_false_iff.mpr creates] at hrest
      obtain ⟨rfl, rfl, rfl⟩ := runs_done.mp hrest
      exact ⟨by rw [taken], by rw [taken]; exact made, s, by simp, who⟩
  · have taken : t.take turn r = _ := Tree.take_of_crashed (Prod.ext ho.symm rfl)
    exact ⟨by rw [taken], by rw [taken]; exact made, s, called, who⟩

end OnTree

theorem RanAs.took (ht : OnTree m v site bears) {who : Ids}
    (h : RanAs m v bears who (perform r) t calls o s') : Took m v bears t ⟨who, none⟩ r calls o s' := by
  obtain ⟨s₁, mid, s₂, hperform, sub, entered, ids, left⟩ := h
  obtain ⟨rfl, rfl, made⟩ := ht.perform_run hperform entered
  rw [ids] at made ⊢
  refine ⟨by rw [Tree.take_of_not_handBack], ?_, s₁, sub (List.mem_singleton_self _), ids⟩
  rw [Tree.take_of_not_handBack]
  exact left _ made

theorem RanAs.took_second (hm : Honest m v) (ht : OnTree m v site bears) {i : Identity}
    {found : GroupMatch} {turn : Turn}
    (h : RanAs m v bears turn.who (Gateway.secondAttempt i found r) t calls o s')
    (handBack : turn.handBack = if found.stickyGid then none else some i.gid) :
    Took m v bears t turn r calls o s' := by
  obtain ⟨s₁, mid, s₂, hsecond, sub, entered, ids, left⟩ := h
  obtain ⟨outcome, after, called⟩ := ht.secondAttempt_run hm hsecond entered ids handBack
  exact ⟨outcome, left _ after, let ⟨u, mem, hu⟩ := called; ⟨u, sub mem, hu⟩⟩

namespace OnTree

/-- Where a scope is refused the client gets its failure, and else what was answered in it. -/
theorem respond_run {ε : Type} {x : Program (Except ε Response)}
    {answer : Except ε Response → Program Response} (failed : ε → Response) {who : Ids}
    {body : Program Response} (h : (x >>= answer).Runs m s calls o s')
    (inside : ∀ {calls result s'}, x.Runs m s calls result s' →
      (∃ e, result = .finished (.error e) ∧ bears t s' ∧ Hindered m v s calls) ∨
        ∃ inner, result = inner.map .ok ∧ RanAs m v bears who body t calls inner s')
    (answer_ok : ∀ y, answer (.ok y) = pure y)
    (answer_error : ∀ e, answer (.error e) = pure (failed e)) :
    (∃ e, o = .finished (failed e) ∧ bears t s' ∧ Hindered m v s calls) ∨
      RanAs m v bears who body t calls o s' := by
  rcases runs_bind.mp h with ⟨result, s₁, front, back, hx, hrest, rfl⟩ | ⟨reason, hx, rfl⟩
  · rcases inside hx with ⟨e, ho, same, hindered⟩ | ⟨inner, ho, ran⟩
    · cases ho
      rw [answer_error] at hrest
      obtain ⟨rfl, rfl, rfl⟩ := runs_pure.mp hrest
      exact .inl ⟨e, rfl, same, hindered.mono (List.subset_append_left _ _)⟩
    · cases inner with
      | crashed reason => simp [Outcome.map] at ho
      | finished response =>
        cases ho
        rw [answer_ok] at hrest
        obtain ⟨rfl, rfl, rfl⟩ := runs_pure.mp hrest
        rw [List.append_nil]
        exact .inr ran
  · rcases inside hx with ⟨e, ho, -⟩ | ⟨inner, ho, ran⟩
    · simp at ho
    · cases inner with
      | finished response => simp [Outcome.map] at ho
      | crashed reason' =>
        obtain rfl : reason = reason' := by simpa [Outcome.map] using ho
        exact .inr ran

/-- A retry takes the further turn that the nearest existing node gives, or the refusal stands. -/
theorem retry_run (hm : Honest m v) (ht : OnTree m v site bears) {user : String} {i : Identity}
    (listed : site.listGroups user i.gid = .ok i.groups)
    (h : (Gateway.retry user i r .denied).Runs m s calls o s') (start : bears t s) :
    o = .finished .denied ∧ bears t s' ∧
        (Hindered m v s calls ∨ i.furtherTurn? (t.nearest r.path.ancestors) = none) ∨
      ∃ turn, i.furtherTurn? (t.nearest r.path.ancestors) = some turn ∧
        Took m v bears t turn r calls o s' := by
  rcases runs_bind.mp h with ⟨result, s₁, front, back, hsearch, hrest, rfl⟩ | ⟨reason, hsearch, -⟩
  · obtain ⟨after, ⟨e, ho, why⟩ | ⟨found, stat, ho, nearest, member, gid, sticky⟩⟩ :=
      ht.search_run hm hsearch start listed
    · cases ho
      obtain ⟨rfl, rfl, rfl⟩ := runs_done.mp hrest
      refine .inl ⟨rfl, after, why.imp (·.mono (List.subset_append_left _ _)) fun other => ?_⟩
      unfold Identity.furtherTurn?
      cases nearest : t.nearest r.path.ancestors with
      | none => rfl
      | some stat => simp [other stat nearest]
    · cases ho
      rw [nearest]
      unfold Identity.furtherTurn?
      dsimp only at hrest ⊢
      rw [gid] at hrest
      by_cases own : stat.gid = i.gid
      · rw [if_pos own] at hrest
        rw [if_neg (by simp [own])]
        obtain ⟨rfl, rfl, rfl⟩ := runs_done.mp hrest
        exact .inl ⟨rfl, after, .inr rfl⟩
      · rw [if_neg own, Gateway.runWithGroup_eq] at hrest
        rw [if_pos ⟨member, own⟩]
        rcases respond_run (fun e => .error e.errno) hrest
            (fun hwithin => ht.asUser_run hm hwithin after) (fun _ => rfl) fun _ => rfl with
          ⟨e, rfl, same, hindered⟩ | ran
        · exact .inl ⟨rfl, same,
            .inl (hindered.after hm (GroupSearch.run_scoped user i.gid r.path) hsearch)⟩
        · rw [gid] at ran
          refine .inr ⟨_, rfl, (ran.took_second hm ht ?_).mono (List.subset_append_right _ _)⟩
          rw [sticky]
  · obtain ⟨-, ⟨e, ho, -⟩ | ⟨found, stat, ho, -⟩⟩ := ht.search_run hm hsearch start listed <;>
      simp at ho

/-- A user whose first attempt was denied takes the turn that goes by the nearest existing node. The
calls before the retry have that attempt among them. -/
theorem again_run (hm : Honest m v) (ht : OnTree m v site bears) {user : String} {i : Identity}
    {before : List (Moment σ)} (listed : site.listGroups user i.gid = .ok i.groups)
    (denied : (t.perform i.ids r).1 = .finished .denied)
    (called : ∃ u, ⟨.perform r, u⟩ ∈ before ∧ (v.standing u).ids = i.ids)
    (h : (Gateway.retry user i r .denied).Runs m s calls o s') (start : bears t s) :
    ∃ governs, (governs = t.nearest r.path.ancestors ∨ governs = none ∧ Hindered m v s calls) ∧
      Took m v bears t (t.userTurn true i governs r) r (before ++ calls) o s' := by
  have stands (governs : Option FileStat) (none : i.furtherTurn? governs = none)
      (ho : o = .finished .denied) (left : bears t s') :
      Took m v bears t (t.userTurn true i governs r) r (before ++ calls) o s' := by
    rw [Tree.userTurn_of_denied denied, none, Option.getD_none]
    refine ⟨?_, ?_, called.imp fun u hu => ⟨List.mem_append_left _ hu.1, hu.2⟩⟩
    · rw [Tree.take_of_not_handBack, ho, denied]
    · rw [Tree.take_of_not_handBack, Tree.perform_of_denied denied]
      exact left
  rcases ht.retry_run hm listed h start with ⟨ho, left, hindered | none⟩ | ⟨turn, further, took⟩
  · exact ⟨none, .inr ⟨rfl, hindered⟩, stands none rfl ho left⟩
  · exact ⟨_, .inl rfl, stands _ none ho left⟩
  · refine ⟨_, .inl rfl, ?_⟩
    rw [Tree.userTurn_of_denied denied, further]
    exact took.mono (List.subset_append_right _ _)

/-- A request of a user is refused and changes nothing, or it takes the user's turn. Where nothing
hinders it, the nearest existing node governs the turn. -/
theorem handleUser_run (hm : Honest m v) (ht : OnTree m v site bears) {g : Gateway} {user : String}
    (h : (g.handleUser user r).Runs m s calls o s') (start : bears t s) :
    o = .finished .denied ∧ bears t s' ∧
        (Hindered m v s calls ∨ site.identity? g.config user = none) ∨
      ∃ i governs, site.identity? g.config user = some i ∧
        (governs = t.nearest r.path.ancestors ∨ governs = none ∧ Hindered m v s calls) ∧
        Took m v bears t (t.userTurn g.config.groupRetry i governs r) r calls o s' := by
  have resolving := (Identity.resolve_orderly g.config user).scoped
  obtain ⟨result, s₁, c₀, rest, hresolve, hrest, rfl⟩ :=
    (Identity.resolve_only g.config user).runs_bind h
  obtain ⟨bears₁, ⟨e, ho, unknown⟩ | ⟨i, ho, known⟩⟩ := ht.resolve_run hresolve start <;> cases ho
  · obtain ⟨rfl, rfl, rfl⟩ := runs_done.mp hrest
    exact .inl ⟨rfl, bears₁, .inr unknown⟩
  have attempting := (Orderly.identity (.identity i) (.perform r)).scoped
  rcases runs_bind.mp hrest with ⟨result, s₂, c₁, c₂, hwithin, hlast, rfl⟩ | ⟨reason, hwithin, rfl⟩
  · rcases ht.asUser_run hm hwithin bears₁ with ⟨e, ho, same, hindered⟩ | ⟨inner, ho, ran⟩
    · cases ho
      obtain ⟨rfl, rfl, rfl⟩ := runs_done.mp hlast
      rw [List.append_nil]
      exact .inl ⟨rfl, same, .inl (hindered.after hm resolving hresolve)⟩
    right
    cases inner with
    | crashed reason => simp [Outcome.map] at ho
    | finished response =>
      cases ho
      have first := ran.took ht
      have outcome := first.outcome
      have after := first.after
      rw [Tree.take_of_not_handBack] at outcome after
      dsimp only at hlast
      split at hlast
      next again =>
        obtain ⟨rfl, retries⟩ := again
        -- The retry starts on the tree of the first attempt, but after its calls.
        rw [Tree.perform_of_denied outcome.symm] at after
        obtain ⟨governs, nearest, took⟩ := ht.again_run hm (Site.identity?_listed known).2
          outcome.symm first.called hlast after
        rw [retries]
        refine ⟨i, governs, known, nearest.imp id (And.imp_right fun hindered => ?_),
          took.mono (List.subset_append_right _ _)⟩
        exact (hindered.after hm attempting hwithin).after hm resolving hresolve
      next once =>
        obtain ⟨rfl, rfl, rfl⟩ := runs_done.mp hlast
        refine ⟨i, _, known, .inl rfl, ?_⟩
        rw [Tree.userTurn, if_neg fun again => ?_]
        · exact first.mono (by simp)
        · exact once ⟨Outcome.finished.inj (outcome.trans again.1), again.2⟩
  · rcases ht.asUser_run hm hwithin bears₁ with ⟨e, ho, -⟩ | ⟨inner, ho, ran⟩
    · simp at ho
    cases inner with
    | finished response => simp [Outcome.map] at ho
    | crashed reason' =>
      obtain rfl : reason = reason' := by simpa [Outcome.map] using ho
      have first := ran.took ht
      have outcome := first.outcome
      rw [Tree.take_of_not_handBack] at outcome
      refine .inr ⟨i, _, known, .inl rfl, ?_⟩
      rw [Tree.userTurn_of_not_denied (by simp [← outcome])]
      exact first.mono (List.subset_append_right _ _)

end OnTree

def Gateway.ownIds (g : Gateway) (base : Ids) (r : Request) : Ids :=
  if g.config.clusterManager && r.isStat then { base with fsuid := 0 } else base

/-- The turn in which a gateway carries out a request on a tree, if it is to be carried out at all. The
daemon has the ids `base`, and `governs` is the node that governs the path. -/
def Gateway.turn? (g : Gateway) (site : Site) (base : Ids) (t : Tree) (governs : Option FileStat)
    (e : Option Envelope) (r : Request) : Option Turn :=
  match e with
  | none => some ⟨g.ownIds base r, none⟩
  | some e =>
    match e.principal with
    | .error _ => none
    | .ok .anonymous => some ⟨base, none⟩
    | .ok (.user user) =>
      (site.identity? g.config user).map fun i => t.userTurn g.config.groupRetry i governs r

/-- What serving a request does to a tree. It is refused and changes nothing, or it takes a turn; and
where nothing hinders it, that is the turn which the nearest existing node gives. -/
inductive ServedOn (m : Machine σ) (v : View σ) (site : Site) (g : Gateway) (e : Option Envelope)
    (r : Request) (t : Tree) (s : σ) (calls : List (Moment σ)) : Outcome Response → Tree → Prop where
  | refused {code : Errno}
      (why : Hindered m v s calls ∨
        code = .accessDenied ∧ ∀ governs, g.turn? site (v.standing s).ids t governs e r = none) :
      ServedOn m v site g e r t s calls (.finished (.error code)) t
  | took {governs : Option FileStat} {turn : Turn}
      (chosen : g.turn? site (v.standing s).ids t governs e r = some turn)
      (nearest : governs = t.nearest r.path.ancestors ∨ governs = none ∧ Hindered m v s calls)
      (called : ∃ u, ⟨.perform r, u⟩ ∈ calls ∧ (v.standing u).ids = turn.who)
      {o : Outcome Response} {next : Tree} (taken : t.take turn r = (o, next)) :
      ServedOn m v site g e r t s calls o next

theorem Took.served {g : Gateway} {e : Option Envelope} {governs : Option FileStat} {turn : Turn}
    (h : Took m v bears t turn r calls o s')
    (chosen : g.turn? site (v.standing s).ids t governs e r = some turn)
    (nearest : governs = t.nearest r.path.ancestors ∨ governs = none ∧ Hindered m v s calls) :
    ∃ next, bears next s' ∧ ServedOn m v site g e r t s calls o next :=
  ⟨_, h.after, .took chosen nearest h.called (Prod.ext h.outcome.symm rfl)⟩

/-- Whoever asks for what, a gateway serves the request in one turn or refuses it. -/
theorem Gateway.handle_onTree (hm : Honest m v) (ht : OnTree m v site bears) {g : Gateway}
    {e : Option Envelope} {request : Request} (h : (g.handle e request).Runs m s calls o s')
    (start : bears t s) :
    ∃ next, bears next s' ∧ ServedOn m v site g e (g.adjust request) t s calls o next := by
  unfold Gateway.handle at h
  dsimp only at h
  rcases e with _ | e
  · have own {who : Ids} (ran : RanAs m v bears who (perform (g.adjust request)) t calls o s')
        (ids : g.ownIds (v.standing s).ids (g.adjust request) = who) :
        ∃ next, bears next s' ∧ ServedOn m v site g none (g.adjust request) t s calls o next :=
      (ran.took ht).served (congrArg some (congrArg (Turn.mk · none) ids)) (.inl rfl)
    dsimp only at h
    unfold Gateway.handleInternal at h
    split at h
    next seesAll =>
      rcases OnTree.respond_run Response.ofFault h (fun hwithin => ht.asRoot_run hm hwithin start)
          (fun _ => rfl) fun _ => rfl with
        ⟨f, rfl, same, hindered⟩ | ran
      · exact ⟨t, same, .refused (.inl hindered)⟩
      · exact own ran (if_pos seesAll)
    next plain =>
      exact own ⟨s, calls, s', h, List.Subset.refl _, start, rfl, fun _ => id⟩ (if_neg plain)
  · dsimp only at h
    rcases he : e.principal with refusal | _ | user <;> rw [he] at h
    · obtain ⟨rfl, rfl, rfl⟩ := runs_done.mp h
      exact ⟨t, start, .refused (.inr ⟨rfl, fun _ => by simp [Gateway.turn?, he]⟩)⟩
    · rcases OnTree.respond_run (fun e => .error e.errno) h
          (fun hwithin => ht.asNobody_run hm hwithin start) (fun _ => rfl) fun _ => rfl with
        ⟨refusal, rfl, same, hindered⟩ | ran
      · exact ⟨t, same, .refused (.inl hindered)⟩
      · exact (ran.took ht).served (by simp [Gateway.turn?, he]) (.inl rfl)
    · rcases ht.handleUser_run hm h start with ⟨rfl, same, why⟩ |
        ⟨i, governs, known, nearest, took⟩
      · refine ⟨t, same, .refused (why.imp id fun unknown => ⟨rfl, fun _ => ?_⟩)⟩
        simp [Gateway.turn?, he, unknown]
      · exact took.served (by simp [Gateway.turn?, he, known]) nearest

namespace Station

def Bears (site : Site) (t : Tree) (s : Station × Plan) : Prop :=
  s.1.site.settled = site.settled ∧ s.1.site.storage = .tree t

theorem treeIds_eq {site : Site} (simulated : site.credentials = .simulated) {s : Station}
    (settled : s.site.settled = site.settled) : s.treeIds = s.ids := by
  have credentials : s.site.credentials = site.credentials := congrArg Prod.fst settled
  rw [ids, credentials, simulated]
  rfl

/-- Stations whose ids are simulated serve requests on their trees, whatever the plan. -/
theorem onTree {site : Site} (simulated : site.credentials = .simulated) :
    OnTree answer.planned (view.ofFst Plan) site (Bears site) where
  keep {t s} h := by
    have credentials : s.1.site.credentials = site.credentials := congrArg Prod.fst h.1
    change s.1.site.credentials.keep = id
    rw [credentials, simulated]
    rfl
  idle {c t s} hc h := by
    refine ⟨(settled_planned c s).trans h.1, ?_⟩
    rcases planned_cases answer c s with ⟨_, _, _, _, same⟩ | ⟨_, next⟩
    · rw [same]
      exact h.2
    · rw [next]
      exact (storage_of_not_isStorage hc s.1).trans h.2
  findUser {t s} user h := by
    rw [planned_of_failure?_eq_none _ rfl]
    exact findUser_of_settled h.1 user
  listGroups {t s} user primary h := by
    rw [planned_of_failure?_eq_none _ rfl]
    exact listGroups_of_settled h.1 user primary
  perform {t s} r h := by
    have settled := (settled_planned (.perform r) s).trans h.1
    rw [planned_of_failure?_eq_none _ rfl] at settled ⊢
    have eq : answer (.perform r) s.1 = ((t.perform s.1.treeIds r).1,
        s.1.withStorage (.tree (t.perform s.1.treeIds r).2)
          (s.1.site.visits.request s.1.treeIds r)) := by
      simp only [answer, Station.perform, h.2]
    rw [eq] at settled ⊢
    rw [treeIds_eq simulated h.1] at settled ⊢
    exact ⟨rfl, settled, rfl⟩
  probe {t s} p h := by
    have settled := (settled_planned (.probe p) s).trans h.1
    rw [planned_of_failure?_eq_none _ rfl] at settled ⊢
    have eq : answer (.probe p) s.1 = (.finished (t.stat s.1.treeIds p),
        s.1.withStorage (.tree t) (s.1.site.visits.look p)) := by
      simp only [answer, Station.probe, h.2]
    rw [eq] at settled ⊢
    rw [treeIds_eq simulated h.1]
    exact ⟨rfl, settled, rfl⟩
  setOwner {t s} p uid gid h := by
    have settled := (settled_planned (.setOwner p uid gid) s).trans h.1
    rw [planned_of_failure?_eq_none _ rfl] at settled ⊢
    simp only [answer, Station.setOwner, h.2] at settled ⊢
    change _ ∧ Bears site (t.leave (t.chown s.1.ids p uid gid)) _
    rw [treeIds_eq simulated h.1] at settled ⊢
    cases hc : t.chown s.1.ids p uid gid with
    | ok next =>
      rw [hc] at settled
      exact ⟨⟨_, rfl⟩, settled, rfl⟩
    | error f =>
      rw [hc] at settled
      exact ⟨⟨_, rfl⟩, settled, rfl⟩

end Station

/-- An errand on a tree is served in one turn, or refused, under any plan. -/
theorem Process.serve_onTree {p : Process} (simulated : p.site.credentials = .simulated)
    (storage : p.site.storage = .tree t) (g : Gateway) (errand : Errand) :
    ∃ next, (p.serve g errand).2.site.storage = .tree next ∧
      ServedOn Station.answer.planned (Station.view.ofFst Plan) p.site g errand.envelope
        (g.adjust errand.request) t (p.start errand) (p.serve g errand).1.calls
        (p.serve g errand).1.outcome next := by
  obtain ⟨next, ⟨-, after⟩, served⟩ := Gateway.handle_onTree Station.honest.planned
    (Station.onTree simulated) (p.serve_runs g errand) ⟨rfl, storage⟩
  exact ⟨next, after, served⟩

end Impersonation
