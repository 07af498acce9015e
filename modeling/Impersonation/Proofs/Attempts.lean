import Impersonation.Proofs.Search

namespace Impersonation

open Program

variable {σ : Type} {m : Machine σ} {v : View σ}

theorem Outcome.map_ok_injective {ε α : Type} {o o' : Outcome α}
    (h : o.map (Except.ok (ε := ε)) = o'.map .ok) : o = o' := by
  cases o with
  | finished a =>
    cases o' with
    | finished a' => simpa [Outcome.map] using h
    | crashed r => simp [map] at h
  | crashed r =>
    cases o' with
    | finished a' => simp [map] at h
    | crashed r' => simpa [map] using h

structure Identity.Resolved (m : Machine σ) (c : Config) (user : String) (calls : List (Moment σ))
    (i : Identity) : Prop where
  found : ∃ s, ⟨.findUser user, s⟩ ∈ calls ∧ (m (.findUser user) s).1 = .ok (some ⟨i.uid, i.gid⟩)
  listed : ∃ s, ⟨.listGroups user i.gid, s⟩ ∈ calls ∧
    (m (.listGroups user i.gid) s).1 = .ok i.groups
  minUid_le : c.minUid ≤ i.uid
  minGid_le : c.minGid ≤ i.gid

theorem Identity.Resolved.mono {c : Config} {user : String} {calls more : List (Moment σ)}
    {i : Identity} (h : Resolved m c user calls i) (sub : calls ⊆ more) :
    Resolved m c user more i := by
  obtain ⟨⟨s, hs, hfound⟩, ⟨s', hs', hlisted⟩, hu, hg⟩ := h
  exact ⟨⟨s, sub hs, hfound⟩, ⟨s', sub hs', hlisted⟩, hu, hg⟩

theorem Identity.resolve_run {c : Config} {user : String} {s t : σ} {calls : List (Moment σ)}
    {o : Outcome (Except IdentityError Identity)} (h : (resolve c user).run.Runs m s calls o t) :
    (∃ e, o = .finished (.error e)) ∨
      ∃ i, o = .finished (.ok i) ∧ Resolved m c user calls i := by
  obtain ⟨rest, rfl, h₁⟩ := runs_ask_bind.mp h
  rcases hfind : (m (.findUser user) s).1 with f | entry | entry
  · rw [hfind] at h₁
    obtain ⟨-, rfl, -⟩ := runs_done.mp h₁
    exact .inl ⟨_, rfl⟩
  · rw [hfind] at h₁
    obtain ⟨-, rfl, -⟩ := runs_done.mp h₁
    exact .inl ⟨_, rfl⟩
  rw [hfind] at h₁
  dsimp only at h₁
  split at h₁
  next =>
    obtain ⟨-, rfl, -⟩ := runs_done.mp h₁
    exact .inl ⟨_, rfl⟩
  next hu =>
    split at h₁
    next =>
      obtain ⟨-, rfl, -⟩ := runs_done.mp h₁
      exact .inl ⟨_, rfl⟩
    next hg =>
      obtain ⟨rest', rfl, h₂⟩ := runs_ask_bind.mp h₁
      rcases hlist : (m (.listGroups user entry.gid) (m (.findUser user) s).2).1 with f | groups
      · rw [hlist] at h₂
        obtain ⟨-, rfl, -⟩ := runs_done.mp h₂
        exact .inl ⟨_, rfl⟩
      · rw [hlist] at h₂
        obtain ⟨-, rfl, -⟩ := runs_done.mp h₂
        refine .inr ⟨_, rfl, ⟨s, by simp, hfind⟩, ⟨_, by simp, hlist⟩, ?_, ?_⟩
        · exact UInt32.not_lt.mp hu
        · exact UInt32.not_lt.mp hg

/-- A run of a program in the open scope of an identity, with the scope entered and left around
it. -/
inductive InScope (m : Machine σ) (i : Identity) {α : Type} (x : Program α) (s : σ) :
    List (Moment σ) → Outcome α → σ → Prop where
  | intro {scope : IdentityScope} {front mid back : List (Moment σ)} {s₁ s₂ t : σ}
      {inner : Outcome α}
      (entering : (IdentityScope.enter i).run.Runs m s front (.finished (.ok scope)) s₁)
      (inside : x.Runs m s₁ mid inner s₂)
      (leaving : scope.leave.Runs m s₂ back (.finished ()) t) :
      InScope m i x s (front ++ (mid ++ back)) inner t

/-- A program in the scope of an identity does not run, or it runs in the open scope. -/
theorem IdentityScope.within_enter_run {i : Identity} {α : Type} {body : Program α} {s t : σ}
    {calls : List (Moment σ)} {o : Outcome (Except IdentityError α)}
    (h : (within (enter i) body).run.Runs m s calls o t) :
    (∃ cause, o = .finished (.error cause) ∧
      (enter i).run.Runs m s calls (.finished (.error cause)) t) ∨
    ∃ inner, o = inner.map .ok ∧ InScope m i body s calls inner t := by
  rcases runs_within (enter_only i) leave_only h with ⟨cause, henter, rfl⟩ |
    ⟨scope, s₁, s₂, front, mid, back, inner, henter, hbody, hleave, rfl, rfl⟩
  · exact .inl ⟨cause, rfl, henter⟩
  · exact .inr ⟨inner, rfl, .intro henter hbody hleave⟩

theorem Call.ne_setActive {c : Call} (hc : c.isQuiet ∨ c.isSwitch) : c ≠ .setActive true := by
  rintro rfl
  rcases hc with hc | hc <;> cases hc

theorem IdentityScope.EnterRun.not_opened {i : Identity} {cause : IdentityError} {s t : σ}
    {calls : List (Moment σ)} (h : EnterRun m v i s calls (.error cause) t) :
    ∀ e ∈ calls, e.call ≠ .setActive true := by
  intro e he
  cases h with
  | refused idle standing => exact Call.ne_setActive ((idle e he).imp id Moment.isSwitch_of_failed)
  | @undone front undo uid _ _ _ unmarked front_calls _ _ _ _ restoring =>
    rcases List.mem_append.mp he with he | he
    · exact Call.ne_setActive (front_calls e he)
    have block {es : List (Moment σ)}
        (eq : es.map (·.call) = restoreCalls uid (v.standing s).ids.fsgid) (hes : e ∈ es) :
        e.call ≠ .setActive true := by
      have hc : e.call ∈ restoreCalls uid (v.standing s).ids.fsgid := eq ▸ List.mem_map_of_mem hes
      intro hactive
      simp [hactive, restoreCalls] at hc
    cases restoring with
    | restored eq standing => exact block eq he
    | poisoned es eq failed flags =>
      rcases List.mem_append.mp he with he | he
      · exact block eq he
      · rw [List.mem_singleton.mp he]
        simp

def Identity.standing (i : Identity) (keep : List UInt32 → List UInt32) : Standing :=
  ⟨⟨i.uid, i.gid, keep i.groups⟩, { active := true }⟩

theorem InScope.each (hm : Honest m v) {i : Identity} {α : Type} {x : Program α} {s t : σ}
    {calls : List (Moment σ)} {o : Outcome α} (h : InScope m i x s calls o t)
    (neutral : x.Only (·.isNeutral) True) {P : List (Moment σ) → Moment σ → Prop}
    {before : List (Moment σ)}
    (inside : ∀ front mid s₁ s₂, x.Runs m s₁ mid o s₂ →
      (∀ e ∈ mid, v.standing e.state = i.standing (v.keep e.state)) →
      Each (fun before e => e.call.isStorage → P before e) (before ++ front) mid) :
    Each (fun before e => e.call.isStorage → P before e) before calls := by
  obtain @⟨scope, front, mid, back, s₁, s₂, _, _, entering, run, leaving⟩ := h
  obtain ⟨r, hr, entered⟩ := IdentityScope.enter_run hm entering
  cases hr
  have start : v.standing s₁ = i.standing (v.keep s₁) := by
    cases entered with
    | entered front unmarked front_calls replaced_gid replaced_uid standing => exact standing
  -- The program inside makes neutral calls only, so the ids of the scope stay until it is left.
  have throughout := (run.invariant (I := fun u => v.standing u = i.standing (v.keep u))
    (fun e he hs => ?_) start).2
  · refine (Each.of_idle (entering.only (IdentityScope.enter_only i))).append ?_
    exact (inside front mid s₁ s₂ run throughout).append
      (.of_idle (leaving.only (IdentityScope.leave_only scope)))
  · rw [hm.standing_of_neutral (run.only neutral e he), hm.keep_call, hs]

namespace Gateway

def secondAttempt (i : Identity) (found : GroupMatch) (r : Request) : Program Response := do
  let response ← perform r
  if response.isOk && r.createsNode && !found.stickyGid then
    handBack r i.gid
  return response

theorem runWithGroup_eq (i : Identity) (found : GroupMatch) (r : Request) :
    runWithGroup i found r = do
      match ← (IdentityScope.within (IdentityScope.enter (i.withGid found.gid))
        (secondAttempt i found r)).run with
      | .ok response => return response
      | .error e => return .error e.errno :=
  rfl

/-- A second attempt asks the storage for the request, and then for a new owner or for nothing. -/
theorem secondAttempt_run {i : Identity} {found : GroupMatch} {r : Request} {s t : σ}
    {calls : List (Moment σ)} {o : Outcome Response}
    (h : (secondAttempt i found r).Runs m s calls o t) :
    calls = [⟨.perform r, s⟩] ∧ o = (m (.perform r) s).1 ∨
      ∃ s₁, calls = [⟨.perform r, s⟩, ⟨.setOwner r.path none (some i.gid), s₁⟩] ∧
        (o = (m (.perform r) s).1 ∨
          ∃ reason, (m (.setOwner r.path none (some i.gid)) s₁).1 = .crashed reason ∧
            o = .crashed reason) := by
  rcases runs_bind.mp h with ⟨response, s₁, front, back, hperform, hrest, rfl⟩ |
    ⟨reason, hperform, rfl⟩
  · obtain ⟨rfl, hr, rfl⟩ := runs_perform.mp hperform
    split at hrest
    next =>
      right
      rcases runs_bind.mp hrest with ⟨_, s₂, front, back, hback, hdone, rfl⟩ | ⟨reason, hback, rfl⟩
      · obtain ⟨rfl, rfl, rfl⟩ := runs_done.mp hdone
        rcases runs_bind.mp hback with ⟨_, s₃, front, back, howner, hunit, rfl⟩ | ⟨_, _, ho⟩
        · obtain ⟨rfl, -, rfl⟩ := runs_setOwner.mp howner
          obtain ⟨rfl, -, -⟩ := runs_done.mp hunit
          exact ⟨_, rfl, .inl hr⟩
        · simp at ho
      · rcases runs_bind.mp hback with ⟨_, s₃, front, back, _, hunit, _⟩ | ⟨_, howner, ho⟩
        · have := runs_done.mp hunit
          simp at this
        · cases ho
          obtain ⟨rfl, hcrash, rfl⟩ := runs_setOwner.mp howner
          exact ⟨_, rfl, .inr ⟨_, hcrash.symm, rfl⟩⟩
    next =>
      obtain ⟨rfl, rfl, rfl⟩ := runs_done.mp hrest
      exact .inl ⟨rfl, hr⟩
  · obtain ⟨rfl, hr, -⟩ := runs_perform.mp hperform
    exact .inl ⟨rfl, hr⟩

theorem secondAttempt_only (i : Identity) (found : GroupMatch) (r : Request) :
    (secondAttempt i found r).Only
      (fun c => c = .perform r ∨ c = .setOwner r.path none (some i.gid)) True := by
  refine (only_perform (.inl rfl) trivial).bind fun response => ?_
  split
  · exact ((handBack_only r i.gid).mono (fun _ => .inr) id).bind fun _ => only_pure _
  · exact only_pure _

theorem runs_respond {x : Program (Except IdentityError Response)} {s t : σ}
    {calls : List (Moment σ)} {o : Outcome Response}
    (h : (do
      match ← x with
      | .ok response => return response
      | .error e => return .error e.errno : Program Response).Runs m s calls o t) :
    (∃ e, o = .finished .denied ∧ x.Runs m s calls (.finished (.error e)) t) ∨
      x.Runs m s calls (o.map .ok) t := by
  rcases runs_bind.mp h with ⟨result, s₁, front, back, hx, hrest, rfl⟩ | ⟨reason, hx, rfl⟩
  · rcases result with e | response
    · obtain ⟨rfl, rfl, rfl⟩ := runs_done.mp hrest
      rw [List.append_nil]
      exact .inl ⟨e, rfl, hx⟩
    · obtain ⟨rfl, rfl, rfl⟩ := runs_done.mp hrest
      rw [List.append_nil]
      exact .inr hx
  · exact .inr hx

/-- The second attempt does not run and the client is denied, or it runs in the open scope of the
identity with the other group. -/
theorem runWithGroup_run {i : Identity} {found : GroupMatch} {r : Request} {s t : σ}
    {calls : List (Moment σ)} {o : Outcome Response}
    (h : (runWithGroup i found r).Runs m s calls o t) :
    o = .finished .denied ∧ (∀ e ∈ calls, e.call.isStorage = false) ∨
      InScope m (i.withGid found.gid) (secondAttempt i found r) s calls o t := by
  rw [runWithGroup_eq] at h
  rcases runs_respond h with ⟨e, rfl, hwithin⟩ | hwithin
  · rcases IdentityScope.within_enter_run hwithin with ⟨cause, ho, hrefused⟩ | ⟨inner, ho, scope⟩
    · exact .inl ⟨rfl, hrefused.only (IdentityScope.enter_only _)⟩
    · cases inner <;> simp [Outcome.map] at ho
  · rcases IdentityScope.within_enter_run hwithin with ⟨cause, ho, -⟩ | ⟨inner, ho, scope⟩
    · cases o <;> simp [Outcome.map] at ho
    · rw [Outcome.map_ok_injective ho]
      exact .inr scope

end Gateway

def Searched (m : Machine σ) (user : String) (i : Identity) (r : Request)
    (before : List (Moment σ)) (found : GroupMatch) : Prop :=
  ∃ s calls t, calls <:+: before ∧
    (GroupSearch.run user i.gid r.path).run.Runs m s calls (.finished (.ok found)) t

theorem Searched.append {user : String} {i : Identity} {r : Request} {before : List (Moment σ)}
    {found : GroupMatch} (h : Searched m user i r before found) (later : List (Moment σ)) :
    Searched m user i r (before ++ later) found := by
  obtain ⟨s, calls, t, mem, run⟩ := h
  exact ⟨s, calls, t, mem.trans (List.infix_append' [] before later), run⟩

/-- How the storage may be called for a request of a user: for an attempt with the user's ids, for a
look at what is above the path with user id 0, and once the search has found a group, for an attempt
and a change of the owner with the user's ids and that group. -/
inductive MadeFor (m : Machine σ) (v : View σ) (user : String) (i : Identity) (r : Request)
    (before : List (Moment σ)) : Moment σ → Prop where
  | attempt {s : σ} (inside : v.standing s = i.standing (v.keep s)) :
      MadeFor m v user i r before ⟨.perform r, s⟩
  | look {e : Moment σ} (h : RootLook m v r.path.ancestors before e) :
      MadeFor m v user i r before e
  | retry {s : σ} {found : GroupMatch} (searched : Searched m user i r before found)
      (inside : v.standing s = (i.withGid found.gid).standing (v.keep s)) :
      MadeFor m v user i r before ⟨.perform r, s⟩
  | handBack {s : σ} {found : GroupMatch} (searched : Searched m user i r before found)
      (inside : v.standing s = (i.withGid found.gid).standing (v.keep s)) :
      MadeFor m v user i r before ⟨.setOwner r.path none (some i.gid), s⟩

/-- What a request of a user comes to: it is denied, or gets the answer of its last attempt, or the
storage crashed. -/
inductive Answered (m : Machine σ) (r : Request) (calls : List (Moment σ)) :
    Outcome Response → Prop where
  | denied : Answered m r calls (.finished .denied)
  | answer {s : σ} {front back : List (Moment σ)} (split : calls = front ++ ⟨.perform r, s⟩ :: back)
      (last : ∀ e ∈ back, e.call ≠ .perform r) : Answered m r calls (m (.perform r) s).1
  | crash {reason : String} (crashes : ∃ e ∈ calls, e.Crashes m reason) :
      Answered m r calls (.crashed reason)

theorem Answered.prepend {r : Request} {calls : List (Moment σ)} {o : Outcome Response}
    (h : Answered m r calls o) (earlier : List (Moment σ)) : Answered m r (earlier ++ calls) o := by
  cases h with
  | denied => exact .denied
  | answer split last => exact .answer (by rw [split, List.append_assoc]) last
  | crash crashes =>
    obtain ⟨e, he, hc⟩ := crashes
    exact .crash ⟨e, List.mem_append_right _ he, hc⟩

theorem Call.ne_perform {c : Call} (hc : c.isStorage = false) (r : Request) : c ≠ .perform r := by
  rintro rfl
  simp [isStorage] at hc

namespace Gateway

variable {user : String} {i : Identity} {r : Request} {s t : σ} {calls before : List (Moment σ)}
  {o : Outcome Response}

theorem secondAttempt_each (hm : Honest m v) {found : GroupMatch}
    (searched : Searched m user i r before found)
    (h : InScope m (i.withGid found.gid) (secondAttempt i found r) s calls o t) :
    Each (fun before e => e.call.isStorage → MadeFor m v user i r before e) before calls ∧
      Answered m r calls o := by
  have only := secondAttempt_only i found r
  have neutral : (secondAttempt i found r).Only (·.isNeutral) True :=
    only.mono (fun c hc => by rcases hc with rfl | rfl <;> rfl) id
  constructor
  · refine h.each hm neutral fun front mid s₁ s₂ run inside pre e back split _ => ?_
    have he : e ∈ mid := by simp [split]
    have hsearched : Searched m user i r (before ++ front ++ pre) found :=
      (searched.append front).append pre
    have hs := inside e he
    obtain ⟨c, s'⟩ := e
    rcases run.only only _ he with hc | hc <;> cases hc
    · exact .retry hsearched hs
    · exact .handBack hsearched hs
  · obtain @⟨scope, front, mid, back, s₁, s₂, _, _, entering, run, leaving⟩ := h
    have idle : ∀ e ∈ back, e.call ≠ .perform r := fun e he =>
      Call.ne_perform (leaving.only (IdentityScope.leave_only scope) e he) r
    rcases secondAttempt_run run with ⟨rfl, rfl⟩ | ⟨s₃, rfl, rfl | ⟨reason, hcrash, rfl⟩⟩
    · exact .answer rfl idle
    · refine .answer rfl fun e he => ?_
      rcases List.mem_cons.mp he with rfl | he
      · simp
      · exact idle e he
    · exact .crash ⟨_, by simp, .setOwner hcrash⟩

theorem retry_each (hm : Honest m v) (h : (retry user i r .denied).Runs m s calls o t) :
    Each (fun before e => e.call.isStorage → MadeFor m v user i r before e) before calls ∧
      Answered m r calls o := by
  rcases runs_bind.mp h with ⟨result, s₁, front, back, hsearch, hrest, rfl⟩ | ⟨reason, hsearch, rfl⟩
  all_goals
    obtain ⟨looks, -, crash⟩ := GroupSearch.run_run hm hsearch
    have looks' : Each (fun before e => e.call.isStorage → MadeFor m v user i r before e)
        (before ++ []) _ :=
      (looks.after (fun earlier _ _ hp hc => (hp hc).after earlier) before).mono
        fun _ _ hp hc => .look (hp hc)
    rw [List.append_nil] at looks'
  · rcases result with e | found
    · obtain ⟨rfl, rfl, rfl⟩ := runs_done.mp hrest
      rw [List.append_nil]
      exact ⟨looks', .denied⟩
    · dsimp only at hrest
      split at hrest
      next =>
        obtain ⟨rfl, rfl, rfl⟩ := runs_done.mp hrest
        rw [List.append_nil]
        exact ⟨looks', .denied⟩
      next =>
        have searched : Searched m user i r (before ++ front) found :=
          ⟨s, front, s₁, (List.suffix_append before front).isInfix, hsearch⟩
        rcases runWithGroup_run hrest with ⟨rfl, idle⟩ | scope
        · exact ⟨looks'.append (.of_idle idle), .denied⟩
        · obtain ⟨made, answered⟩ := secondAttempt_each hm searched scope
          exact ⟨looks'.append made, answered.prepend front⟩
  · exact ⟨looks', .crash (crash reason rfl)⟩

/-- A request is tried for a user: the name is resolved to an identity, an attempt is made in its
open scope, and only if that attempt is denied there may be a retry. -/
inductive TriedFor (m : Machine σ) (v : View σ) (c : Config) (user : String) (i : Identity)
    (r : Request) (s t : σ) : List (Moment σ) → Outcome Response → Prop where
  | intro {c₀ c₁ c₂ : List (Moment σ)} {s₁ s₂ : σ} {inner o : Outcome Response}
      (quiet : ∀ e ∈ c₀, e.call.isQuiet) (resolved : Identity.Resolved m c user c₀ i)
      (same : v.standing s₁ = v.standing s) (scope : InScope m i (perform r) s₁ c₁ inner s₂)
      (last : c₂ = [] ∧ o = inner ∧ t = s₂ ∨
        inner = .finished .denied ∧ (retry user i r .denied).Runs m s₂ c₂ o t) :
      TriedFor m v c user i r s t (c₀ ++ (c₁ ++ c₂)) o

/-- A request of a user is denied before a scope is opened, or it is tried for the user. -/
theorem handleUser_run (hm : Honest m v) {g : Gateway}
    (h : (g.handleUser user r).Runs m s calls o t) :
    o = .finished .denied ∧
        (∀ e ∈ calls, e.call.isStorage = false ∧ e.call ≠ .setActive true) ∨
      ∃ i, TriedFor m v g.config user i r s t calls o := by
  have only := Identity.resolve_only g.config user
  obtain ⟨result, s₁, c₀, rest, hresolve, hrest, rfl⟩ := only.runs_bind h
  have quiet := hresolve.only only
  have idle₀ : ∀ e ∈ c₀, e.call.isStorage = false ∧ e.call ≠ .setActive true := fun e he =>
    ⟨Call.not_isStorage_of_isQuiet (quiet e he), Call.ne_setActive (.inl (quiet e he))⟩
  rcases Identity.resolve_run hresolve with ⟨e, ho⟩ | ⟨i, ho, resolved⟩ <;> cases ho
  · obtain ⟨rfl, rfl, -⟩ := runs_done.mp hrest
    rw [List.append_nil]
    exact .inl ⟨rfl, idle₀⟩
  have same := hm.standing_of_quiet only hresolve
  rcases runs_bind.mp hrest with ⟨result, s₂, c₁, c₂, hwithin, hlast, rfl⟩ | ⟨reason, hwithin, rfl⟩
  · rcases IdentityScope.within_enter_run hwithin with ⟨cause, ho, hrefused⟩ | ⟨inner, ho, scope⟩
    · cases ho
      obtain ⟨rfl, rfl, -⟩ := runs_done.mp hlast
      obtain ⟨_, hr, refused⟩ := IdentityScope.enter_run hm hrefused
      cases hr
      refine .inl ⟨rfl, fun e he => ?_⟩
      rw [List.append_nil] at he
      rcases List.mem_append.mp he with he | he
      · exact idle₀ e he
      · exact ⟨hrefused.only (IdentityScope.enter_only i) e he, refused.not_opened e he⟩
    · right
      cases inner with
      | crashed reason => simp [Outcome.map] at ho
      | finished response =>
        cases ho
        refine ⟨i, .intro quiet resolved same scope ?_⟩
        dsimp only at hlast
        split at hlast
        next again =>
          obtain ⟨rfl, -⟩ := again
          exact .inr ⟨rfl, hlast⟩
        next =>
          obtain ⟨rfl, rfl, rfl⟩ := runs_done.mp hlast
          exact .inl ⟨rfl, rfl, rfl⟩
  · rcases IdentityScope.within_enter_run hwithin with ⟨cause, ho, -⟩ | ⟨inner, ho, scope⟩
    · simp at ho
    · cases inner with
      | finished response => simp [Outcome.map] at ho
      | crashed reason' =>
        obtain rfl : reason = reason' := by simpa [Outcome.map] using ho
        rw [← List.append_nil rest]
        exact .inr ⟨i, .intro quiet resolved same scope (.inl ⟨rfl, rfl, rfl⟩)⟩

theorem TriedFor.resolved {c : Config} (h : TriedFor m v c user i r s t calls o) :
    Identity.Resolved m c user calls i := by
  cases h with
  | intro quiet resolved same scope last => exact resolved.mono (List.subset_append_left _ _)

theorem TriedFor.each (hm : Honest m v) {c : Config} (h : TriedFor m v c user i r s t calls o) :
    Each (fun before e => e.call.isStorage → MadeFor m v user i r before e) [] calls ∧
      Answered m r calls o := by
  obtain @⟨c₀, c₁, c₂, s₁, s₂, inner, _, quiet, -, -, scope, last⟩ := h
  have start : Each (fun before e => e.call.isStorage → MadeFor m v user i r before e) [] c₀ :=
    .of_idle fun e he => Call.not_isStorage_of_isQuiet (quiet e he)
  have first : Each (fun before e => e.call.isStorage → MadeFor m v user i r before e)
      ([] ++ c₀) c₁ := by
    refine scope.each hm (only_perform rfl trivial) fun front mid s₁ s₂ run inside => ?_
    obtain ⟨rfl, -, -⟩ := runs_perform.mp run
    exact .single fun _ => .attempt (inside _ (List.mem_singleton_self _))
  have answer : Answered m r c₁ inner := by
    obtain @⟨opened, front, mid, back, _, _, _, _, -, run, leaving⟩ := scope
    obtain ⟨rfl, rfl, -⟩ := runs_perform.mp run
    refine .answer rfl fun e he => ?_
    exact Call.ne_perform (leaving.only (IdentityScope.leave_only opened) e he) r
  rcases last with ⟨rfl, rfl, -⟩ | ⟨rfl, hretry⟩
  · rw [List.append_nil]
    exact ⟨start.append first, answer.prepend c₀⟩
  · obtain ⟨made, answered⟩ := retry_each hm hretry
    exact ⟨start.append (first.append made), (answered.prepend c₁).prepend c₀⟩

theorem TriedFor.denied_of_probe {c : Config} (h : TriedFor m v c user i r s t calls o)
    {e : Moment σ} (he : e ∈ calls) {a : Path} (look : e.call = .probe a) :
    ∃ u, ⟨.perform r, u⟩ ∈ calls ∧ (m (.perform r) u).1 = .finished .denied := by
  obtain @⟨c₀, c₁, c₂, s₁, s₂, inner, _, quiet, -, -, scope, last⟩ := h
  obtain @⟨opened, front, mid, back, u, _, _, _, entering, run, leaving⟩ := scope
  obtain ⟨rfl, rfl, -⟩ := runs_perform.mp run
  rcases last with ⟨rfl, -, -⟩ | ⟨denied, -⟩
  · have idle (c : Call) (hc : c.isStorage = false) : c ≠ .probe a := by
      rintro rfl
      simp [Call.isStorage] at hc
    simp only [List.append_nil, List.mem_append, List.mem_singleton] at he
    rcases he with he | he | rfl | he
    · exact absurd look (idle _ (Call.not_isStorage_of_isQuiet (quiet e he)))
    · exact absurd look (idle _ (entering.only (IdentityScope.enter_only i) e he))
    · simp at look
    · exact absurd look (idle _ (leaving.only (IdentityScope.leave_only opened) e he))
  · exact ⟨u, by simp, denied⟩

end Gateway

end Impersonation
