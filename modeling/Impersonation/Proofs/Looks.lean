import Impersonation.Proofs.Attempts
import Impersonation.Proofs.Daemon

namespace Impersonation

open Program

variable {σ : Type} {m : Machine σ} {v : View σ}

def lookAll (m : Machine σ) : List Path → σ → List (Moment σ)
  | [], _ => []
  | p :: ps, s => ⟨.probe p, s⟩ :: lookAll m ps (m (.probe p) s).2

theorem lookAll_calls (ps : List Path) (s : σ) :
    (lookAll m ps s).map (·.call) = ps.map .probe := by
  induction ps generalizing s with
  | nil => rfl
  | cons p ps ih => exact congrArg (Call.probe p :: ·) (ih _)

def Moment.misses (m : Machine σ) : Moment σ → Bool
  | ⟨.probe p, s⟩ =>
    match (m (.probe p) s).1 with
    | .finished (.error f) => f.isNotFound
    | _ => false
  | _ => false

/-- The number of looks that find no node, up to one that finds one or fails otherwise. -/
def missed (m : Machine σ) (looks : List (Moment σ)) : Nat :=
  looks.findIdx fun e => !e.misses m

theorem missed_cons (e : Moment σ) (looks : List (Moment σ)) :
    missed m (e :: looks) = if e.misses m then missed m looks + 1 else 0 := by
  rw [missed, List.findIdx_cons]
  cases e.misses m <;> rfl

namespace GroupSearch

/-- What the search for a node comes to by a look that does not miss. -/
def seen (q : Path) (steps : Nat) :
    Outcome (Except Fault FileStat) → Outcome (Except GroupSearchError (Path × FileStat × Nat))
  | .finished (.ok stat) => .finished (.ok (q, stat, steps))
  | .finished (.error f) => .finished (.error (.probe q f))
  | .crashed reason => .crashed reason

theorem firstExisting_exact {target : Path} {ps : List Path} {steps : Nat} {s t : σ}
    {calls : List (Moment σ)} {o : Outcome (Except GroupSearchError (Path × FileStat × Nat))}
    (h : (firstExisting target ps steps).run.Runs m s calls o t) :
    let looks := lookAll m ps s
    let k := missed m looks
    calls = looks.take (k + 1) ∧
      (looks[k]? = none ∧ o = .finished (.error (.invalidPath target)) ∨
        ∃ q u, looks[k]? = some ⟨.probe q, u⟩ ∧ o = seen q (steps + k) (m (.probe q) u).1) := by
  induction ps generalizing steps s calls with
  | nil =>
    obtain ⟨rfl, rfl, -⟩ := runs_done.mp h
    exact ⟨rfl, .inl ⟨rfl, rfl⟩⟩
  | cons p above ih =>
    intro looks k
    have stop (seen_here : Moment.misses m ⟨.probe p, s⟩ = false) : k = 0 := by
      simp [k, looks, lookAll, missed_cons, seen_here]
    rcases runs_lift_bind.mp h with ⟨stat, s₁, front, back, hprobe, hrest, rfl⟩ | ⟨r, hprobe, rfl⟩
    · obtain ⟨rfl, hreply, rfl⟩ := runs_probe.mp hprobe
      rcases stat with f | stat
      · dsimp only at hrest
        split at hrest
        next missing =>
          have here : Moment.misses m ⟨.probe p, s⟩ = true := by
            simp only [Moment.misses, ← hreply, missing]
          have step : k = missed m (lookAll m above (m (.probe p) s).2) + 1 := by
            simp [k, looks, lookAll, missed_cons, here]
          obtain ⟨later, result⟩ := ih hrest
          rw [step, later]
          refine ⟨rfl, result.imp id ?_⟩
          rintro ⟨q, u, at_k, rfl⟩
          refine ⟨q, u, at_k, ?_⟩
          rw [Nat.add_right_comm, Nat.add_assoc steps]
        next other =>
          obtain ⟨rfl, rfl, -⟩ := runs_done.mp hrest
          rw [stop (by simp only [Moment.misses, ← hreply]; simpa using other)]
          refine ⟨rfl, .inr ⟨p, s, rfl, ?_⟩⟩
          rw [← hreply]
          rfl
      · obtain ⟨rfl, rfl, -⟩ := runs_done.mp hrest
        rw [stop (by simp only [Moment.misses, ← hreply])]
        refine ⟨rfl, .inr ⟨p, s, rfl, ?_⟩⟩
        rw [← hreply]
        rfl
    · obtain ⟨rfl, hreply, -⟩ := runs_probe.mp hprobe
      rw [stop (by simp only [Moment.misses, ← hreply])]
      refine ⟨rfl, .inr ⟨p, s, rfl, ?_⟩⟩
      rw [← hreply]
      rfl

end GroupSearch

namespace RootScope

/-- The thread goes back from user id 0: it has its own id again, or it could not take it on and is
poisoned. -/
inductive WentBack (m : Machine σ) (v : View σ) (uid : UInt32) (s : σ) :
    List (Moment σ) → σ → Prop where
  | restored {t : σ} (switched : (m (.setFsuid uid) s).1.isOk)
      (standing : v.standing t = (v.standing s).withFsuid uid) :
      WentBack m v uid s [⟨.setFsuid uid, s⟩] t
  | poisoned {f : Fault} {t : σ} (failed : (m (.setFsuid uid) s).1 = .error f)
      (standing : v.standing t = (v.standing s).withPoison) :
      WentBack m v uid s [⟨.setFsuid uid, s⟩, ⟨.poison, (m (.setFsuid uid) s).2⟩] t

theorem leave_exact (hm : Honest m v) {scope : RootScope} {s t : σ} {calls : List (Moment σ)}
    {o : Outcome Unit} (h : scope.leave.Runs m s calls o t) :
    WentBack m v scope.savedUid s calls t := by
  obtain ⟨_, rfl, h₁⟩ := runs_call.mp h
  rcases hm.obeys (.setFsuid scope.savedUid) s with ⟨f, hr, hs⟩ | ⟨hr, hs⟩
  · rw [hr] at h₁
    obtain ⟨rfl, -, rfl⟩ := runs_ask.mp h₁
    refine .poisoned hr ?_
    rw [← hs]
    exact hm.obeys .poison _
  · rw [hr] at h₁
    obtain ⟨rfl, -, rfl⟩ := runs_done.mp h₁
    exact .restored (by rw [hr]; rfl) hs

theorem WentBack.calls {uid : UInt32} {s t : σ} {back : List (Moment σ)}
    (h : WentBack m v uid s back t) :
    ∀ e ∈ back, e.call = .setFsuid uid ∨ e.call = .poison := by
  cases h <;> simp

/-- A thread on its way back runs with what it had before, whatever becomes of the call. -/
theorem WentBack.during (hm : Honest m v) {uid : UInt32} {s t : σ} {back : List (Moment σ)}
    (h : WentBack m v uid s back t) : ∀ e ∈ back, v.standing e.state = v.standing s := by
  cases h with
  | restored => simp
  | poisoned failed =>
    rcases hm.obeys (.setFsuid uid) s with ⟨f, -, same⟩ | ⟨ok, -⟩
    · simpa using same
    · rw [ok] at failed
      cases failed

theorem WentBack.after {uid : UInt32} {s t : σ} {back : List (Moment σ)}
    (h : WentBack m v uid s back t) :
    v.standing t = (v.standing s).withFsuid uid ∨
      v.standing t = (v.standing s).withPoison ∧
        ∃ f, ⟨.setFsuid uid, s⟩ ∈ back ∧ (m (.setFsuid uid) s).1 = .error f := by
  cases h with
  | restored ok same => exact .inl same
  | poisoned failed same => exact .inr ⟨same, _, by simp, failed⟩

end RootScope

namespace GroupSearch

/-- The looks of a search, if all of them were made. -/
def looks (m : Machine σ) (p : Path) (s : σ) : List (Moment σ) :=
  lookAll m p.ancestors (m (.setFsuid 0) s).2

/-- The first look of a search that does not miss is at `q` and gets the reply. -/
def Saw (m : Machine σ) (p : Path) (s : σ) (q : Path) (reply : Outcome (Except Fault FileStat)) :
    Prop :=
  (m (.setFsuid 0) s).1.isOk ∧ ∃ u,
    (looks m p s)[missed m (looks m p s)]? = some ⟨.probe q, u⟩ ∧ (m (.probe q) u).1 = reply

theorem Saw.unique {p q q' : Path} {s : σ} {reply reply' : Outcome (Except Fault FileStat)}
    (h : Saw m p s q reply) (h' : Saw m p s q' reply') : q = q' ∧ reply = reply' := by
  obtain ⟨-, u, first, rfl⟩ := h
  obtain ⟨-, u', first', rfl⟩ := h'
  cases first.symm.trans first'
  exact ⟨rfl, rfl⟩

/-- What a search does once it is back from its looks, in the state `w`. -/
inductive Result (m : Machine σ) (user : String) (primary : UInt32) (p : Path) (s w : σ) :
    List (Moment σ) → Outcome (Except GroupSearchError GroupMatch) → Prop where
  | nothing (none : (looks m p s)[missed m (looks m p s)]? = none) :
      Result m user primary p s w [] (.finished (.error (.invalidPath p)))
  | failed {q : Path} {f : Fault} (saw : Saw m p s q (.finished (.error f))) :
      Result m user primary p s w [] (.finished (.error (.probe q f)))
  | crashed {q : Path} {reason : String} (saw : Saw m p s q (.crashed reason)) :
      Result m user primary p s w [] (.crashed reason)
  | unlisted {q : Path} {stat : FileStat} {f : Fault} (saw : Saw m p s q (.finished (.ok stat)))
      (listed : (m (.listGroups user primary) w).1 = .error f) :
      Result m user primary p s w [⟨.listGroups user primary, w⟩]
        (.finished (.error (.groupLookup user f)))
  | found {q : Path} {stat : FileStat} {groups : List UInt32}
      (saw : Saw m p s q (.finished (.ok stat)))
      (listed : (m (.listGroups user primary) w).1 = .ok groups) (member : stat.gid ∈ groups) :
      Result m user primary p s w [⟨.listGroups user primary, w⟩]
        (.finished (.ok ⟨stat.gid, stat.isSetgid, q, missed m (looks m p s)⟩))
  | other {q : Path} {stat : FileStat} {groups : List UInt32}
      (saw : Saw m p s q (.finished (.ok stat)))
      (listed : (m (.listGroups user primary) w).1 = .ok groups) (other : stat.gid ∉ groups) :
      Result m user primary p s w [⟨.listGroups user primary, w⟩]
        (.finished (.error (.noMatch q stat.gid)))

/-- All that a search does: it cannot take on user id 0 and does nothing, or it makes the looks up to
the first that does not miss, goes back, and may ask for the groups of the user then. -/
inductive SearchRun (m : Machine σ) (v : View σ) (user : String) (primary : UInt32) (p : Path)
    (s t : σ) : List (Moment σ) → Outcome (Except GroupSearchError GroupMatch) → Prop where
  | refused {f : Fault} (failed : (m (.setFsuid 0) s).1 = .error f)
      (standing : v.standing t = v.standing s) :
      SearchRun m v user primary p s t [⟨.setFsuid 0, s⟩] (.finished (.error (.rootSwitch f)))
  | searched {back asked : List (Moment σ)} {u w : σ}
      {o : Outcome (Except GroupSearchError GroupMatch)}
      (switched : (m (.setFsuid 0) s).1.isOk)
      (asRoot : ∀ e ∈ looks m p s, v.standing e.state = (v.standing s).withFsuid 0)
      (looked : v.standing u = (v.standing s).withFsuid 0)
      (wentBack : RootScope.WentBack m v (v.standing s).ids.fsuid u back w)
      (standing : v.standing t = v.standing w)
      (result : Result m user primary p s w asked o) :
      SearchRun m v user primary p s t
        (⟨.setFsuid 0, s⟩ ::
          ((looks m p s).take (missed m (looks m p s) + 1) ++ (back ++ asked))) o

theorem lookAll_standing (hm : Honest m v) (ps : List Path) (s : σ) :
    ∀ e ∈ lookAll m ps s, v.standing e.state = v.standing s := by
  induction ps generalizing s with
  | nil => simp [lookAll]
  | cons p ps ih =>
    intro e he
    rcases List.mem_cons.mp he with rfl | he
    · rfl
    · rw [ih _ e he, hm.standing_of_neutral rfl]

/-- The looks for the nearest existing node come to what the first look that does not miss says. -/
theorem nearestExisting_exact (hm : Honest m v) {p : Path} {s t : σ} {calls : List (Moment σ)}
    {o : Outcome (Except GroupSearchError (Path × FileStat × Nat))}
    (h : (nearestExisting p).run.Runs m s calls o t) :
    (∃ f, (m (.setFsuid 0) s).1 = .error f ∧ v.standing t = v.standing s ∧
      calls = [⟨.setFsuid 0, s⟩] ∧ o = .finished (.error (.rootSwitch f))) ∨
    ∃ u back, (m (.setFsuid 0) s).1.isOk ∧
      v.standing (m (.setFsuid 0) s).2 = (v.standing s).withFsuid 0 ∧
      v.standing u = (v.standing s).withFsuid 0 ∧
      RootScope.WentBack m v (v.standing s).ids.fsuid u back t ∧
      calls = ⟨.setFsuid 0, s⟩ :: ((looks m p s).take (missed m (looks m p s) + 1) ++ back) ∧
      ((looks m p s)[missed m (looks m p s)]? = none ∧ o = .finished (.error (.invalidPath p)) ∨
        ∃ q reply, Saw m p s q reply ∧ o = seen q (missed m (looks m p s)) reply) := by
  have looked : ∃ o', (RootScope.within (firstExisting p p.ancestors 0).run).run.Runs m s calls o' t ∧
      ((∃ f, o' = .finished (.error f) ∧ o = .finished (.error (.rootSwitch f))) ∨
        o' = o.map .ok) := by
    rcases runs_lift_bind.mp h with ⟨r, s₁, front, back, within, rest, rfl⟩ | ⟨reason, within, rfl⟩
    · rcases r with f | e | found <;> obtain ⟨rfl, rfl, rfl⟩ := runs_done.mp rest <;>
        rw [List.append_nil]
      · exact ⟨_, within, .inl ⟨f, rfl, rfl⟩⟩
      · exact ⟨_, within, .inr rfl⟩
      · exact ⟨_, within, .inr rfl⟩
    · exact ⟨_, within, .inr rfl⟩
  obtain ⟨o', within, result⟩ := looked
  rcases runs_within RootScope.enter_only RootScope.leave_only within with ⟨f, entering, rfl⟩ |
    ⟨scope, s₁, s₂, front, mid, back, inner, entering, body, leaving, rfl, rfl⟩
  all_goals
    obtain ⟨rfl, replied, rfl⟩ := RootScope.enter_replies entering
    rcases hm.obeys (.setFsuid 0) s with ⟨f', reply, standing⟩ | ⟨reply, standing⟩ <;>
      rw [reply] at replied <;> cases replied
  · refine .inl ⟨f, reply, standing, rfl, ?_⟩
    rcases result with ⟨f', eq, rfl⟩ | eq
    · cases eq
      rfl
    · cases o <;> simp [Outcome.map] at eq
  · have same : o = inner := by
      rcases result with ⟨f', eq, -⟩ | eq
      · cases inner <;> simp [Outcome.map] at eq
      · exact (Outcome.map_ok_injective eq).symm
    subst same
    obtain ⟨made, outcome⟩ := firstExisting_exact body
    have neutral : (firstExisting p p.ancestors 0).run.Only (·.isNeutral) True := by
      refine (firstExisting_only p p.ancestors 0).mono (fun c hc => ?_) id
      obtain ⟨q, -, rfl⟩ := hc
      rfl
    have looked : v.standing s₂ = (v.standing s).withFsuid 0 :=
      (hm.standing_of_only neutral body).1.trans standing
    have switched : (m (.setFsuid 0) s).1.isOk := by
      rw [reply]
      rfl
    refine .inr ⟨s₂, back, switched, standing, looked, RootScope.leave_exact hm leaving,
      by rw [made]; rfl, ?_⟩
    rcases outcome with none | ⟨q, w, first, rfl⟩
    · exact .inl none
    · refine .inr ⟨q, _, ⟨switched, w, first, rfl⟩, ?_⟩
      rw [Nat.zero_add]
      rfl

theorem run_searchRun (hm : Honest m v) {user : String} {primary : UInt32} {p : Path} {s t : σ}
    {calls : List (Moment σ)} {o : Outcome (Except GroupSearchError GroupMatch)}
    (h : (GroupSearch.run user primary p).run.Runs m s calls o t) :
    SearchRun m v user primary p s t calls o := by
  have roots {s' : σ} (standing : v.standing s' = (v.standing s).withFsuid 0) :
      ∀ e ∈ lookAll m p.ancestors s', v.standing e.state = (v.standing s).withFsuid 0 :=
    fun e he => (lookAll_standing hm _ _ e he).trans standing
  rcases runs_attempt.mp h with ⟨found, s₁, front, rest, nearest, asking, rfl⟩ |
    ⟨e, nearest, rfl⟩ | ⟨reason, nearest, rfl⟩
  all_goals
    rcases nearestExisting_exact hm nearest with ⟨f, failed, standing, calls_eq, ho⟩ |
      ⟨u, back, switched, standing, looked, wentBack, calls_eq, result⟩
  · simp at ho
  · rcases result with ⟨-, ho⟩ | ⟨q, (f | stat) | reason, saw, ho⟩ <;> cases ho
    obtain ⟨last, rfl, deciding⟩ := runs_ask_bind.mp asking
    have decided : t = (m (.listGroups user primary) s₁).2 ∧
        Result m user primary p s s₁ (⟨.listGroups user primary, s₁⟩ :: last) o := by
      rcases listed : (m (.listGroups user primary) s₁).1 with f | groups <;> rw [listed] at deciding
      · obtain ⟨rfl, rfl, rfl⟩ := runs_done.mp deciding
        exact ⟨rfl, .unlisted saw listed⟩
      · dsimp only at deciding
        split at deciding
        next member =>
          obtain ⟨rfl, rfl, rfl⟩ := runs_done.mp deciding
          exact ⟨rfl, .found saw listed member⟩
        next other =>
          obtain ⟨rfl, rfl, rfl⟩ := runs_done.mp deciding
          exact ⟨rfl, .other saw listed other⟩
    obtain ⟨rfl, decided⟩ := decided
    rw [calls_eq, List.cons_append, List.append_assoc]
    exact .searched switched (roots standing) looked wentBack (hm.standing_of_neutral rfl _) decided
  · cases ho
    rw [calls_eq]
    exact .refused failed standing
  · rw [calls_eq, ← List.append_nil back]
    refine .searched switched (roots standing) looked wentBack rfl ?_
    rcases result with ⟨none, ho⟩ | ⟨q, (f | stat) | reason, saw, ho⟩ <;> cases ho
    · exact .nothing none
    · exact .failed saw
  · simp at ho
  · rw [calls_eq, ← List.append_nil back]
    refine .searched switched (roots standing) looked wentBack rfl ?_
    rcases result with ⟨none, ho⟩ | ⟨q, (f | stat) | reason, saw, ho⟩ <;> cases ho
    exact .crashed saw

end GroupSearch

end Impersonation
