import Impersonation.Proofs.Restoration
import Impersonation.Proofs.Search

namespace Impersonation

open Program

variable {σ : Type} {m : Machine σ} {v : View σ}

theorem RootScope.enter_replies {s t : σ} {calls : List (Moment σ)}
    {o : Outcome (Except Fault RootScope)} (h : enter.run.Runs m s calls o t) :
    calls = [⟨.setFsuid 0, s⟩] ∧ o = .finished ((m (.setFsuid 0) s).1.map mk) ∧
      t = (m (.setFsuid 0) s).2 := by
  obtain ⟨_, rfl, h₁⟩ := runs_call.mp h
  rcases hr : (m (.setFsuid 0) s).1 with f | uid <;> rw [hr] at h₁ <;>
    obtain ⟨rfl, rfl, rfl⟩ := runs_done.mp h₁ <;> exact ⟨rfl, rfl, rfl⟩

/-- A request with user id 0: the thread cannot take on the id, or the request is made right then. -/
theorem RootScope.within_perform_run {r : Request} {s t : σ} {calls : List (Moment σ)}
    {o : Outcome (Except Fault Response)} (h : (within (perform r)).run.Runs m s calls o t) :
    (∃ f, (m (.setFsuid 0) s).1 = .error f ∧ calls = [⟨.setFsuid 0, s⟩] ∧
      o = .finished (.error f)) ∨
    ∃ uid back, (m (.setFsuid 0) s).1 = .ok uid ∧
      calls = ⟨.setFsuid 0, s⟩ :: ⟨.perform r, (m (.setFsuid 0) s).2⟩ :: back ∧
      (∀ e ∈ back, e.call.isStanding) ∧ o = (m (.perform r) (m (.setFsuid 0) s).2).1.map .ok := by
  rcases runs_within enter_standing leave_standing h with ⟨f, entering, rfl⟩ |
    ⟨scope, s₁, s₂, front, mid, back, inner, entering, body, leaving, rfl, rfl⟩
  · obtain ⟨rfl, ho, -⟩ := enter_replies entering
    rcases hr : (m (.setFsuid 0) s).1 with f' | uid <;> rw [hr] at ho <;> cases ho
    exact .inl ⟨f, rfl, rfl, rfl⟩
  · obtain ⟨rfl, ho, rfl⟩ := enter_replies entering
    obtain ⟨rfl, rfl, -⟩ := runs_perform.mp body
    rcases hr : (m (.setFsuid 0) s).1 with f' | uid <;> rw [hr] at ho <;> cases ho
    exact .inr ⟨uid, back, rfl, rfl, leaving.only (leave_standing _), rfl⟩

namespace Gateway

def overrides (g : Gateway) (r : Request) : Bool :=
  g.config.clusterManager && r.isStat

def internalIds (g : Gateway) (r : Request) (ids : Ids) : Ids :=
  if g.overrides r then { ids with fsuid := 0 } else ids

theorem overrides_adjust (g : Gateway) (r : Request) : g.overrides (g.adjust r) = g.overrides r := by
  cases r <;> rfl

/-- A request of the daemon goes as the thread is, or with user id 0, or the thread could not take on
that id and nothing else is tried. -/
inductive InternalRun (m : Machine σ) (g : Gateway) (r : Request) (s : σ) :
    List (Moment σ) → Outcome Response → Prop where
  | plain (own : g.overrides r = false) : InternalRun m g r s [⟨.perform r, s⟩] (m (.perform r) s).1
  | override {uid : UInt32} {back : List (Moment σ)} (root : g.overrides r = true)
      (switched : (m (.setFsuid 0) s).1 = .ok uid) (after : ∀ e ∈ back, e.call.isStanding) :
      InternalRun m g r s (⟨.setFsuid 0, s⟩ :: ⟨.perform r, (m (.setFsuid 0) s).2⟩ :: back)
        (m (.perform r) (m (.setFsuid 0) s).2).1
  | refused {f : Fault} (root : g.overrides r = true) (failed : (m (.setFsuid 0) s).1 = .error f) :
      InternalRun m g r s [⟨.setFsuid 0, s⟩] (.finished (.ofFault f))

variable {g : Gateway} {r : Request} {s t : σ} {calls : List (Moment σ)} {o : Outcome Response}

theorem handleInternal_run (h : (g.handleInternal r).Runs m s calls o t) :
    InternalRun m g r s calls o := by
  unfold handleInternal at h
  split at h
  next root =>
    rcases runs_bind.mp h with ⟨result, s₁, front, back, within, last, rfl⟩ | ⟨reason, within, rfl⟩
    · rcases RootScope.within_perform_run within with ⟨f, failed, rfl, ho⟩ |
        ⟨uid, back', switched, rfl, after, ho⟩
      · cases ho
        obtain ⟨rfl, rfl, -⟩ := runs_done.mp last
        exact .refused root failed
      · rcases answer : (m (.perform r) (m (.setFsuid 0) s).2).1 with response | reason <;>
          rw [answer] at ho <;> cases ho
        obtain ⟨rfl, rfl, -⟩ := runs_done.mp last
        rw [List.append_nil, ← answer]
        exact .override root switched after
    · rcases RootScope.within_perform_run within with ⟨f, failed, rfl, ho⟩ |
        ⟨uid, back', switched, rfl, after, ho⟩
      · simp at ho
      · rcases answer : (m (.perform r) (m (.setFsuid 0) s).2).1 with response | reason <;>
          rw [answer] at ho <;> cases ho
        rw [← answer]
        exact .override root switched after
  next own =>
    obtain ⟨rfl, rfl, -⟩ := runs_perform.mp h
    exact .plain (by simpa [overrides] using own)

/-- The storage is asked once, with the ids of the daemon's request, or the request is refused. -/
theorem InternalRun.storage (hm : Honest m v) (h : InternalRun m g r s calls o) :
    (∃ s₁, calls.filter (·.call.isStorage) = [⟨.perform r, s₁⟩] ∧ o = (m (.perform r) s₁).1 ∧
      (v.standing s₁).ids = g.internalIds r (v.standing s).ids) ∨
    calls.filter (·.call.isStorage) = [] ∧ ∃ f, o = .finished (.ofFault f) := by
  cases h with
  | plain own =>
    refine .inl ⟨s, rfl, rfl, ?_⟩
    rw [internalIds, own]
    rfl
  | @override uid back root switched after =>
    have idle : back.filter (·.call.isStorage) = [] :=
      List.filter_eq_nil_iff.mpr fun e he => by simp [Call.not_isStorage_of_isStanding (after e he)]
    refine .inl ⟨(m (.setFsuid 0) s).2, ?_, rfl, ?_⟩
    · rw [List.filter_cons_of_neg (by simp [Call.isStorage]), List.filter_cons_of_pos rfl, idle]
    · rcases hm.obeys (.setFsuid 0) s with ⟨f, failed, -⟩ | ⟨-, standing⟩
      · simp [switched] at failed
      · rw [standing, internalIds, root]
        rfl
  | refused root failed => exact .inr ⟨rfl, _, rfl⟩

end Gateway

namespace Course

theorem scopes_handles (m : Machine σ) (tasks : List (Gateway × Option Envelope × Request))
    (c : Course σ) :
    (c.moves m (tasks.map fun k => .handle k.1 k.2.1 k.2.2)).scopes = c.scopes := by
  induction tasks generalizing c with
  | nil => rfl
  | cons k rest ih => exact ih (c.move m (.handle k.1 k.2.1 k.2.2))

/-- After requests of any kind on a thread that started without a mark: a request of the daemon asks
the storage once, with the thread's ids or with user id 0, or it is refused and does not ask. The ids
are those that the thread started with, unless the thread is poisoned, which it is only where ids
could not be put back. -/
theorem internal_ids (hm : Honest m v) {s : σ} (unmarked : (v.standing s).flags = {})
    (tasks : List (Gateway × Option Envelope × Request)) :
    let c := Course.moves m { state := s } (tasks.map fun k => .handle k.1 k.2.1 k.2.2)
    let base := (v.standing s).ids
    let now := v.standing c.state
    (∀ (g : Gateway) r calls o t, (g.handle none r).Runs m c.state calls o t →
      (∃ s₁, calls.filter (·.call.isStorage) = [⟨.perform (g.adjust r), s₁⟩] ∧
        o = (m (.perform (g.adjust r)) s₁).1 ∧
        (v.standing s₁).ids = g.internalIds r now.ids ∧
        (now.flags.poisoned = false →
          (v.standing s₁).ids.fsuid = (if g.overrides r then 0 else base.fsuid) ∧
            (v.standing s₁).ids.fsgid = base.fsgid)) ∨
      calls.filter (·.call.isStorage) = [] ∧ ∃ f, o = .finished (.ofFault f)) ∧
    (now.flags.poisoned = true → ∃ front e back, c.log = front ++ e :: back ∧ e.Poisons m v ∧
      FailedRestoration m front) := by
  intro c base now
  have sound : c.Sound m v (v.standing s) := (Sound.start unmarked).moves hm _
  have closed : c.scopes = [] := scopes_handles m tasks _
  constructor
  · intro g r calls o t h
    rcases (Gateway.handleInternal_run h).storage hm with ⟨s₁, asked, ho, ids⟩ | refused
    · rw [Gateway.internalIds, g.overrides_adjust] at ids
      refine .inl ⟨s₁, asked, ho, ids, fun clean => ?_⟩
      rw [ids]
      rcases sound.restored closed clean with same | cleared
      · rw [same]
        split <;> exact ⟨rfl, rfl⟩
      · rw [cleared]
        split <;> exact ⟨rfl, rfl⟩
    · exact .inr refused
  · intro poisoned
    obtain ⟨e, he, hp⟩ := sound.reason poisoned
    obtain ⟨front, back, split⟩ := List.append_of_mem he
    exact ⟨front, e, back, split, hp, sound.justified front e back split (hp.call_eq hm)⟩

def daemonStart : Station :=
  { thread := { simulated := { ids := ⟨5, 6, [9]⟩ } },
    site := { users := .directory (Directory.add {} "alice" 1001 900 [800]) } }

def aliceStat : Gateway × Option Envelope × Request :=
  (⟨{}⟩, some ⟨some { protocol := "ztn", name := some "alice" }⟩, .stat .root)

/-- After the client is served the daemon has its ids back for a request of its own. -/
theorem internal_ids_back :
    let c := Course.moves Station.answer { state := daemonStart }
      ([aliceStat].map fun k => .handle k.1 k.2.1 k.2.2)
    let calls := (Gateway.handle ⟨{}⟩ none (.create (.ofString "/journal") 0o600)).trace
      Station.answer c.state
    ((Station.view.standing daemonStart).flags = {} ∧ c.state.thread.flags.poisoned = false) ∧
    ∃ s₁, calls.filter (·.call.isStorage) = [⟨.perform (.create (.ofString "/journal") 0o600), s₁⟩] ∧
      s₁.ids.fsuid = 5 ∧ s₁.ids.fsgid = 6 := by
  intro c calls
  have unmarked : (Station.view.standing daemonStart).flags = {} := rfl
  have clean : c.state.thread.flags.poisoned = false := by decide +kernel
  refine ⟨⟨unmarked, clean⟩, ?_⟩
  rcases (internal_ids Station.honest unmarked [aliceStat]).1 ⟨{}⟩
    (.create (.ofString "/journal") 0o600) _ _ _ (runs_self Station.answer _ _) with
      ⟨s₁, asked, -, -, ids⟩ | ⟨none, -⟩
  · exact ⟨s₁, asked, ids clean⟩
  · cases none

/-- A thread that cannot take the daemon's user id back. -/
def lostStart : Station :=
  { daemonStart with thread := { simulated := { ids := ⟨0, 0, []⟩, refusedUid := some 0 } } }

/-- The daemon's next request creates its file as the client. -/
theorem internal_ids_lost :
    let c := Course.moves Station.answer { state := lostStart }
      ([aliceStat].map fun k => .handle k.1 k.2.1 k.2.2)
    let calls := (Gateway.handle ⟨{}⟩ none (.create (.ofString "/journal") 0o600)).trace
      Station.answer c.state
    (Station.view.standing lostStart).flags = {} ∧ lostStart.ids.fsuid = 0 ∧
      calls.map (·.call) = [.perform (.create (.ofString "/journal") 0o600)] ∧
      calls.map (·.state.ids.fsuid) = [1001] := by
  decide +kernel

end Course

end Impersonation
