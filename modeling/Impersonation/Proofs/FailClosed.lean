import Impersonation.Proofs.Admission
import Impersonation.Proofs.Plan

namespace Impersonation

open Program

namespace Client

/-- The name a client goes by: the one its request names, or else its own. An empty name is none. -/
def GoesBy (c : Client) (name : String) : Prop :=
  name ≠ "" ∧ (c.attribute? requestName = some name ∨
    (c.attribute? requestName = none ∨ c.attribute? requestName = some "") ∧ c.name = some name)

/-- A client without a name to go by, or with a certificate that no user is known for. -/
def IsNobody (c : Client) : Prop :=
  (∀ name, ¬ c.GoesBy name) ∨
    c.protocol = "gsi" ∧ c.vorg = none ∧ c.attribute? gridmapName ≠ some "1"

theorem usableName?_eq_some_iff {c : Client} {name : String} :
    c.usableName? = some name ↔ c.GoesBy name := by
  have empty : (c.attribute? requestName).filter (· ≠ "") = none ↔
      c.attribute? requestName = none ∨ c.attribute? requestName = some "" := by
    cases c.attribute? requestName with
    | none => simp
    | some named => simp [Option.filter]
  simp only [usableName?, GoesBy, Option.or_eq_some_iff, empty, Option.filter_eq_some_iff,
    decide_eq_true_eq]
  constructor
  · rintro (⟨named, ne⟩ | ⟨unnamed, own, ne⟩)
    · exact ⟨ne, .inl named⟩
    · exact ⟨ne, .inr ⟨unnamed, own⟩⟩
  · rintro ⟨ne, named | ⟨unnamed, own⟩⟩
    · exact .inl ⟨named, ne⟩
    · exact .inr ⟨unnamed, own, ne⟩

theorem principal_eq_anonymous_iff {c : Client} : c.principal = .anonymous ↔ c.IsNobody := by
  have nameless : c.usableName? = none ↔ ∀ name, ¬ c.GoesBy name := by
    simp only [← usableName?_eq_some_iff]
    exact Option.eq_none_iff_forall_ne_some
  have unmapped : (!c.isMapped) = true ↔ c.vorg = none ∧ c.attribute? gridmapName ≠ some "1" := by
    simp [isMapped]
  rw [IsNobody, ← nameless, principal]
  cases c.usableName? with
  | none => simp
  | some name => simp [unmapped]

theorem principal_eq_user_iff {c : Client} {name : String} :
    c.principal = .user name ↔ c.GoesBy name ∧ ¬ c.IsNobody := by
  rw [← usableName?_eq_some_iff, ← principal_eq_anonymous_iff]
  constructor
  · intro h
    exact ⟨principal_eq_user h, by simp [h]⟩
  · rintro ⟨named, somebody⟩
    cases hp : c.principal with
    | anonymous => exact absurd hp somebody
    | user name' =>
      have := principal_eq_user hp
      rw [named] at this
      rw [Option.some.inj this]

end Client

variable {σ : Type} {m : Machine σ} {v : View σ}

/-- The request of a client that is nobody: denied on a thread with a mark, else carried out once with
the ids that the thread has. -/
theorem Gateway.handleAnonymous_run (hm : Honest m v) {r : Request} {s t : σ}
    {calls : List (Moment σ)} {o : Outcome Response} (h : (handleAnonymous r).Runs m s calls o t) :
    (v.standing s).flags ≠ {} ∧ o = .finished .denied ∧
        (∀ e ∈ calls, e.call.isStorage = false ∧ e.call ≠ .setActive true) ∨
      (v.standing s).flags = {} ∧ ∃ front s₁ back, calls = front ++ (⟨.perform r, s₁⟩ :: back) ∧
        (∀ e ∈ front, e.call.isStorage = false) ∧ (∀ e ∈ back, e.call.isStorage = false) ∧
        (v.standing s₁).ids = (v.standing s).ids ∧ o = (m (.perform r) s₁).1 := by
  have refused {e : IdentityError} (ho : o = .finished .denied)
      (h : IdentityScope.enterAnonymous.run.Runs m s calls (.finished (.error e)) t) :
      (v.standing s).flags ≠ {} ∧ o = .finished .denied ∧
        ∀ e ∈ calls, e.call.isStorage = false ∧ e.call ≠ .setActive true := by
    rcases IdentityScope.enterAnonymous_run hm h with ⟨_, -, marked, -, quiet⟩ | ⟨_, _, h, -⟩
    · exact ⟨marked, ho, fun e he => ⟨Call.not_isStorage_of_isQuiet (quiet e he),
        Call.ne_setActive (.inl (quiet e he))⟩⟩
    · simp at h
  rcases runs_respond h with ⟨e, ho, hwithin⟩ | hwithin
  · rcases runs_within IdentityScope.enterAnonymous_only IdentityScope.leave_only hwithin with
      ⟨_, henter, -⟩ | ⟨_, _, _, _, _, _, inner, -, -, -, -, h⟩
    · exact .inl (refused ho henter)
    · cases inner <;> simp [Outcome.map] at h
  · rcases runs_within IdentityScope.enterAnonymous_only IdentityScope.leave_only hwithin with
      ⟨_, -, h⟩ | ⟨scope, s₁, s₂, front, mid, back, inner, henter, hbody, hleave, rfl, h⟩
    · cases o <;> simp [Outcome.map] at h
    · rcases IdentityScope.enterAnonymous_run hm henter with ⟨_, h, -⟩ |
        ⟨_, _, -, unmarked, standing, -, -⟩
      · simp at h
      · obtain ⟨rfl, rfl, -⟩ := runs_perform.mp hbody
        refine .inr ⟨unmarked, front, s₁, back, rfl, ?_, ?_, ?_, Outcome.map_ok_injective h⟩
        · exact henter.only IdentityScope.enterAnonymous_only
        · exact hleave.only (IdentityScope.leave_only scope)
        · rw [standing]
          rfl

def Switched (m : Machine σ) (before : List (Moment σ)) : Prop :=
  ∃ e ∈ before, e.call.isSwitch ∧ e.succeeds m

theorem Switched.each {before : List (Moment σ)} (h : Switched m before)
    (calls : List (Moment σ)) :
    Each (fun front e => e.call.isStorage → Switched m front) before calls := by
  intro front e back _ _
  obtain ⟨switch, he, hs⟩ := h
  exact ⟨switch, List.mem_append_left _ he, hs⟩

/-- Before a request is tried for a user the thread takes on the user's identity, and nothing is asked
of the storage until then. -/
theorem Gateway.TriedFor.opened (hm : Honest m v) {c : Config} {user : String} {i : Identity}
    {r : Request} {s t : σ} {calls : List (Moment σ)} {o : Outcome Response}
    (h : TriedFor m v c user i r s t calls o) :
    (v.standing s).flags = {} ∧ IdentityScope.Admitted m i calls ∧
      Each (fun before e => e.call.isStorage → Switched m before) [] calls := by
  obtain @⟨c₀, c₁, c₂, s₁, s₂, _, _, quiet, -, same, scope, -⟩ := h
  obtain @⟨_, front, mid, back, _, _, _, _, entering, -, -⟩ := scope
  obtain ⟨_, hr, entered⟩ := IdentityScope.enter_run hm entering
  cases hr
  have admitted := IdentityScope.enter_admitted entering
  refine ⟨?_, admitted.mono fun e he => by simp [he], ?_⟩
  · rw [← same]
    cases entered with
    | entered _ unmarked => exact unmarked
  · have switched : Switched m ([] ++ c₀ ++ front) := by
      obtain ⟨s₃, he, ok⟩ := admitted.fsuid
      exact ⟨_, List.mem_append_right _ he, rfl, ok⟩
    have idle₀ : Each (fun before e => e.call.isStorage → Switched m before) [] c₀ :=
      .of_idle fun e he => Call.not_isStorage_of_isQuiet (quiet e he)
    have idle : Each (fun before e => e.call.isStorage → Switched m before) ([] ++ c₀) front :=
      .of_idle (entering.only (IdentityScope.enter_only i))
    rw [List.append_assoc]
    exact idle₀.append (idle.append (switched.each _))

/-- A request of a client runs in one of three ways: with the thread's own ids, exactly once, for a
client that is nobody and on a thread without a mark; or it is denied, no scope is opened and the
storage is not called; or it runs for the user whom the client goes by, who was found in the
directory and let through by the settings, and each call to the storage is made with ids that were
taken on for it. -/
theorem Gateway.handle_failsClosed (hm : Honest m v) {g : Gateway} {e : Envelope} {r : Request}
    {s t : σ} {calls : List (Moment σ)} {o : Outcome Response}
    (h : (g.handle (some e) r).Runs m s calls o t) :
    ((∃ c, e.client = some c ∧ c.IsNobody) ∧ (v.standing s).flags = {} ∧
      ∃ s₁, calls.filter (·.call.isStorage) = [⟨.perform (g.adjust r), s₁⟩] ∧
        (v.standing s₁).ids = (v.standing s).ids ∧ o = (m (.perform (g.adjust r)) s₁).1) ∨
    (¬ ((∃ c, e.client = some c ∧ c.IsNobody) ∧ (v.standing s).flags = {}) ∧
      o = .finished .denied ∧ calls.filter (·.call.isStorage) = [] ∧
      ∀ e ∈ calls, e.call ≠ .setActive true) ∨
    ∃ c name i, e.client = some c ∧ c.GoesBy name ∧ ¬ c.IsNobody ∧ (v.standing s).flags = {} ∧
      Identity.Resolved m g.config name calls i ∧ IdentityScope.Admitted m i calls ∧
      Each (fun before e => e.call.isStorage →
        Switched m before ∧ MadeFor m v name i (g.adjust r) before e) [] calls := by
  have none_of {es : List (Moment σ)} (idle : ∀ e ∈ es, e.call.isStorage = false) :
      es.filter (·.call.isStorage) = [] :=
    List.filter_eq_nil_iff.mpr fun e he => by simp [idle e he]
  obtain ⟨_ | c⟩ := e
  · obtain ⟨rfl, rfl, rfl⟩ := runs_pure.mp h
    exact .inr (.inl ⟨by simp, rfl, rfl, by simp⟩)
  cases hp : c.principal with
  | anonymous =>
    have nobody := Client.principal_eq_anonymous_iff.mp hp
    have handled : g.handle (some ⟨some c⟩) r = handleAnonymous (g.adjust r) := by
      simp [handle, Envelope.principal, hp]
    rw [handled] at h
    rcases handleAnonymous_run hm h with ⟨marked, rfl, idle⟩ |
      ⟨unmarked, front, s₁, back, rfl, before, after, ids, ho⟩
    · refine .inr (.inl ⟨fun own => marked own.2, rfl, none_of fun e he => (idle e he).1,
        fun e he => (idle e he).2⟩)
    · refine .inl ⟨⟨c, rfl, nobody⟩, unmarked, s₁, ?_, ids, ho⟩
      rw [List.filter_append, none_of before, List.filter_cons_of_pos rfl, none_of after]
      rfl
  | user name =>
    obtain ⟨named, somebody⟩ := Client.principal_eq_user_iff.mp hp
    have handled : g.handle (some ⟨some c⟩) r = g.handleUser name (g.adjust r) := by
      simp [handle, Envelope.principal, hp]
    rw [handled] at h
    rcases handleUser_run hm h with ⟨rfl, idle⟩ | ⟨i, tried⟩
    · refine .inr (.inl ⟨?_, rfl, none_of fun e he => (idle e he).1, fun e he => (idle e he).2⟩)
      rintro ⟨⟨c', hc, nobody⟩, -⟩
      cases hc
      exact somebody nobody
    · obtain ⟨unmarked, admitted, switched⟩ := tried.opened hm
      refine .inr (.inr ⟨c, name, i, rfl, named, somebody, unmarked, tried.resolved, admitted, ?_⟩)
      exact (switched.and (tried.each hm).1).mono fun _ _ h hc => ⟨h.1 hc, h.2 hc⟩

/-- A client whose certificate was not mapped to a user, although it goes by a name. -/
def unmappedClient : Client where
  protocol := "gsi"
  name := some "alice"
  attributes := [("request.name", ""), ("gridmap.name", "0")]

theorem Gateway.handle_failsClosed_unmapped :
    let start : Station × Plan := (⟨{ simulated := { ids := ⟨3, 4, [5]⟩ } }, {}⟩, [])
    let x := Gateway.handle ⟨{}⟩ (some ⟨some unmappedClient⟩) (.stat .root)
    let calls := x.trace Station.answer.planned start
    unmappedClient.GoesBy "alice" ∧ (Station.view.standing start.1).flags = {} ∧
      ∃ s₁, calls.filter (·.call.isStorage) = [⟨.perform (.stat .root), s₁⟩] ∧
        s₁.1.ids = ⟨3, 4, [5]⟩ ∧
        (x.run Station.answer.planned start).1 =
          (Station.answer.planned (.perform (.stat .root)) s₁).1 := by
  intro start x calls
  have named : unmappedClient.GoesBy "alice" := by
    unfold Client.GoesBy
    decide +kernel
  have nobody : unmappedClient.IsNobody := .inr (by decide +kernel)
  rcases handle_failsClosed Station.honest.planned (runs_self Station.answer.planned x start) with
    ⟨-, unmarked, s₁, once, ids, answer⟩ | ⟨other, -⟩ | ⟨c, _, _, hc, -, somebody, -⟩
  · exact ⟨named, unmarked, s₁, once, ids, answer⟩
  · exact absurd ⟨⟨_, rfl, nobody⟩, rfl⟩ other
  · cases hc
    exact absurd nobody somebody

end Impersonation
