import Impersonation.Proofs.Plan
import Impersonation.Proofs.Scoped

namespace Impersonation

open Program

structure Work where
  program : Program Unit
  byScopes : Scoped program

inductive Move where
  | handle (g : Gateway) (e : Option Envelope) (r : Request)
  | resolve (user : String) (primary : UInt32) (p : Path)
  | within (entry : Entry) (w : Work)
  | withinRoot (w : Work)
  | enter (entry : Entry)
  | enterRoot
  /-- Leaves the scope that was opened last. -/
  | leave

/-- Where a thread has come to: the scopes it has open, the last one first, and all calls so far. -/
structure Course (σ : Type) where
  state : σ
  scopes : List OpenScope := []
  log : List (Moment σ) := []

namespace Course

variable {σ : Type}

def run {α : Type} (m : Machine σ) (x : Program α) (c : Course σ) : Course σ :=
  { c with state := (x.run m c.state).2, log := c.log ++ x.trace m c.state }

def opening {ε S : Type} (m : Machine σ) (toOpen : S → OpenScope) (x : Attempt ε S)
    (c : Course σ) : Course σ :=
  match (x.run.run m c.state).1 with
  | .finished (.ok scope) => { c.run m x.run with scopes := toOpen scope :: c.scopes }
  | _ => c.run m x.run

def move (m : Machine σ) (c : Course σ) : Move → Course σ
  | .handle g e r => c.run m (g.handle e r)
  | .resolve user primary p => c.run m (GroupSearch.run user primary p).run
  | .within entry w => c.run m (IdentityScope.within entry.attempt w.program).run
  | .withinRoot w => c.run m (RootScope.within w.program).run
  | .enter entry => c.opening m .identity entry.attempt
  | .enterRoot => c.opening m .root RootScope.enter
  | .leave =>
    match c.scopes with
    | [] => c
    | scope :: rest => { c.run m scope.leave with scopes := rest }

def moves (m : Machine σ) (c : Course σ) (ms : List Move) : Course σ :=
  ms.foldl (move m) c

end Course

/-- The standing after all open scopes are left, if nothing fails. -/
def unwind (scopes : List OpenScope) (w : Standing) : Standing :=
  scopes.foldl (fun w scope => scope.after w) w

theorem unwind_intact (scopes : List OpenScope) {w w' : Standing} (h : w.Intact w') :
    (unwind scopes w).Intact (unwind scopes w') := by
  induction scopes generalizing w w' with
  | nil => exact h
  | cons scope rest ih => exact ih (OpenScope.intact_after h)

variable {σ : Type} {m : Machine σ} {v : View σ}

def Moment.Poisons (m : Machine σ) (v : View σ) (e : Moment σ) : Prop :=
  (v.standing e.state).flags.poisoned = false ∧
    (v.standing (m e.call e.state).2).flags.poisoned = true

theorem Honest.poisoned_of_ne (hm : Honest m v) {c : Call} (hc : c ≠ .poison) {s : σ} :
    (v.standing (m c s).2).flags.poisoned = (v.standing s).flags.poisoned := by
  have law := hm.obeys c s
  cases c with
  | poison => exact absurd rfl hc
  | setActive on =>
    rw [law]
    rfl
  | setFsuid _ | setFsgid _ | setGroups _ => rw [hm.flags_of_switch rfl]
  | _ => rw [hm.standing_of_neutral rfl]

theorem Moment.Poisons.call_eq (hm : Honest m v) {e : Moment σ} (h : e.Poisons m v) :
    e.call = .poison := by
  obtain ⟨before, after⟩ := h
  by_cases hc : e.call = .poison
  · exact hc
  · rw [hm.poisoned_of_ne hc, before] at after
    simp at after

/-- A thread that a run leaves poisoned was so before, or one of the calls poisoned it. -/
theorem Program.Runs.poisons {α : Type} {x : Program α} {s t : σ} {calls : List (Moment σ)}
    {o : Outcome α} (h : x.Runs m s calls o t)
    (poisoned : (v.standing t).flags.poisoned = true) :
    (v.standing s).flags.poisoned = true ∨ ∃ e ∈ calls, e.Poisons m v := by
  by_cases before : (v.standing s).flags.poisoned = true
  · exact .inl before
  by_cases called : ∃ e ∈ calls, e.Poisons m v
  · exact .inr called
  have clean := (h.invariant (I := fun u => (v.standing u).flags.poisoned = false)
    (fun e he clean => ?_) (by simpa using before)).1
  · simp [clean] at poisoned
  · rw [← Bool.not_eq_true]
    exact fun hp => called ⟨e, he, clean, hp⟩

/-- What holds of a thread between its moves: leaving all open scopes would bring back the standing
`base`, and each poisoning had a reason. -/
structure Course.Sound (m : Machine σ) (v : View σ) (base : Standing) (c : Course σ) : Prop where
  intact : base.Intact (unwind c.scopes (v.standing c.state))
  kept : ∀ scope ∈ c.scopes, scope.Kept m c.log
  justified : Justified m [] c.log
  reason : (v.standing c.state).flags.poisoned = true → ∃ e ∈ c.log, e.Poisons m v

namespace Course

variable {base : Standing} {c : Course σ}

theorem Sound.start {s : σ} (unmarked : (v.standing s).flags = {}) :
    Sound m v (v.standing s) { state := s } where
  intact := .refl _
  kept := by simp
  justified := .of_unpoisoned (by simp)
  reason := by simp [unmarked]

theorem Sound.reason_append (h : c.Sound m v base) {α : Type} {x : Program α} {t : σ}
    {calls : List (Moment σ)} {o : Outcome α} (run : x.Runs m c.state calls o t)
    (poisoned : (v.standing t).flags.poisoned = true) :
    ∃ e ∈ c.log ++ calls, e.Poisons m v := by
  rcases run.poisons poisoned with before | ⟨e, he, hp⟩
  · obtain ⟨e, he, hp⟩ := h.reason before
    exact ⟨e, List.mem_append_left _ he, hp⟩
  · exact ⟨e, List.mem_append_right _ he, hp⟩

theorem Sound.kept_append (h : c.Sound m v base) (calls : List (Moment σ)) :
    ∀ scope ∈ c.scopes, scope.Kept m (c.log ++ calls) :=
  fun scope hs => (h.kept scope hs).mono (List.subset_append_left _ _)

theorem Sound.run (h : c.Sound m v base) {α : Type} {x : Program α}
    (tidy : Tidy m v c.state (x.trace m c.state) (x.run m c.state).2) :
    (c.run m x).Sound m v base where
  intact := h.intact.trans (unwind_intact c.scopes tidy.intact)
  kept := h.kept_append _
  justified := h.justified.append (by simpa using tidy.justified.after c.log)
  reason := h.reason_append (runs_self m x c.state)

theorem Sound.opening (h : c.Sound m v base) {ε S : Type} {toOpen : S → OpenScope}
    {x : Attempt ε S}
    (opens : OpensOrTidy m v toOpen c.state (x.run.trace m c.state) (x.run.run m c.state).1
      (x.run.run m c.state).2) :
    (c.opening m toOpen x).Sound m v base := by
  unfold Course.opening
  rcases opens with ⟨e, outcome, tidy⟩ | ⟨scope, outcome, opened⟩
  · rw [outcome]
    exact h.run tidy
  · rw [outcome]
    refine ⟨h.intact.trans (unwind_intact c.scopes opened.after), fun scope' hs => ?_, ?_,
      h.reason_append (runs_self m x.run c.state)⟩
    · rcases List.mem_cons.mp hs with rfl | hs
      · exact opened.kept.mono (List.subset_append_right _ _)
      · exact h.kept_append _ scope' hs
    · exact h.justified.append (.of_unpoisoned opened.unpoisoned)

theorem Sound.leave (hm : Honest m v) (h : c.Sound m v base) {scope : OpenScope}
    {rest : List OpenScope} (hc : c.scopes = scope :: rest) :
    Sound m v base { c.run m scope.leave with scopes := rest } := by
  have kept := h.kept
  have intact := h.intact
  rw [hc] at kept intact
  have left := runs_self m scope.leave c.state
  -- What the scope puts back was replaced when it was opened, and that call is in the log still.
  obtain ⟨back, justified⟩ := scope.leave_run hm (kept scope List.mem_cons_self) left
  refine ⟨intact.trans (unwind_intact rest back), fun scope' hs => ?_, h.justified.append justified,
    h.reason_append left⟩
  exact h.kept_append _ scope' (hc ▸ List.mem_cons_of_mem scope hs)

theorem Sound.move (hm : Honest m v) (h : c.Sound m v base) (next : Move) :
    (c.move m next).Sound m v base := by
  have ran {α : Type} {x : Program α} (hx : Scoped x) : (c.run m x).Sound m v base :=
    h.run (hx.tidy hm (runs_self m x c.state))
  cases next with
  | handle g e r => exact ran (g.handle_scoped e r)
  | resolve user primary p => exact ran (GroupSearch.run_scoped user primary p)
  | within entry w => exact ran (.identity entry w.byScopes)
  | withinRoot w => exact ran (.root w.byScopes)
  | enter entry => exact h.opening (Entry.attempt_opens hm (runs_self m _ c.state))
  | enterRoot => exact h.opening (RootScope.enter_opens hm (runs_self m _ c.state))
  | leave =>
    unfold Course.move
    dsimp only
    split
    next => exact h
    next scope rest hc => exact h.leave hm hc

theorem Sound.moves (hm : Honest m v) (h : c.Sound m v base) (ms : List Move) :
    (c.moves m ms).Sound m v base := by
  induction ms generalizing c with
  | nil => exact h
  | cons next ms ih => exact ih (h.move hm next)

theorem Sound.restored (h : c.Sound m v base) (closed : c.scopes = [])
    (clean : (v.standing c.state).flags.poisoned = false) :
    v.standing c.state = base ∨ v.standing c.state = base.withGroups [] := by
  have intact := h.intact
  rw [closed] at intact
  rcases intact.back with poisoned | same | cleared
  · exact absurd (clean.symm.trans poisoned) (by simp)
  · exact .inl same
  · exact .inr cleared

/-- After any moves of a thread that started without a mark: once no scope is open and the thread is
not poisoned, it has its ids back, up to groups that were cleared; each call that poisons it comes
right after ids could not be put back, and a thread is not poisoned without such a call. -/
theorem standing_restored (hm : Honest m v) {s : σ} (unmarked : (v.standing s).flags = {})
    (ms : List Move) :
    let c := Course.moves m { state := s } ms
    (c.scopes = [] → (v.standing c.state).flags.poisoned = false →
      (v.standing c.state).ids.fsuid = (v.standing s).ids.fsuid ∧
      (v.standing c.state).ids.fsgid = (v.standing s).ids.fsgid ∧
      (v.standing c.state).flags.active = false ∧
      ((v.standing c.state).ids.groups = (v.standing s).ids.groups ∨
        (v.standing c.state).ids.groups = [])) ∧
    (∀ front e back, c.log = front ++ e :: back → e.Poisons m v → FailedRestoration m front) ∧
    ((v.standing c.state).flags.poisoned = true → ∃ e ∈ c.log, e.Poisons m v) := by
  intro c
  have sound : c.Sound m v (v.standing s) := (Sound.start unmarked).moves hm ms
  refine ⟨fun closed clean => ?_, fun front e back split hp => ?_, sound.reason⟩
  · rcases sound.restored closed clean with same | cleared
    · exact ⟨by rw [same], by rw [same], by rw [same, unmarked], .inl (by rw [same])⟩
    · exact ⟨by rw [cleared]; rfl, by rw [cleared]; rfl,
        by rw [cleared]; exact congrArg ScopeFlags.active unmarked, .inr (by rw [cleared]; rfl)⟩
  · exact sound.justified front e back split (hp.call_eq hm)

/-- A thread whose next switch to an identity fails at the groups. -/
def refusedStart : Station × Plan :=
  (⟨{ simulated := { ids := ⟨5, 6, [9]⟩ } },
    { users := .directory (Directory.add {} "alice" 1001 900 [800]) }⟩,
    List.replicate 7 none ++ [some (.os .notPermitted)])

def switchAsRoot : List Move :=
  [.enterRoot, .within (.principal {} (.user "alice")) ⟨crash "", .neutral trivial⟩, .leave]

/-- The switch is undone: the ids are back and the groups that the thread had are gone. -/
theorem standing_restored_refused :
    let c := Course.moves Station.answer.planned { state := refusedStart } switchAsRoot
    ((Station.view.standing refusedStart.1).flags = {} ∧ c.scopes = [] ∧
      c.state.1.thread.flags.poisoned = false) ∧
    c.state.1.ids.fsuid = 5 ∧ c.state.1.ids.fsgid = 6 ∧ c.state.1.thread.flags.active = false ∧
      (c.state.1.ids.groups = [9] ∨ c.state.1.ids.groups = []) := by
  intro c
  have unmarked : (Station.view.standing refusedStart.1).flags = {} := rfl
  have closed : c.scopes = [] := by decide +kernel
  have clean : c.state.1.thread.flags.poisoned = false := by decide +kernel
  have restored := (standing_restored Station.honest.planned unmarked switchAsRoot).1 closed clean
  exact ⟨⟨unmarked, closed, clean⟩, restored⟩

end Course

end Impersonation
