import Impersonation.Proofs.Trace

namespace Impersonation

namespace Call

/-- A call that neither reaches the storage nor changes what the thread runs with. -/
def isQuiet (c : Call) : Bool :=
  c.isNeutral && !c.isStorage

def isStanding : Call → Bool
  | ids | setFsuid _ | setFsgid _ | setGroups _ | scopeFlags | setActive _ | poison => true
  | _ => false

def isPrivilege : Call → Bool
  | hasCapability .. | raiseCapability _ | switchingDisabled | disableSwitching => true
  | _ => false

def isLookup : Call → Bool
  | findUser _ | listGroups .. => true
  | _ => false

theorem not_isStorage_of_isStanding {c : Call} (hc : c.isStanding) : c.isStorage = false := by
  cases c <;> first | rfl | cases hc

theorem isQuiet_of_isPrivilege {c : Call} (hc : c.isPrivilege) : c.isQuiet := by
  cases c <;> first | rfl | cases hc

theorem isQuiet_of_isLookup {c : Call} (hc : c.isLookup) : c.isQuiet := by
  cases c <;> first | rfl | cases hc

theorem not_isSwitch_of_isQuiet {c : Call} (hc : c.isQuiet) : c.isSwitch = false := by
  cases c <;> first | rfl | cases hc

theorem isNeutral_of_isQuiet {c : Call} (hc : c.isQuiet) : c.isNeutral := by
  simp only [isQuiet, Bool.and_eq_true] at hc
  exact hc.1

theorem not_isStorage_of_isQuiet {c : Call} (hc : c.isQuiet) : c.isStorage = false := by
  simp only [isQuiet, Bool.and_eq_true, Bool.not_eq_true'] at hc
  exact hc.2

end Call

namespace Program

variable {σ α β ε : Type} {m : Machine σ} {p q : Call → Prop} {b c : Prop}

/-- All calls that the program can make, whatever the replies, are of one kind, and it can crash
only if `crashes` holds. -/
def Only (p : Call → Prop) (crashes : Prop) : Program α → Prop
  | done _ => True
  | crash _ => crashes
  | call c k => p c ∧ ∀ reply, (k reply).Only p crashes

@[simp] theorem only_pure (a : α) : (pure a : Program α).Only p b :=
  trivial

@[simp] theorem only_crash {r : String} : (crash r : Program α).Only p b ↔ b :=
  Iff.rfl

@[simp] theorem only_ask {k : Call} : (ask k).Only p b ↔ p k :=
  ⟨fun h => h.1, fun h => ⟨h, fun _ => trivial⟩⟩

theorem Only.mono {x : Program α} (h : x.Only p b) (hpq : ∀ k, p k → q k) (hbc : b → c) :
    x.Only q c := by
  induction x with
  | done a => trivial
  | crash r => exact hbc h
  | call k next ih => exact ⟨hpq k h.1, fun reply => ih reply (h.2 reply)⟩

theorem Only.bind {x : Program α} {f : α → Program β} (hx : x.Only p b)
    (hf : ∀ a, (f a).Only p b) : (x >>= f).Only p b := by
  induction x with
  | done a => exact hf a
  | crash r => exact hx
  | call k next ih => exact ⟨hx.1, fun reply => ih reply (hx.2 reply)⟩

theorem Only.attempt {x : Attempt ε α} {f : α → Attempt ε β} (hx : x.run.Only p b)
    (hf : ∀ a, (f a).run.Only p b) : ((x >>= f).run).Only p b := by
  rw [ExceptT.run_bind]
  refine hx.bind fun r => ?_
  cases r with
  | ok a => exact hf a
  | error e => exact only_pure _

theorem Only.closing {x : Program α} {last : Program Unit} (hx : x.Only p b)
    (hlast : last.Only p b) : (x.closing last).Only p b := by
  induction x with
  | done a => exact hlast.bind fun _ => trivial
  | crash r => exact hlast.bind fun _ => hx
  | call k next ih => exact ⟨hx.1, fun reply => ih reply (hx.2 reply)⟩

theorem Only.lift {x : Program α} (hx : x.Only p b) : ((liftM x : Attempt ε α).run).Only p b :=
  hx.bind fun _ => trivial

theorem Only.within {S : Type} {entering : Attempt ε S} {leave : S → Program Unit}
    {body : Program α} (hentering : entering.run.Only p b)
    (hleave : ∀ scope, (leave scope).Only p b) (hbody : body.Only p b) :
    ((do let scope ← entering; liftM (body.closing (leave scope)) : Attempt ε α).run).Only p b :=
  hentering.attempt fun scope => .lift (hbody.closing (hleave scope))

theorem Only.adapt {ε' : Type} {x : Attempt ε α} (hx : x.run.Only p b) (f : ε → ε') :
    ((x.adapt f).run).Only p b :=
  hx.bind fun r => by cases r <;> trivial

theorem only_forM {xs : List α} {f : α → Attempt ε PUnit} (hf : ∀ a ∈ xs, (f a).run.Only p b) :
    ((xs.forM f).run).Only p b := by
  induction xs with
  | nil => trivial
  | cons a rest ih =>
    exact Only.attempt (hf a List.mem_cons_self) fun _ =>
      ih fun a' ha' => hf a' (List.mem_cons_of_mem a ha')

theorem only_settle {o : Outcome α} (hb : b) : (settle o).Only p b := by
  cases o with
  | finished a => trivial
  | crashed r => exact hb

theorem only_perform {r : Request} (h : p (.perform r)) (hb : b) : (perform r).Only p b :=
  (only_ask.mpr h).bind fun _ => only_settle hb

theorem only_probe {a : Path} (h : p (.probe a)) (hb : b) : (probe a).Only p b :=
  (only_ask.mpr h).bind fun _ => only_settle hb

theorem only_setOwner {a : Path} {uid gid : Option UInt32} (h : p (.setOwner a uid gid))
    (hb : b) : (setOwner a uid gid).Only p b :=
  (only_ask.mpr h).bind fun _ => only_settle hb

theorem Runs.finished {x : Program α} {s t : σ} {calls : List (Moment σ)} {o : Outcome α}
    (h : x.Runs m s calls o t) (hx : x.Only p False) : ∃ a, o = .finished a := by
  obtain ⟨-, hr⟩ := h
  induction x generalizing s with
  | done a => exact ⟨a, (Prod.mk.inj hr).1.symm⟩
  | crash r => exact hx.elim
  | call k next ih => exact ih _ (hx.2 _) hr

theorem Only.runs_bind {x : Program α} (hx : x.Only p False) {f : α → Program β} {s t : σ}
    {calls : List (Moment σ)} {o : Outcome β} (h : (x >>= f).Runs m s calls o t) :
    ∃ a s₁ front back, x.Runs m s front (.finished a) s₁ ∧ (f a).Runs m s₁ back o t ∧
      calls = front ++ back := by
  rcases Program.runs_bind.mp h with next | ⟨r, crashed, -⟩
  · exact next
  · obtain ⟨a, ha⟩ := crashed.finished hx
    simp at ha

theorem Only.runs_attempt {x : Attempt ε α} (hx : x.run.Only p False) {f : α → Attempt ε β} {s t : σ}
    {calls : List (Moment σ)} {o : Outcome (Except ε β)} (h : ((x >>= f).run).Runs m s calls o t) :
    (∃ a s₁ front back, x.run.Runs m s front (.finished (.ok a)) s₁ ∧
      (f a).run.Runs m s₁ back o t ∧ calls = front ++ back) ∨
    ∃ e, x.run.Runs m s calls (.finished (.error e)) t ∧ o = .finished (.error e) := by
  rcases Program.runs_attempt.mp h with next | failed | ⟨r, crashed, -⟩
  · exact .inl next
  · exact .inr failed
  · obtain ⟨_, ha⟩ := crashed.finished hx
    simp at ha

theorem Runs.only {x : Program α} {s t : σ} {calls : List (Moment σ)} {o : Outcome α}
    (h : x.Runs m s calls o t) (hp : x.Only p b) : ∀ e ∈ calls, p e.call := by
  obtain ⟨rfl, -⟩ := h
  induction x generalizing s with
  | done a => simp [trace]
  | crash r => simp [trace]
  | call k next ih =>
    intro e he
    rcases List.mem_cons.mp he with rfl | he
    · exact hp.1
    · exact ih _ (hp.2 _) e he

/-- What every call of a run keeps holds throughout the run and at its end. -/
theorem Runs.invariant {x : Program α} {s t : σ} {calls : List (Moment σ)} {o : Outcome α}
    (h : x.Runs m s calls o t) {I : σ → Prop}
    (step : ∀ e ∈ calls, I e.state → I (m e.call e.state).2) (start : I s) :
    I t ∧ ∀ e ∈ calls, I e.state := by
  obtain ⟨rfl, hr⟩ := h
  induction x generalizing s with
  | done a =>
    obtain ⟨-, rfl⟩ := Prod.mk.inj hr
    exact ⟨start, by simp [trace]⟩
  | crash r =>
    obtain ⟨-, rfl⟩ := Prod.mk.inj hr
    exact ⟨start, by simp [trace]⟩
  | call c k ih =>
    have next := step ⟨c, s⟩ List.mem_cons_self start
    obtain ⟨last, all⟩ := ih _ next hr fun e he => step e (List.mem_cons_of_mem _ he)
    refine ⟨last, fun e he => ?_⟩
    rcases List.mem_cons.mp he with rfl | he
    · exact start
    · exact all e he

/-- What holds after a call of a run, and is kept by the rest, holds at each later call. -/
theorem Runs.since {x : Program α} {s t : σ} {calls : List (Moment σ)} {o : Outcome α}
    (h : x.Runs m s calls o t) {I : σ → Prop}
    (step : ∀ e ∈ calls, I e.state → I (m e.call e.state).2) {front back : List (Moment σ)}
    {e e' : Moment σ} (split : calls = front ++ e :: back) (he' : e' ∈ front)
    (since : I (m e'.call e'.state).2) : I e.state := by
  induction x generalizing s calls front with
  | done a =>
    obtain ⟨rfl, -, -⟩ := runs_done.mp h
    simp at split
  | crash r =>
    obtain ⟨rfl, -, -⟩ := runs_crash.mp h
    simp at split
  | call c k ih =>
    obtain ⟨rest, rfl, next⟩ := runs_call.mp h
    cases front with
    | nil => simp at he'
    | cons first front =>
      obtain ⟨rfl, rfl⟩ := List.cons.inj split
      have later := fun e he => step e (List.mem_cons_of_mem _ he)
      rcases List.mem_cons.mp he' with rfl | he'
      · exact (next.invariant later since).2 e (by simp)
      · exact ih _ next later rfl he'

/-- A flag that certain calls raise, and nothing lowers, is up after a run exactly if it was up before
or one of those calls was made. -/
theorem Runs.flag_iff {x : Program α} {s t : σ} {calls : List (Moment σ)} {o : Outcome α}
    (h : x.Runs m s calls o t) {f : σ → Bool}
    (step : ∀ e ∈ calls, f (m e.call e.state).2 = true ↔ f e.state = true ∨ p e.call) :
    f t = true ↔ f s = true ∨ ∃ e ∈ calls, p e.call := by
  induction x generalizing s calls with
  | done a =>
    obtain ⟨rfl, -, rfl⟩ := runs_done.mp h
    simp
  | crash r =>
    obtain ⟨rfl, -, rfl⟩ := runs_crash.mp h
    simp
  | call c k ih =>
    obtain ⟨rest, rfl, next⟩ := runs_call.mp h
    rw [ih _ next fun e he => step e (List.mem_cons_of_mem _ he), step ⟨c, s⟩ List.mem_cons_self]
    simp only [List.mem_cons, exists_eq_or_imp, or_assoc]

/-- Another machine that answers each call of a run alike takes the program to the same outcome. -/
theorem Runs.lockstep {τ : Type} {n : Machine τ} {R : σ → τ → Prop} {x : Program α} {s t : σ}
    {u : τ} {calls : List (Moment σ)} {o : Outcome α} (h : x.Runs m s calls o t)
    (step : ∀ e ∈ calls, ∀ u, R e.state u →
      (n e.call u).1 = (m e.call e.state).1 ∧ R (m e.call e.state).2 (n e.call u).2)
    (start : R s u) : ∃ u', x.run n u = (o, u') ∧ R t u' := by
  obtain ⟨rfl, hr⟩ := h
  induction x generalizing s u with
  | done a =>
    obtain ⟨rfl, rfl⟩ := Prod.mk.inj hr
    exact ⟨u, rfl, start⟩
  | crash r =>
    obtain ⟨rfl, rfl⟩ := Prod.mk.inj hr
    exact ⟨u, rfl, start⟩
  | call c k ih =>
    -- The replies are equal, so both runs go on with the same program, in related states.
    obtain ⟨reply, next⟩ := step ⟨c, s⟩ List.mem_cons_self u start
    dsimp only at reply next
    rw [run, reply]
    exact ih _ next hr fun e he => step e (List.mem_cons_of_mem _ he)

end Program

/-- Each of the calls is right after those before it, of which `before` came first. -/
def Each {σ : Type} (P : List (Moment σ) → Moment σ → Prop) (before calls : List (Moment σ)) :
    Prop :=
  ∀ front e back, calls = front ++ e :: back → P (before ++ front) e

namespace Each

variable {σ : Type} {P Q : List (Moment σ) → Moment σ → Prop} {before calls more : List (Moment σ)}

theorem of_forall (h : ∀ front, ∀ e ∈ calls, P front e) : Each P before calls := by
  rintro front e back rfl
  exact h _ e (by simp)

theorem single {e : Moment σ} (h : P before e) : Each P before [e] := by
  intro front e' back split
  cases front with
  | nil =>
    obtain ⟨rfl, -⟩ := List.cons.inj split
    rwa [List.append_nil]
  | cons e'' front => simp at split

theorem mono (h : Each P before calls) (hpq : ∀ front e, P front e → Q front e) :
    Each Q before calls :=
  fun front e back split => hpq _ e (h front e back split)

theorem and (h : Each P before calls) (h' : Each Q before calls) :
    Each (fun front e => P front e ∧ Q front e) before calls :=
  fun front e back split => ⟨h front e back split, h' front e back split⟩

theorem mem (h : Each P before calls) {e : Moment σ} (he : e ∈ calls) :
    ∃ front, P (before ++ front) e := by
  obtain ⟨front, back, split⟩ := List.append_of_mem he
  exact ⟨front, h front e back split⟩

theorem append (h : Each P before calls) (h' : Each P (before ++ calls) more) :
    Each P before (calls ++ more) := by
  intro front e back split
  -- The call is among the later ones, or it is one of the first, unless those end right before it.
  rcases List.append_eq_append_iff.mp split with ⟨mid, rfl, hmore⟩ | ⟨mid, rfl, hmid⟩
  · rw [← List.append_assoc]
    exact h' mid e back hmore
  · cases mid with
    | nil =>
      have := h' [] e back hmid.symm
      simpa using this
    | cons e' mid =>
      obtain ⟨rfl, -⟩ := List.cons.inj hmid
      exact h front e mid rfl

theorem after (h : Each P before calls)
    (hp : ∀ earlier front e, P front e → P (earlier ++ front) e) (earlier : List (Moment σ)) :
    Each P (earlier ++ before) calls := by
  intro front e back split
  rw [List.append_assoc]
  exact hp earlier _ e (h front e back split)

end Each

end Impersonation
